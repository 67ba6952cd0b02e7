import GridRules.Proofs.Blobs
import Mathlib.Data.Set.Function

/-! A store is meant to keep its blobs by pairs of names, a space and a key. It keeps them by one
name that is made of both, so it answers as a map of pairs does exactly as long as no two pairs
that are in use are made into one name. -/
namespace GridRules

/-- One use of a store. -/
inductive Access where
  | read (space key : String) (room : Nat)
  | write (space key : String) (bytes : Wire.Bytes)
  | delete (space key : String)
  | contains (space key : String)

inductive Answer where
  | done
  | bytes (bytes : Wire.Bytes)
  | found (b : Bool)
  | failed (e : StoreFault)
  deriving DecidableEq

namespace Access

/-- The two names that are given. -/
def pair : Access → String × String
  | .read space key _ | .write space key _ | .delete space key | .contains space key =>
    (space, key)

/-- The answer if one of the names is none. -/
def refusal : Access → Answer
  | .contains .. => .found false
  | _ => .failed .io

/-- The answers to one access after the other. -/
def answers {σ : Type} (serve : σ → Access → Answer × σ) : σ → List Access → List Answer
  | _, [] => []
  | s, a :: as => (serve s a).1 :: answers serve (serve s a).2 as

end Access

/-- What a store is meant to be: bytes for pairs of names. -/
abbrev PairStore := String × String → Option Wire.Bytes

namespace PairStore

def empty : PairStore := fun _ => none

/-- Both are names: texts of one to fifteen bytes. -/
def IsValid (p : String × String) : Prop :=
  (1 ≤ p.1.utf8ByteSize ∧ p.1.utf8ByteSize ≤ 15) ∧ 1 ≤ p.2.utf8ByteSize ∧ p.2.utf8ByteSize ≤ 15

instance (p : String × String) : Decidable (IsValid p) := inferInstanceAs (Decidable (_ ∧ _))

def take (bytes? : Option Wire.Bytes) (room : Nat) : Answer :=
  match bytes? with
  | none => .failed .notFound
  | some bytes => if room < bytes.length then .failed .corrupted else .bytes bytes

/-- What an access does if both names are names. -/
def served (s : PairStore) : Access → Answer × PairStore
  | .read space key room => (take (s (space, key)) room, s)
  | .write space key bytes =>
    if 4000 < bytes.length then (.failed .full, s)
    else (.done, Function.update s (space, key) (some bytes))
  | .delete space key => (.done, Function.update s (space, key) none)
  | .contains space key => (.found (s (space, key)).isSome, s)

def serve (s : PairStore) (a : Access) : Answer × PairStore :=
  if IsValid a.pair then s.served a else (a.refusal, s)

end PairStore

namespace Store

/-- What is answered to a read. -/
def readAnswer : Except StoreFault Wire.Bytes → Answer
  | .ok bytes => .bytes bytes
  | .error e => .failed e

/-- What is answered to a change, and the store after it. -/
def changeAnswer (s : Store) : Except StoreFault Store → Answer × Store
  | .ok s => (.done, s)
  | .error e => (.failed e, s)

def serve (s : Store) : Access → Answer × Store
  | .read space key room => (readAnswer (s.read space key room).value, s)
  | .write space key bytes => s.changeAnswer (s.write space key bytes).value
  | .delete space key => s.changeAnswer (s.delete space key).value
  | .contains space key => (.found (s.contains space key).value, s)

theorem isName_iff (name : String) :
    isName name ↔ 1 ≤ name.utf8ByteSize ∧ name.utf8ByteSize ≤ 15 := by
  simp only [isName, ne_eq, decide_not, Bool.and_eq_true, Bool.not_eq_eq_eq_not, Bool.not_true,
    decide_eq_false_iff_not, decide_eq_true_eq, Nat.one_le_iff_ne_zero,
    String.utf8ByteSize_eq_zero_iff]

theorem invalidName?_eq_none_iff (space key : String) :
    invalidName? space key = none ↔ PairStore.IsValid (space, key) := by
  rw [invalidName?, List.find?_eq_none, PairStore.IsValid, ← isName_iff, ← isName_iff]
  simp

theorem withNames_of_isValid {α : Type} {space key : String}
    (h : PairStore.IsValid (space, key)) (act : Except StoreFault α) :
    (withNames space key act).value = act := by
  rw [withNames, (invalidName?_eq_none_iff space key).mpr h, Logged.value_pure]

theorem withNames_of_not_isValid {α : Type} {space key : String}
    (h : ¬ PairStore.IsValid (space, key)) (act : Except StoreFault α) :
    (withNames space key act).value = .error .io := by
  obtain ⟨name, hname⟩ := Option.ne_none_iff_exists'.mp
    (mt (invalidName?_eq_none_iff space key).mp h)
  rw [withNames, hname, Logged.value_bind, Logged.value_pure]

theorem contains_eq (s : Store) (space key : String) :
    (s.contains space key).value =
      (decide (PairStore.IsValid (space, key)) && (s.blobs.get? (place space key)).isSome) := by
  rw [contains]
  cases hname : invalidName? space key with
  | none => simp [(invalidName?_eq_none_iff space key).mp hname, Table.contains]
  | some name =>
    have hbad : ¬ PairStore.IsValid (space, key) := fun h => by
      rw [(invalidName?_eq_none_iff space key).mpr h] at hname
      cases hname
    simp [hbad]

def served (s : Store) : Access → Answer × Store
  | .read space key room => (PairStore.take (s.blobs.get? (place space key)) room, s)
  | .write space key bytes =>
    if blobLimit < bytes.length then (.failed .full, s) else (.done, s.put ⟨space, key, bytes⟩)
  | .delete space key => (.done, ⟨s.blobs.erase (place space key)⟩)
  | .contains space key => (.found (s.blobs.get? (place space key)).isSome, s)

theorem serve_of_isValid {a : Access} (h : PairStore.IsValid a.pair) (s : Store) :
    s.serve a = s.served a := by
  cases a with
  | read space key room =>
    rw [serve, read, withNames_of_isValid h, served]
    cases s.blobs.get? (place space key) with
    | none => rfl
    | some bytes =>
      dsimp only [PairStore.take]
      split <;> rfl
  | write space key bytes =>
    rw [serve, write, withNames_of_isValid h, served]
    split <;> rfl
  | delete space key =>
    rw [serve, delete, withNames_of_isValid h]
    rfl
  | contains space key =>
    have hvalid : PairStore.IsValid (space, key) := h
    simp [serve, served, contains_eq, hvalid]

theorem serve_of_not_isValid {a : Access} (h : ¬ PairStore.IsValid a.pair) (s : Store) :
    s.serve a = (a.refusal, s) := by
  cases a with
  | read space key room =>
    rw [serve, read, withNames_of_not_isValid h]
    rfl
  | write space key bytes =>
    rw [serve, write, withNames_of_not_isValid h]
    rfl
  | delete space key =>
    rw [serve, delete, withNames_of_not_isValid h]
    rfl
  | contains space key =>
    have hbad : ¬ PairStore.IsValid (space, key) := h
    simp [serve, contains_eq, hbad, Access.refusal]

/-- The pairs in use have the same bytes in the store and in the map. -/
def Mirrors (used : Set (String × String)) (s : Store) (m : PairStore) : Prop :=
  ∀ p ∈ used, s.blobs.get? (place p.1 p.2) = m p

variable {used : Set (String × String)}

theorem Mirrors.update {s s' : Store} {m : PairStore} {p : String × String}
    {bytes? : Option Wire.Bytes} (hinj : used.InjOn fun p => place p.1 p.2)
    (h : Mirrors used s m) (hp : p ∈ used)
    (hs : ∀ name, s'.blobs.get? name = if name = place p.1 p.2 then bytes? else s.blobs.get? name) :
    Mirrors used s' (Function.update m p bytes?) := by
  intro q hq
  rw [hs, Function.update_apply, h q hq]
  exact if_congr (hinj.eq_iff hq hp) rfl rfl

/-- An access to pairs in use is answered alike, and leaves both alike. -/
theorem Mirrors.serve {s : Store} {m : PairStore} (hinj : used.InjOn fun p => place p.1 p.2)
    (h : Mirrors used s m) {a : Access} (ha : PairStore.IsValid a.pair → a.pair ∈ used) :
    (s.serve a).1 = (m.serve a).1 ∧ Mirrors used (s.serve a).2 (m.serve a).2 := by
  by_cases hvalid : PairStore.IsValid a.pair
  · have hp := ha hvalid
    rw [serve_of_isValid hvalid, PairStore.serve, if_pos hvalid]
    cases a with
    | read space key room => exact ⟨congrArg (PairStore.take · room) (h _ hp), h⟩
    | write space key bytes =>
      have hlimit : blobLimit = 4000 := rfl
      dsimp only [served, PairStore.served]
      rw [hlimit]
      by_cases hlarge : 4000 < bytes.length
      · rw [if_pos hlarge, if_pos hlarge]
        exact ⟨rfl, h⟩
      · rw [if_neg hlarge, if_neg hlarge]
        exact ⟨rfl, h.update hinj hp (s.get?_put ⟨space, key, bytes⟩)⟩
    | delete space key => exact ⟨rfl, h.update hinj hp (s.blobs.get?_erase (place space key))⟩
    | contains space key => exact ⟨congrArg (Answer.found ∘ Option.isSome) (h _ hp), h⟩
  · rw [serve_of_not_isValid hvalid, PairStore.serve, if_neg hvalid]
    exact ⟨rfl, h⟩

theorem Mirrors.answers {s : Store} {m : PairStore} (hinj : used.InjOn fun p => place p.1 p.2)
    (h : Mirrors used s m) {accesses : List Access}
    (ha : ∀ a ∈ accesses, PairStore.IsValid a.pair → a.pair ∈ used) :
    Access.answers Store.serve s accesses = Access.answers PairStore.serve m accesses := by
  induction accesses generalizing s m with
  | nil => rfl
  | cons a accesses ih =>
    obtain ⟨hanswer, hnext⟩ := h.serve hinj (ha a (List.mem_cons_self ..))
    rw [Access.answers, Access.answers, hanswer,
      ih hnext fun b hb => ha b (List.mem_cons_of_mem _ hb)]

theorem mirrors_empty (used : Set (String × String)) : Mirrors used empty PairStore.empty :=
  fun _ _ => rfl

/-- A store of spaces without colons answers as a map of pairs. -/
theorem answers_of_colon_notMem {accesses : List Access}
    (h : ∀ a ∈ accesses, ':' ∉ a.pair.1.toList) :
    Access.answers Store.serve empty accesses =
      Access.answers PairStore.serve PairStore.empty accesses := by
  have hinj : Set.InjOn (fun p : String × String => place p.1 p.2) {p | ':' ∉ p.1.toList} :=
    fun p hp q hq heq => Prod.ext_iff.mpr (place_injective hp hq heq)
  exact (mirrors_empty _).answers hinj fun a ha _ => h a ha

/-- A failed access leaves the store as it was. -/
theorem serve_failed {s : Store} {a : Access} {e : StoreFault} (h : (s.serve a).1 = .failed e) :
    (s.serve a).2 = s := by
  by_cases hvalid : PairStore.IsValid a.pair
  · rw [serve_of_isValid hvalid] at h ⊢
    cases a with
    | read space key room => rfl
    | write space key bytes =>
      simp only [served] at h ⊢
      split at h
      · rename_i hlarge
        rw [if_pos hlarge]
      · cases h
    | delete space key => cases h
    | contains space key => rfl
  · rw [serve_of_not_isValid hvalid]

/-- A blob that was written under one pair of names lies under the other, too, if both pairs have
one place. -/
theorem answers_write_contains {p q : String × String} (hp : PairStore.IsValid p)
    (hq : PairStore.IsValid q) (heq : place p.1 p.2 = place q.1 q.2) :
    Access.answers Store.serve empty [.write p.1 p.2 [], .contains q.1 q.2] =
        [.done, .found true] ∧
      Access.answers PairStore.serve PairStore.empty [.write p.1 p.2 [], .contains q.1 q.2] =
        [.done, .found (decide (q = p))] := by
  have hwrite : PairStore.IsValid (Access.write p.1 p.2 []).pair := hp
  have hcontains : PairStore.IsValid (Access.contains q.1 q.2).pair := hq
  constructor
  · simp [Access.answers, serve_of_isValid hwrite, serve_of_isValid hcontains, served, get?_put,
      Blob.place, heq]
  · simp only [Access.answers, PairStore.serve, if_pos hwrite, if_pos hcontains]
    by_cases hqp : q = p <;> simp [PairStore.served, PairStore.empty, hqp]

/-- A new store answers as a map of pairs does, whatever is done to it with some pairs of names,
exactly if those of them that are valid have their blobs in places of their own. An access that
fails leaves the store as it was. -/
theorem answers_eq_iff_injOn (pairs : Set (String × String)) :
    ((∀ accesses : List Access, (∀ a ∈ accesses, a.pair ∈ pairs) →
        Access.answers Store.serve empty accesses =
          Access.answers PairStore.serve PairStore.empty accesses) ↔
      Set.InjOn (fun p => place p.1 p.2) {p ∈ pairs | PairStore.IsValid p}) ∧
    ∀ (s : Store) (a : Access) (e : StoreFault), (s.serve a).1 = .failed e → (s.serve a).2 = s := by
  refine ⟨⟨fun h p hp q hq heq => ?_, fun hinj accesses h => ?_⟩, fun s a e => serve_failed⟩
  · obtain ⟨hstore, hmap⟩ := answers_write_contains hp.2 hq.2 heq
    have hanswers := h [.write p.1 p.2 [], .contains q.1 q.2]
      (by simpa [Access.pair] using ⟨hp.1, hq.1⟩)
    rw [hstore, hmap] at hanswers
    simpa [eq_comm] using hanswers
  · exact (mirrors_empty _).answers hinj fun a ha hvalid => ⟨h a ha, hvalid⟩

/-- Two pairs of names for one place: what is written under the one is read under the other. -/
theorem answers_of_shared_place :
    let accesses : List Access := [.write "a" ":b" [1], .read "a:" "b" 4000]
    Access.answers Store.serve empty accesses = [.done, .bytes [1]] ∧
      Access.answers PairStore.serve PairStore.empty accesses = [.done, .failed .notFound] := by
  decide

end Store
end GridRules
