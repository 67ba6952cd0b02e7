import GridRules.Controller.Saving
import GridRules.Proofs.Outcome
import GridRules.Proofs.Wire
import Mathlib.Data.List.Nodup

/-! Saving, blob by blob. What is stored of a controller is a list of blobs, two for each owner. A
save writes them in order up to the first that is refused; the blobs before that one are stored
and all others are left as they were. -/
namespace GridRules
variable {S R : Type} [BlobStore S]

/-- A store that may refuse any write. What it does not refuse goes into its contents as into a
plain store, and what it refuses leaves them as they are. -/
class Refusing (S : Type) [BlobStore S] where
  contents : S → Store
  write_cases (s : S) (space key : String) (bytes : Wire.Bytes) :
    (∃ e, (BlobStore.write s space key bytes).value.1 = .error e ∧
      contents (BlobStore.write s space key bytes).value.2 = contents s) ∨
    (BlobStore.write s space key bytes).value.1 = .ok () ∧
      ((contents s).write space key bytes).value =
        .ok (contents (BlobStore.write s space key bytes).value.2)

open Refusing (contents)

instance : Refusing Store where
  contents := id
  write_cases s space key bytes := by
    simp only [BlobStore.write, Logged.value_bind, Logged.value_pure, id]
    cases (s.write space key bytes).value with
    | error e => exact .inl ⟨e, rfl, rfl⟩
    | ok s' => exact .inr ⟨rfl, rfl⟩

instance : Refusing FaultyStore where
  contents := FaultyStore.store
  write_cases s space key bytes := by
    simp only [BlobStore.write, FaultyStore.write]
    cases s.nextFault with
    | some e => exact .inl ⟨e, rfl, rfl⟩
    | none =>
      simp only [Logged.value_bind]
      cases (s.store.write space key bytes).value with
      | error e => exact .inl ⟨e, rfl, rfl⟩
      | ok s' => exact .inr ⟨rfl, rfl⟩

/-! Names. No owner's name has a colon, so no two owners share a place. -/

theorem Store.place_injective {space space' key key' : String} (h : ':' ∉ space.toList)
    (h' : ':' ∉ space'.toList) (heq : place space key = place space' key') :
    space = space' ∧ key = key' := by
  have hplace (space key : String) :
      (place space key).toList = space.toList ++ ':' :: ':' :: key.toList := by
    simp [place]
  have hlists : space.toList ++ ':' :: ':' :: key.toList =
      space'.toList ++ ':' :: ':' :: key'.toList := by
    rw [← hplace, heq, hplace]
  -- what stands before the first colon is the space
  have hspace (cs rest : List Char) (hcs : ':' ∉ cs) :
      (cs ++ ':' :: rest).takeWhile (· ≠ ':') = cs := by
    rw [List.takeWhile_append_of_pos fun c hc => by simpa using ne_of_mem_of_not_mem hc hcs]
    simp
  have hs : space.toList = space'.toList := by
    rw [← hspace _ (':' :: key.toList) h, hlists, hspace _ _ h']
  rw [hs, List.append_cancel_left_eq] at hlists
  exact ⟨String.toList_inj.mp hs, String.toList_inj.mp (by simpa using hlists)⟩

namespace Target

theorem colon_notMem_text (t : Target) : ':' ∉ t.text.toList := by
  cases t with
  | unit => decide
  | module id =>
    intro h
    have hdigit : ':' ∈ Nat.toDigits 10 id.toNat := by
      simpa [text, Nat.toList_repr] using h
    exact absurd (Nat.isDigit_of_mem_toDigits (by decide) (by decide) hdigit) (by decide)

theorem text_injective {t t' : Target} (h : t.text = t'.text) : t = t' := by
  have hmod (id : UInt8) : "unit" ≠ "mod" ++ id.toNat.repr := fun heq => by
    simpa using congrArg (·.toList.head?) heq
  cases t with
  | unit => cases t' with
    | unit => rfl
    | module id => exact absurd h (hmod id)
  | module id => cases t' with
    | unit => exact absurd h.symm (hmod id)
    | module id' =>
      have hrepr : id.toNat.repr = id'.toNat.repr := by simpa [text] using h
      have hdigits := congrArg (Nat.ofDigitChars 10 ·.toList 0) hrepr
      simp only [Nat.toList_repr, Nat.ofDigitChars_ten_toDigits] at hdigits
      rw [UInt8.toNat_inj.mp hdigits]

theorem isName_text (t : Target) : Store.isName t.text := by
  cases t with
  | unit => decide
  | module id =>
    have hnames : ∀ n < 256, Store.isName ("mod" ++ Nat.repr n) := by decide +kernel
    exact hnames id.toNat id.toNat_lt

end Target

structure Blob where
  space : String
  key : String
  bytes : Wire.Bytes

def Blob.place (b : Blob) : String := Store.place b.space b.key

def Owner.blobs (o : Owner R) : List Blob :=
  [⟨o.space, Archive.rulesKey, Wire.rules.write o.engine.sources⟩,
    ⟨o.space, Archive.tagsKey, Wire.tags.write o.tags.toList⟩]

def Controller.blobs (c : Controller) : List Blob :=
  c.unit.blobs ++ c.modules.flatMap Owner.blobs

namespace Store

def put (s : Store) (b : Blob) : Store := ⟨s.blobs.put b.place b.bytes⟩

def putAll (s : Store) (bs : List Blob) : Store := bs.foldl put s

theorem get?_put (s : Store) (b : Blob) (place : String) :
    (s.put b).blobs.get? place = if place = b.place then some b.bytes else s.blobs.get? place :=
  s.blobs.get?_put b.place place b.bytes

theorem putAll_cons (s : Store) (b : Blob) (bs : List Blob) :
    s.putAll (b :: bs) = (s.put b).putAll bs := rfl

theorem get?_putAll_of_ne {s : Store} {bs : List Blob} {place : String}
    (h : ∀ b ∈ bs, b.place ≠ place) :
    (s.putAll bs).blobs.get? place = s.blobs.get? place := by
  induction bs generalizing s with
  | nil => rfl
  | cons b bs ih =>
    have hb : place ≠ b.place := (h b (List.mem_cons_self ..)).symm
    rw [putAll_cons, ih fun b' hb' => h b' (List.mem_cons_of_mem _ hb'), get?_put, if_neg hb]

theorem get?_putAll_of_mem {s : Store} {bs : List Blob} (h : (bs.map Blob.place).Nodup) {b : Blob}
    (hb : b ∈ bs) : (s.putAll bs).blobs.get? b.place = some b.bytes := by
  induction bs generalizing s with
  | nil => cases hb
  | cons b' bs ih =>
    obtain ⟨hnew, hnodup⟩ := List.nodup_cons.mp h
    rcases List.mem_cons.mp hb with rfl | hb
    · have hne : ∀ b' ∈ bs, b'.place ≠ b.place := fun b' hb' heq =>
        hnew (heq ▸ List.mem_map_of_mem hb')
      rw [putAll_cons, get?_putAll_of_ne hne, get?_put, if_pos rfl]
    · exact ih hnodup hb

theorem write_eq_ok {s s' : Store} {b : Blob} (h : (s.write b.space b.key b.bytes).value = .ok s') :
    b.bytes.length ≤ blobLimit ∧ s' = s.put b := by
  rw [write, withNames] at h
  split at h
  · cases h
  · by_cases hlarge : blobLimit < b.bytes.length
    · simp [hlarge] at h
    · simp only [if_neg hlarge, Logged.value_pure, Except.ok.injEq] at h
      exact ⟨Nat.le_of_not_lt hlarge, h.symm⟩

/-- What is read at a place where nothing is stored: the bytes of an empty list. -/
def nothing : Wire.Bytes := [0]

/-- Whether reading at the blob's place gives the blob. -/
def Settled (s : Store) (b : Blob) : Prop :=
  b.bytes.length ≤ blobLimit ∧ (s.blobs.get? b.place).getD nothing = b.bytes

end Store

namespace Archive

/-- Writes one blob after the other, up to the first failure. -/
def saveEach (s : S) : List Blob → Except Fault Unit × S
  | [] => (.ok (), s)
  | b :: bs => match (save s b.space b.key b.bytes).value with
    | (.error e, s) => (.error e, s)
    | (.ok (), s) => saveEach s bs

theorem saveEach_append (s : S) (bs bs' : List Blob) :
    saveEach s (bs ++ bs') = match saveEach s bs with
      | (.error e, s) => (.error e, s)
      | (.ok (), s) => saveEach s bs' := by
  induction bs generalizing s with
  | nil => rfl
  | cons b bs ih =>
    simp only [List.cons_append, saveEach]
    split
    · rfl
    · exact ih _

theorem saveEach_ownerBlobs (o : Owner R) (s : S) : saveEach s o.blobs = (o.persist s).value := by
  simp only [Owner.blobs, saveEach, Owner.persist, saveRules, saveTags, Logged.value_bind]
  cases (save s o.space rulesKey (Wire.rules.write o.engine.sources)).value with
  | mk r s =>
    cases r with
    | error e => rfl
    | ok u =>
      dsimp only
      cases (save s o.space tagsKey (Wire.tags.write o.tags.toList)).value with
      | mk r s => cases r <;> rfl

theorem saveEach_moduleBlobs (ms : List Module) (s : S) :
    saveEach s (ms.flatMap Owner.blobs) = (Controller.persistModules s ms).value := by
  induction ms generalizing s with
  | nil => rfl
  | cons m ms ih =>
    rw [List.flatMap_cons, saveEach_append, saveEach_ownerBlobs, Controller.persistModules,
      Logged.value_bind]
    cases (m.persist s).value with
    | mk r s =>
      cases r with
      | error e => rfl
      | ok u => exact ih s

theorem saveEach_blobs (c : Controller) (s : S) : saveEach s c.blobs = (c.persist s).value := by
  rw [Controller.blobs, saveEach_append, saveEach_ownerBlobs, Controller.persist,
    Logged.value_bind]
  cases (c.unit.persist s).value with
  | mk r s =>
    cases r with
    | error e => rfl
    | ok u => exact saveEach_moduleBlobs c.modules s

/-- The blob is too large, or the store as it is now does not take it. -/
def Refused (s : S) (b : Blob) : Prop :=
  blobLimit < b.bytes.length ∨ ∃ e, (BlobStore.write s b.space b.key b.bytes).value.1 = .error e

/-- The store takes the blobs, one after the other, and becomes `s'`. -/
inductive Takes : S → List Blob → S → Prop
  | nil (s : S) : Takes s [] s
  | cons {s s' : S} {b : Blob} {bs : List Blob} (hb : ¬ Refused s b)
    (hbs : Takes (BlobStore.write s b.space b.key b.bytes).value.2 bs s') : Takes s (b :: bs) s'

/-- A store takes all of a list of blobs or refuses a first one. -/
theorem takes_cases (s : S) (bs : List Blob) :
    (∃ s', Takes s bs s') ∨
      ∃ front b back s', bs = front ++ b :: back ∧ Takes s front s' ∧ Refused s' b := by
  induction bs generalizing s with
  | nil => exact .inl ⟨s, .nil s⟩
  | cons b bs ih =>
    by_cases hb : Refused s b
    · exact .inr ⟨[], b, bs, s, rfl, .nil s, hb⟩
    · rcases ih (BlobStore.write s b.space b.key b.bytes).value.2 with
        ⟨s', hbs⟩ | ⟨front, b', back, s', rfl, hfront, hb'⟩
      · exact .inl ⟨s', .cons hb hbs⟩
      · exact .inr ⟨b :: front, b', back, s', rfl, .cons hb hfront, hb'⟩

theorem save_of_not_refused {s : S} {b : Blob} (h : ¬ Refused s b) :
    (save s b.space b.key b.bytes).value =
      (.ok (), (BlobStore.write s b.space b.key b.bytes).value.2) := by
  obtain ⟨hsize, hwrite⟩ := not_or.mp h
  rw [save, if_neg hsize]
  simp only [Logged.value_bind, Logged.value_pure]
  cases hr : (BlobStore.write s b.space b.key b.bytes).value.1 with
  | ok u => rfl
  | error e => exact (hwrite ⟨e, hr⟩).elim

theorem Takes.saveEach {s s' : S} {front : List Blob} (h : Takes s front s') (rest : List Blob) :
    saveEach s (front ++ rest) = saveEach s' rest := by
  induction h with
  | nil => rfl
  | cons hb _ ih =>
    rw [List.cons_append, Archive.saveEach, save_of_not_refused hb]
    exact ih

theorem Takes.length_le {s s' : S} {bs : List Blob} (h : Takes s bs s') :
    ∀ b ∈ bs, b.bytes.length ≤ blobLimit := by
  induction h with
  | nil => simp
  | cons hb _ ih => simpa using ⟨Nat.le_of_not_lt fun hsize => hb (.inl hsize), ih⟩

variable [Refusing S]

theorem save_of_refused {s : S} {b : Blob} (h : Refused s b) :
    (∃ e, (save s b.space b.key b.bytes).value.1 = .error e) ∧
      contents (save s b.space b.key b.bytes).value.2 = contents s := by
  rw [save]
  split
  · exact ⟨⟨_, rfl⟩, rfl⟩
  · rename_i hsize
    obtain ⟨e, he⟩ := h.resolve_left hsize
    simp only [Logged.value_bind, Logged.value_pure, he]
    rcases Refusing.write_cases s b.space b.key b.bytes with ⟨-, -, hs⟩ | ⟨hok, -⟩
    · exact ⟨⟨_, rfl⟩, hs⟩
    · rw [he] at hok
      cases hok

theorem contents_write {s : S} {b : Blob} (h : ¬ Refused s b) :
    contents (BlobStore.write s b.space b.key b.bytes).value.2 = (contents s).put b := by
  rcases Refusing.write_cases s b.space b.key b.bytes with ⟨e, he, -⟩ | ⟨-, hput⟩
  · exact (h (.inr ⟨e, he⟩)).elim
  · exact (Store.write_eq_ok hput).2

theorem Takes.contents_eq {s s' : S} {bs : List Blob} (h : Takes s bs s') :
    contents s' = (contents s).putAll bs := by
  induction h with
  | nil => rfl
  | cons hb _ ih => rw [ih, contents_write hb, Store.putAll_cons]

/-- A save has stored all blobs, or it has failed and stored those before the first one that was
refused. -/
theorem saveEach_cases (s : S) (bs : List Blob) :
    (∃ s', Takes s bs s' ∧ saveEach s bs = (.ok (), s')) ∨
      ∃ front b back s', bs = front ++ b :: back ∧ Takes s front s' ∧ Refused s' b ∧
        (∃ e, (saveEach s bs).1 = .error e) ∧
        contents (saveEach s bs).2 = (contents s).putAll front := by
  rcases takes_cases s bs with ⟨s', hall⟩ | ⟨front, b, back, s', rfl, hfront, hb⟩
  · have hok := hall.saveEach []
    rw [List.append_nil] at hok
    exact .inl ⟨s', hall, hok⟩
  · refine .inr ⟨front, b, back, s', rfl, hfront, hb, ?_⟩
    obtain ⟨⟨e, he⟩, hsame⟩ := save_of_refused hb
    rw [hfront.saveEach, ← hfront.contents_eq, ← hsame, saveEach]
    rcases hsave : (save s' b.space b.key b.bytes).value with ⟨r, s''⟩
    rw [hsave] at he
    subst he
    exact ⟨⟨e, rfl⟩, rfl⟩

/-- Some of the blobs, from the front on, are stored, and all of them if the save succeeds. -/
theorem saveEach_prefix (s : S) (bs : List Blob) :
    ∃ stored, stored <+: bs ∧ (∀ b ∈ stored, b.bytes.length ≤ blobLimit) ∧
      contents (saveEach s bs).2 = (contents s).putAll stored ∧
      ((saveEach s bs).1 = .ok () → stored = bs) := by
  rcases saveEach_cases s bs with
    ⟨s', hall, heq⟩ | ⟨front, b, back, s', rfl, hfront, -, ⟨e, he⟩, hput⟩
  · exact ⟨bs, List.prefix_rfl, hall.length_le, heq ▸ hall.contents_eq, fun _ => rfl⟩
  · refine ⟨front, List.prefix_append .., hfront.length_le, hput, fun hok => ?_⟩
    rw [he] at hok
    cases hok

/-- No save unsettles one of its blobs, and a save that succeeds settles all of them. -/
theorem settled_saveEach {bs : List Blob} (h : (bs.map Blob.place).Nodup) (s : S) {b : Blob}
    (hb : b ∈ bs) (hs : (saveEach s bs).1 = .ok () ∨ (contents s).Settled b) :
    (contents (saveEach s bs).2).Settled b := by
  obtain ⟨stored, hfront, hsizes, hput, hall⟩ := saveEach_prefix s bs
  have hnodup : (stored.map Blob.place).Nodup :=
    (hfront.sublist.map Blob.place).nodup h
  rw [hput]
  by_cases hstored : b ∈ stored
  · refine ⟨hsizes b hstored, ?_⟩
    rw [Store.get?_putAll_of_mem hnodup hstored, Option.getD_some]
  · obtain hok | hs := hs
    · exact absurd (hall hok ▸ hb) hstored
    · have hne : ∀ b' ∈ stored, b'.place ≠ b.place := fun b' hb' heq =>
        hstored (List.inj_on_of_nodup_map h (hfront.subset hb') hb heq ▸ hb')
      refine ⟨hs.1, ?_⟩
      rw [Store.get?_putAll_of_ne hne, hs.2]

end Archive

end GridRules
