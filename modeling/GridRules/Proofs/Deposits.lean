import GridRules.Proofs.Patches

/-! Deposits. What a store has for an owner is its deposit: two lists, each of which is absent or
lies in a blob that can be read. An owner that is restored takes over its whole deposit; without
one it stays as it is. The deposits of other owners do not matter to it. -/
namespace GridRules
variable {S R : Type}

/-! What is loaded of a list of records. -/
namespace Engine
variable {σ : Type}

/-- The rules of the records that can be read. -/
def readable (ts : List RuleText) : List Rule := ts.filterMap fun t => (Rule.parse t).toOption

/-- The records that are refused, with their places and the reasons, where there are `count` rules
before them; the first is reported as record `index`. -/
def refused (limit count index : Nat) : List RuleText → List (Nat × Fault)
  | [] => []
  | t :: ts => match refusal limit count t with
    | some f => (index, f) :: refused limit count (index + 1) ts
    | none => refused limit (count + 1) (index + 1) ts

/-- A record becomes a rule, or it is refused and none of the rules that there is room for is its
own. -/
theorem addRule_cases (e : Engine σ) (t : RuleText) (ts : List RuleText) :
    (∃ r, (e.addRule t).value = .ok { e with rules := e.rules ++ [r] } ∧
      refusal e.maxRules e.rules.length t = none ∧
      (readable (t :: ts)).take (e.maxRules - e.rules.length) =
        r :: (readable ts).take (e.maxRules - (e.rules.length + 1))) ∨
    ∃ f, (e.addRule t).value = .error f ∧ refusal e.maxRules e.rules.length t = some f ∧
      (readable (t :: ts)).take (e.maxRules - e.rules.length) =
        (readable ts).take (e.maxRules - e.rules.length) := by
  cases hadd : (e.addRule t).value with
  | ok e' =>
    obtain ⟨hroom, r, hr, rfl⟩ := addRule_eq_ok_iff.mp hadd
    obtain rfl := Rule.parse_eq_ok_iff.mp hr
    have hreadable : readable (r.source :: ts) = r :: readable ts :=
      List.filterMap_cons_some (by rw [hr]; rfl)
    have hleft : e.maxRules - e.rules.length = e.maxRules - (e.rules.length + 1) + 1 := by omega
    refine .inl ⟨r, rfl, refusal_eq_none r hroom, ?_⟩
    rw [hreadable, hleft, List.take_succ_cons]
  | error f =>
    refine .inr ⟨f, rfl, addRule_eq_error_iff.mp hadd, ?_⟩
    by_cases hroom : e.rules.length < e.maxRules
    · have hnone : (Rule.parse t).toOption = none := by
        cases hp : Rule.parse t with
        | ok r => exact absurd (hadd.symm.trans (addRule_eq_ok_iff.mpr ⟨hroom, r, hp, rfl⟩)) nofun
        | error f' => rfl
      have hreadable : readable (t :: ts) = readable ts := List.filterMap_cons_none hnone
      rw [hreadable]
    · have hleft : e.maxRules - e.rules.length = 0 := by omega
      rw [hleft, List.take_zero, List.take_zero]

/-- The records that can be read become rules behind those that are there, in their order and as far
as there is room. -/
theorem load_eq (e : Engine σ) (index : Nat) (ts : List RuleText) :
    (e.load index ts).value =
      (⟨((readable ts).take (e.maxRules - e.rules.length)).length,
        refused e.maxRules e.rules.length index ts⟩,
        { e with rules := e.rules ++ (readable ts).take (e.maxRules - e.rules.length) }) := by
  induction ts generalizing e index with
  | nil => simp [load, readable, refused]
  | cons t ts ih =>
    rcases e.addRule_cases t ts with ⟨r, hadd, hnone, htake⟩ | ⟨f, hadd, hsome, htake⟩
    · rw [load_cons_of_ok hadd, ih, htake, refused, hnone]
      simp
    · rw [load_cons_of_error hadd, ih, htake, refused, hsome]

end Engine

/-! What is found. -/
namespace Archive
variable [BlobStore S] {α : Type}

/-- The list that a reading gives, which is empty if nothing is stored. -/
def list? (f : Wire.Format (List α)) : Except StoreFault Wire.Bytes → Option (List α)
  | .ok bytes => f.decode bytes
  | .error .notFound => some []
  | .error _ => none

theorem load_cases (f : Wire.Format (List α)) (what : String) (s : S) (space key : String) :
    (∃ as, list? f (BlobStore.read s space key).value = some as ∧
      (load f what s space key).value = .ok as) ∨
    list? f (BlobStore.read s space key).value = none ∧
      ∃ e, (load f what s space key).value = .error e := by
  rw [load, Logged.value_bind]
  rcases (BlobStore.read s space key).value with e | bytes
  · cases e with
    | notFound => exact .inl ⟨[], rfl, rfl⟩
    | _ => exact .inr ⟨rfl, _, rfl⟩
  · dsimp only [list?]
    cases f.decode bytes with
    | some as => exact .inl ⟨as, rfl, rfl⟩
    | none => exact .inr ⟨rfl, _, rfl⟩

/-- The tags and the records that are stored for an owner. -/
structure Deposit where
  tags : List String
  records : List RuleText

/-- The deposit that two readings give. There is none if one of the lists cannot be had. -/
def Deposit.ofReadings? (tags rules : Except StoreFault Wire.Bytes) : Option Deposit :=
  match list? Wire.tags tags, list? Wire.rules rules with
  | some tags, some records => some ⟨tags, records⟩
  | _, _ => none

/-- The deposit in a space. -/
def deposit? (s : S) (space : String) : Option Deposit :=
  Deposit.ofReadings? (BlobStore.read s space tagsKey).value (BlobStore.read s space rulesKey).value

end Archive

open Archive (Deposit deposit?)

/-! What is made of it. -/
namespace Owner

/-- The owner with the tags and rules of a deposit: the tags are the stored ones trimmed, without
blank ones and repetitions, and the rules are those of the records that can be read, as far as
there is room. -/
def taking (o : Owner R) (d : Deposit) : Owner R :=
  { o with
    tags := ⟨((d.tags.map Text.trimmed).filter (· ≠ "")).eraseDups⟩
    engine := { o.engine with rules := (Engine.readable d.records).take o.engine.maxRules } }

/-- The owner when it has been restored. -/
def resumed (o : Owner R) : Option Deposit → Owner R
  | some d => o.taking d
  | none => o

/-- What is told of an owner that has been restored: how many rules it has, and which records were
refused. -/
def resumption (o : Owner R) : Option Deposit → PatchReport
  | some d => ⟨(o.taking d).engine.rules.length, Engine.refused o.engine.maxRules 0 0 d.records⟩
  | none => ⟨0, []⟩

theorem applyPatch_setTags (o : Owner R) (d : Deposit) :
    ((o.setTags d.tags).applyPatch ⟨.replace, d.records⟩).value =
      (o.resumption (some d), o.taking d) := by
  have hload := o.engine.clearRules.load_eq 0 d.records
  have htags : TagList.ofList d.tags = (o.taking d).tags :=
    congrArg TagList.mk (TagList.toList_ofList d.tags)
  simp only [applyPatch, Engine.applyPatch, Logged.value_bind, Logged.value_pure, setTags, hload,
    htags]
  rfl

/-- A deposit is taken over as a whole or not at all. -/
theorem restore_eq [BlobStore S] (o : Owner R) (s : S) (t : Target) :
    (o.restore s).value.2 = o.resumed (deposit? s o.space) ∧
      (Controller.restored t (o.restore s).value.1).value = o.resumption (deposit? s o.space) := by
  simp only [deposit?, Deposit.ofReadings?, restore, Logged.value_bind, Archive.loadTags]
  rcases Archive.load_cases Wire.tags "stored tags" s o.space Archive.tagsKey with
    ⟨tags, htags, hload⟩ | ⟨htags, e, hload⟩ <;> rw [htags, hload]
  · simp only [Archive.loadRules, Logged.value_bind]
    rcases Archive.load_cases Wire.rules "stored rules" s o.space Archive.rulesKey with
      ⟨records, hrecords, hload⟩ | ⟨hrecords, e, hload⟩ <;> rw [hrecords, hload]
    · simp only [Logged.value_bind, Logged.value_pure, applyPatch_setTags o ⟨tags, records⟩,
        Controller.restored, resumed, and_self]
    · exact ⟨rfl, rfl⟩
  · exact ⟨rfl, rfl⟩

/-- An owner that bears the name of its target. -/
def IsNamed (t : Target) {R : Type} (o : Owner R) : Prop := o.space = t.text

theorem isNamed_lasting : Owner.Lasting IsNamed :=
  .of_frame (fun _ h => h) (fun _ h => h) (fun _ _ h => h) fun _ h => h

end Owner

namespace Controller
variable [BlobStore S]

/-- The controller when it has been restored. -/
def resumed (c : Controller) (s : S) : Controller :=
  { c with
    unit := c.unit.resumed (deposit? s Target.unit.text)
    modules := c.modules.map fun m => m.resumed (deposit? s m.target.text) }

/-- What is told of a controller that has been restored. -/
def resumption (c : Controller) (s : S) : PatchReport :=
  (c.unit.resumption (deposit? s Target.unit.text)).append
    ((c.modules.map fun m => m.resumption (deposit? s m.target.text)).foldr .append ⟨0, []⟩)

theorem restoreModules_eq {ms : List Module} (h : ∀ m ∈ ms, m.IsNamed m.target) (s : S) :
    (restoreModules s ms).value =
      ((ms.map fun m => m.resumption (deposit? s m.target.text)).foldr .append ⟨0, []⟩,
        ms.map fun m => m.resumed (deposit? s m.target.text)) := by
  induction ms with
  | nil => rfl
  | cons m ms ih =>
    obtain ⟨howner, hreport⟩ := m.restore_eq s m.target
    have hname : m.space = m.target.text := h m (List.mem_cons_self ..)
    rw [hname] at howner hreport
    have hrest := ih fun m hm => h m (List.mem_cons_of_mem _ hm)
    simp only [restoreModules, Logged.value_bind, Logged.value_pure, howner, hreport, hrest]
    rfl

theorem restore_eq {c : Controller} (h : c.Every Owner.IsNamed) (s : S) :
    (c.restore s).value = (c.resumption s, c.resumed s) := by
  obtain ⟨hunit, hreport⟩ := c.unit.restore_eq s .unit
  have hname : c.unit.space = Target.unit.text := h.1
  rw [hname] at hunit hreport
  simp only [restore, Logged.value_bind, Logged.value_pure, hunit, hreport,
    restoreModules_eq h.2 s]
  rfl

theorem id_resumed (m : Module) (d : Option Deposit) : Module.id (m.resumed d) = m.id := by
  cases d <;> rfl

theorem module?_resumed (c : Controller) (s : S) (id : UInt8) :
    (c.resumed s).module? id =
      (c.module? id).map fun m => m.resumed (deposit? s (Target.module id).text) := by
  simp only [module?, resumed, List.find?_map, Function.comp_def, id_resumed]
  refine Option.map_congr fun m hm => ?_
  rw [Module.target, (mem_of_module?_eq_some hm).2]

/-- After restoring, an owner is what it has made of its own deposit. -/
theorem owns_resumed_iff {c : Controller} {s : S} {t : Target} {o' : Owner R} :
    (c.resumed s).Owns t o' ↔
      ∃ o : Owner R, c.Owns t o ∧ o' = o.resumed (deposit? s t.text) := by
  constructor
  · intro ho
    cases ho with
    | unit => exact ⟨c.unit, .unit, rfl⟩
    | module hm =>
      rw [module?_resumed] at hm
      obtain ⟨m, hfound, rfl⟩ := Option.map_eq_some_iff.mp hm
      exact ⟨m, .module hfound, rfl⟩
  · rintro ⟨o, ho, rfl⟩
    cases ho with
    | unit => exact .unit
    | module hm => exact .module ((module?_resumed c s _).trans (congrArg _ hm))

/-- What restoring does to a controller. -/
structure RestoresApart (c : Controller) (s : S) : Prop where
  /-- Each owner takes over its deposit or is left as it is, nothing else has changed, and what is
  told counts the deposits that were taken over. -/
  each : (c.restore s).value = (c.resumption s, c.resumed s)
  /-- What an owner becomes depends only on what is read under its own two keys. -/
  own {S' : Type} [BlobStore S'] {s' : S'} {t : Target}
    (hreads : ∀ key ∈ [Archive.tagsKey, Archive.rulesKey],
      (BlobStore.read s' t.text key).value = (BlobStore.read s t.text key).value)
    {R : Type} {o : Owner R} :
    (c.restore s').value.2.Owns t o ↔ (c.restore s).value.2.Owns t o

theorem restoresApart {c : Controller} (h : c.Every Owner.IsNamed) (s : S) :
    c.RestoresApart s where
  each := restore_eq h s
  own {S' _ s' t} hreads R o := by
    have hdeposit : deposit? s' t.text = deposit? s t.text := by
      rw [deposit?, deposit?, hreads _ (List.mem_cons_self ..),
        hreads _ (List.mem_cons_of_mem _ (List.mem_singleton_self _))]
    rw [restore_eq h, restore_eq h, owns_resumed_iff, owns_resumed_iff, hdeposit]

end Controller

namespace Site
variable [BlobStore S]

theorem every_isNamed_run (settings : Settings) (now : UInt64) (store : S) (steps : List (Step S)) :
    ((start settings now store).run steps).controller.Every Owner.IsNamed :=
  every_run Owner.isNamed_lasting rfl (fun _ _ => rfl) steps

/-- After any run and from any store, each owner takes over all that is stored for it if its two
lists can be had, and nothing otherwise, whatever is stored for the others. -/
theorem restoresApart_run (settings : Settings) (now : UInt64) (store : S)
    (steps : List (Step S)) {S' : Type} [BlobStore S'] (s : S') :
    ((start settings now store).run steps).controller.RestoresApart s :=
  Controller.restoresApart (every_isNamed_run settings now store steps) s

/-- The unit's tags are taken over in part and its second record is not. Of the module the tags
could be read, but not the rules. -/
example :
    let s : Store := Store.empty.putAll
      [⟨"unit", "tags", Wire.tags.write [" a", "", "a "]⟩,
        ⟨"unit", "rules", Wire.rules.write [Engine.restartText, ⟨0, "(", "RESTART"⟩]⟩,
        ⟨"mod1", "tags", Wire.tags.write ["b"]⟩, ⟨"mod1", "rules", [1, 2]⟩]
    let w := (start .initial 0 s).run [.addModule 1, .request (.setTags (.module 1) ["c"])]
    let c := (w.controller.restore s).value.2
    (w.controller.restore s).value.1 = ⟨1, [(1, .syntactic Token.unbalanced)]⟩ ∧
      c.unit.tags.toList = ["a"] ∧ c.unit.engine.sources = [Engine.restartText] ∧
      c.modules.map (·.tags.toList) = [["c"]] := by
  decide +kernel

end Site
end GridRules
