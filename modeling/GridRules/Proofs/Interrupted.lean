import GridRules.Proofs.Blobs
import GridRules.Proofs.Dirty

/-! Saves that fail. What a save has stored when it fails is a front of the list of blobs: all that
come before the first one that is too large or that the store refuses. -/
namespace GridRules
variable {S : Type}

open Refusing (contents)

theorem Store.get?_putAll_cases (s : Store) (bs : List Blob) (place : String) :
    (s.putAll bs).blobs.get? place = s.blobs.get? place ∨
      ∃ b ∈ bs, b.place = place ∧ (s.putAll bs).blobs.get? place = some b.bytes := by
  induction bs generalizing s with
  | nil => exact .inl rfl
  | cons b bs ih =>
    rw [putAll_cons]
    rcases ih (s.put b) with hsame | ⟨b', hb', hplace, hbytes⟩
    · rw [hsame, get?_put]
      split
      · rename_i hplace
        exact .inr ⟨b, List.mem_cons_self .., hplace.symm, rfl⟩
      · exact .inl rfl
    · exact .inr ⟨b', List.mem_cons_of_mem _ hb', hplace, hbytes⟩

open Archive (Takes Refused)

theorem Controller.snd_saveAll [BlobStore S] (c : Controller) (s : S) :
    (c.saveAll s).value.2 = (c.persist s).value.2 := by
  rw [saveAll, Logged.value_bind]
  rcases (c.persist s).value with ⟨e | u, s'⟩ <;> rfl

theorem Controller.saveIf_of_failed [BlobStore S] {c : Controller} {due : Bool} {s : S} (hdue : due)
    (h : (c.saveIf due s).value.1 = false) :
    (c.saveAll s).value.1 = false ∧ (c.saveIf due s).value.2 = (c, (c.saveAll s).value.2) := by
  simp only [saveIf, hdue, if_true, Logged.value_bind, Logged.value_pure] at h ⊢
  simp [h]

namespace Site
variable [BlobStore S]

/-- Whether a step is to save everything. -/
def tries (w : Site S) : Step S → Bool
  | .request .saveRules => true
  | .autoSave => w.controller.isSaveDue
  | .forceSave => w.controller.dirty
  | _ => false

/-- A step that does not save what it is to save keeps the controller and tells nothing. -/
theorem step_of_not_saves {w : Site S} {a : Step S} (htries : w.tries a) (hfails : ¬ w.saves a) :
    (w.controller.saveAll w.store).value.1 = false ∧
      w.step a = ({ w with store := (w.controller.saveAll w.store).value.2 }, []) := by
  let after (x : Controller × S) : Site S × List Event := (⟨x.1, x.2, w.now⟩, [])
  cases a with
  | request q =>
    cases q with
    | saveRules =>
      have hfailed : (w.controller.saveAll w.store).value.1 = false := by
        simpa [saves] using hfails
      simp [step, Controller.handle, hfailed]
    | _ => cases htries
  | autoSave =>
    obtain ⟨hfailed, hsaved⟩ := Controller.saveIf_of_failed htries (Bool.eq_false_iff.mpr hfails)
    exact ⟨hfailed, congrArg after hsaved⟩
  | forceSave =>
    obtain ⟨hfailed, hsaved⟩ := Controller.saveIf_of_failed htries (Bool.eq_false_iff.mpr hfails)
    exact ⟨hfailed, congrArg after hsaved⟩
  | _ => cases htries

/-- What a step leaves that was interrupted when it came to blob `b`. -/
structure Interrupted [Refusing S] (w : Site S) (a : Step S) (front : List Blob) (b : Blob)
    (back : List Blob) : Prop where
  blobs : w.controller.blobs = front ++ b :: back
  /-- The blob is the first one that is refused. -/
  refused : ∃ s', Takes w.store front s' ∧ Refused s' b
  store : contents (w.step a).1.store = (contents w.store).putAll front
  /-- Under each name lies what lay there before, or a blob of the front as a whole. -/
  whole (place : String) :
    (contents (w.step a).1.store).blobs.get? place = (contents w.store).blobs.get? place ∨
      ∃ b ∈ front, b.place = place ∧
        (contents (w.step a).1.store).blobs.get? place = some b.bytes
  controller : (w.step a).1.controller = w.controller
  /-- In particular it is not told that the rules are saved. -/
  silent : (w.step a).2 = []

/-- A step that does not save what it is to save has stored the blobs before the first one that is
refused, and nothing else has changed. -/
theorem exists_interrupted [Refusing S] {w : Site S} {a : Step S} (htries : w.tries a)
    (hfails : ¬ w.saves a) : ∃ front b back, w.Interrupted a front b back := by
  obtain ⟨hfailed, hstep⟩ := step_of_not_saves htries hfails
  have hstore : (w.step a).1.store = (Archive.saveEach w.store w.controller.blobs).2 := by
    rw [hstep, Archive.saveEach_blobs]
    exact w.controller.snd_saveAll w.store
  rcases Archive.saveEach_cases w.store w.controller.blobs with
    ⟨s', -, heq⟩ | ⟨front, b, back, s', hblobs, htakes, hrefused, -, hcontents⟩
  · rw [Archive.saveEach_blobs] at heq
    simp [Controller.saveAll, heq] at hfailed
  · rw [← hstore] at hcontents
    refine ⟨front, b, back, hblobs, ⟨s', htakes, hrefused⟩, hcontents, fun place => ?_, ?_, ?_⟩
    · rw [hcontents]
      exact (contents w.store).get?_putAll_cases front place
    · rw [hstep]
    · rw [hstep]

/-- The third of four writes fails: the unit's rule and its tag are stored, and the module's rule,
which would come next, is not. -/
theorem exists_interrupted_of_two :
    let store : FaultyStore := ⟨Store.empty, none, some .full, 2, 0⟩
    let rule : RuleText := ⟨1, "GRID", "NOTIFY(\"up\")"⟩
    let w := (start .initial 0 store).run [.addModule 1,
      .request (.updateRules .unit ⟨.replace, [rule]⟩), .request (.setTags .unit ["peak"]),
      .request (.updateRules (.module 1) ⟨.replace, [rule]⟩)]
    let stored := contents (w.step .forceSave).1.store
    (w.tries .forceSave ∧ ¬ w.saves .forceSave) ∧
      (∃ front b back, w.Interrupted .forceSave front b back) ∧
      (Archive.loadRules stored "unit").value = .ok [rule] ∧
      (Archive.loadTags stored "unit").value = .ok ["peak"] ∧
      (w.controller.module? 1).map (·.engine.sources) = some [rule] ∧
      stored.blobs.get? (Store.place "mod1" Archive.rulesKey) = none := by
  intro store rule w stored
  have htries : w.tries .forceSave := by decide +kernel
  have hfails : ¬ w.saves .forceSave := by decide +kernel
  have hrules : (Archive.loadRules stored "unit").value = .ok [rule] := by decide +kernel
  have htags : (Archive.loadTags stored "unit").value = .ok ["peak"] := by decide +kernel
  have hmodule : (w.controller.module? 1).map (·.engine.sources) = some [rule] := by decide +kernel
  have hmissing : stored.blobs.get? (Store.place "mod1" Archive.rulesKey) = none := by
    decide +kernel
  exact ⟨⟨htries, hfails⟩, exists_interrupted htries hfails, hrules, htags, hmodule, hmissing⟩

end Site
end GridRules
