import GridRules.Proofs.Site
import Mathlib.Data.List.Induction

/-! Unsaved changes. The controller is dirty exactly if rules or tags have changed since the last
time that it saved everything by itself; a request to save leaves it as dirty as it was. -/
namespace GridRules
variable {S : Type}

/-- What a controller notes of its ticks, reports and changes. -/
structure Marks where
  ticks : UInt64
  lastTelemetry : UInt64
  dirty : Bool
  dirtySince : UInt64

/-- The marks after a change. -/
def Marks.changed (m : Marks) : Marks :=
  { m with dirty := true, dirtySince := if m.dirty then m.dirtySince else m.ticks }

namespace Controller

def marks (c : Controller) : Marks := ⟨c.ticks, c.lastTelemetry, c.dirty, c.dirtySince⟩

theorem marks_withOwner {α : Type} (c : Controller) (t : Target)
    (f : {R : Type} → Owner R → Logged (α × Owner R)) :
    (c.withOwner t f).value.2.marks = c.marks := by
  obtain ⟨unit, modules, heq⟩ := c.withOwner_frame t f
  rw [heq]
  rfl

theorem marks_markDirty (c : Controller) : c.markDirty.marks = c.marks.changed := by
  rw [markDirty_eq]
  rfl

theorem marks_updateRules (c : Controller) (t : Target) (p : RulePatch) :
    (c.updateRules t p).value.1.marks = if c.hasOwner t then c.marks.changed else c.marks := by
  rcases c.updateRules_cases t p with ⟨howner, heq⟩ | ⟨howner, report, heq⟩ <;> rw [heq, howner]
  · rfl
  · rw [marks_markDirty, marks_withOwner, if_pos rfl]

theorem marks_setTags (c : Controller) (t : Target) (tags : List String) :
    (c.setTags t tags).value.marks = if c.hasOwner t then c.marks.changed else c.marks := by
  rcases c.setTags_cases t tags with ⟨howner, heq⟩ | ⟨howner, heq⟩ <;> rw [heq, howner]
  · rfl
  · rw [marks_markDirty, marks_withOwner, if_pos rfl]

theorem dirty_updateRules (c : Controller) (t : Target) (p : RulePatch) :
    (c.updateRules t p).value.1.dirty = (c.hasOwner t || c.dirty) := by
  refine (congrArg Marks.dirty (c.marks_updateRules t p)).trans ?_
  cases c.hasOwner t <;> rfl

theorem marks_tick (c : Controller) (now : UInt64) :
    (c.tick now).value.1.marks =
      { c.marks with
        ticks := c.ticks + 1
        lastTelemetry := if c.isTelemetryDue now then now else c.lastTelemetry } := by
  obtain ⟨held, holdUntil, heq⟩ := c.tick_frame now
  rw [heq]
  rfl

theorem marks_runOn (c : Controller) (now : UInt64) (t : Target)
    (f : {R : Type} → Owner R → Outbox → Logged (Except Fault Bool × Outbox)) :
    (c.runOn now t f).value.1.marks = c.marks := by
  obtain ⟨held, holdUntil, heq⟩ := c.runOn_frame now t f
  rw [heq]
  exact c.marks_withOwner t _

/-- A save that was made of the controller's own accord leaves nothing unsaved if it was complete,
and all as it was if it was not. -/
theorem marks_saveIf [BlobStore S] (c : Controller) (due : Bool) (s : S) :
    (c.saveIf due s).value.2.1.marks =
      { c.marks with dirty := c.dirty && !(c.saveIf due s).value.1 } :=
  congrArg marks (c.saveIf_frame due s)

end Controller

def Step.isTick : Step S → Bool
  | .tick => true
  | _ => false

namespace Site
variable [BlobStore S]

/-- Whether a step is a change that has to be saved: rules or tags for an owner that is there, or
the word that something has changed. -/
def changes (w : Site S) : Step S → Bool
  | .request (.updateRules t _) | .request (.setTags t _) => w.controller.hasOwner t
  | .markDirty => true
  | _ => false

/-- Whether the controller saves everything of its own accord. -/
def savesItself (w : Site S) : Step S → Bool
  | .autoSave => (w.controller.autoSave w.store).value.1
  | .forceSave => (w.controller.forceSave w.store).value.1
  | _ => false

/-- Whether everything is saved, also at a request. -/
def saves (w : Site S) : Step S → Bool
  | .request .saveRules => (w.controller.saveAll w.store).value.1
  | a => w.savesItself a

theorem saves_of_savesItself {w : Site S} {a : Step S} (h : w.savesItself a) : w.saves a := by
  cases a with
  | request q => cases h
  | _ => exact h

/-- A change has happened, and since then no step has saved everything. -/
def HasUnsaved (saved : Site S → Step S → Bool) (w : Site S) (steps : List (Step S)) : Prop :=
  ∃ before a after, steps = before ++ a :: after ∧ (w.run before).changes a ∧
    ∀ first b rest, after = first ++ b :: rest → ¬ saved (w.run (before ++ a :: first)) b

theorem hasUnsaved_iff {saved : Site S → Step S → Bool} {w : Site S} {steps : List (Step S)} :
    HasUnsaved saved w steps ↔ ∃ before a after, steps = before ++ a :: after ∧
      (w.run before).changes a ∧ ((w.run before).step a).1.Never saved after := by
  simp only [HasUnsaved, Never, run_append, run_cons]

theorem hasUnsaved_concat (saved : Site S → Step S → Bool) (w : Site S) (steps : List (Step S))
    (a : Step S) :
    HasUnsaved saved w (steps ++ [a]) ↔
      (w.run steps).changes a ∨ HasUnsaved saved w steps ∧ ¬ saved (w.run steps) a := by
  rw [hasUnsaved_iff, hasUnsaved_iff]
  constructor
  · rintro ⟨before, x, after, hsteps, hchange, hsaved⟩
    rcases List.eq_nil_or_concat after with rfl | ⟨after, y, rfl⟩
    · obtain ⟨rfl, hx⟩ := List.append_inj' hsteps rfl
      cases hx
      exact .inl hchange
    · rw [List.concat_eq_append] at hsteps hsaved
      rw [← List.cons_append, ← List.append_assoc] at hsteps
      obtain ⟨rfl, hy⟩ := List.append_inj' hsteps rfl
      cases hy
      obtain ⟨hfront, hlast⟩ := never_concat.mp hsaved
      rw [run_append, run_cons]
      exact .inr ⟨⟨before, x, after, rfl, hchange, hfront⟩, hlast⟩
  · rintro (hchange | ⟨⟨before, x, after, rfl, hchange, hsaved⟩, hlast⟩)
    · exact ⟨steps, a, [], rfl, hchange, never_nil _ _⟩
    · rw [run_append, run_cons] at hlast
      exact ⟨before, x, after ++ [a], by simp, hchange, never_concat.mpr ⟨hsaved, hlast⟩⟩

theorem savesItself_of_changes {w : Site S} {a : Step S} (h : w.changes a) :
    w.savesItself a = false := by
  cases a with
  | autoSave => cases h
  | forceSave => cases h
  | _ => rfl

/-- What a step does to the marks. A tick counts itself and notes the time if it reports; a change
notes the tick, unless there is an earlier one that is not saved. -/
theorem marks_step (w : Site S) (a : Step S) :
    (w.step a).1.controller.marks =
      if w.changes a then w.controller.marks.changed
      else
        { ticks := if a.isTick then w.controller.ticks + 1 else w.controller.ticks
          lastTelemetry :=
            if a.isTick && w.controller.isTelemetryDue w.now then w.now
            else w.controller.lastTelemetry
          dirty := w.controller.dirty && !w.savesItself a
          dirtySince := w.controller.dirtySince } := by
  have hsame : w.controller.marks = { w.controller.marks with
      dirty := w.controller.dirty && !false } := by simp [Controller.marks]
  cases a with
  | addModule id =>
    refine Eq.trans ?_ hsame
    rcases w.controller.withModule_cases id with heq | ⟨-, heq⟩
    · exact congrArg Controller.marks heq
    · exact (congrArg Controller.marks heq).trans rfl
  | restore => exact hsame
  | tick =>
    refine (w.controller.marks_tick w.now).trans ?_
    simp [changes, savesItself, Step.isTick, Controller.marks]
  | request q =>
    cases q with
    | updateRules t p =>
      refine (w.controller.marks_updateRules t p).trans ?_
      rw [hsame]
      rfl
    | setTags t tags =>
      refine (w.controller.marks_setTags t tags).trans ?_
      rw [hsame]
      rfl
    | execute t command => exact (w.controller.marks_runOn w.now t _).trans hsame
    | executeIf t expression command => exact (w.controller.marks_runOn w.now t _).trans hsame
    | reading id power isOn =>
      refine Eq.trans ?_ hsame
      simp only [step, Controller.handle]
      split <;> rfl
    | offline id => exact hsame
    | gridChanged up => exact hsame
    | updateSettings settings =>
      refine Eq.trans ?_ hsame
      simp only [step, Controller.handle]
      split <;> rfl
    | saveRules => exact hsame
  | markDirty => exact w.controller.marks_markDirty
  | autoSave => exact w.controller.marks_saveIf _ w.store
  | forceSave => exact w.controller.marks_saveIf _ w.store
  | clock now => exact hsame
  | outside change => exact hsame

omit [BlobStore S] in
theorem isTick_of_changes {w : Site S} {a : Step S} (h : w.changes a) : a.isTick = false := by
  cases a with
  | tick => cases h
  | _ => rfl

theorem ticks_step (w : Site S) (a : Step S) :
    (w.step a).1.controller.ticks =
      if a.isTick then w.controller.ticks + 1 else w.controller.ticks := by
  refine (congrArg Marks.ticks (w.marks_step a)).trans ?_
  split
  · rename_i hchange
    rw [isTick_of_changes hchange]
    rfl
  · rfl

theorem lastTelemetry_step (w : Site S) (a : Step S) :
    (w.step a).1.controller.lastTelemetry =
      if a.isTick && w.controller.isTelemetryDue w.now then w.now
      else w.controller.lastTelemetry := by
  refine (congrArg Marks.lastTelemetry (w.marks_step a)).trans ?_
  split
  · rename_i hchange
    rw [isTick_of_changes hchange]
    rfl
  · rfl

theorem dirty_step (w : Site S) (a : Step S) :
    (w.step a).1.controller.dirty =
      (w.changes a || (w.controller.dirty && !w.savesItself a)) := by
  refine (congrArg Marks.dirty (w.marks_step a)).trans ?_
  cases w.changes a <;> rfl

/-- The controller is dirty exactly if a change has come after its last own complete save. -/
theorem dirty_iff_hasUnsaved (settings : Settings) (now : UInt64) (store : S)
    (steps : List (Step S)) :
    let w := start settings now store
    (w.run steps).controller.dirty ↔ HasUnsaved savesItself w steps := by
  intro w
  induction steps using List.reverseRecOn with
  | nil => simp [HasUnsaved, w, start, Controller.new]
  | append_singleton steps a ih =>
    rw [run_concat, dirty_step, hasUnsaved_concat, ← ih]
    simp

/-- Tags are set and everything is saved at a request: the controller is still dirty, though
nothing is unsaved. -/
theorem dirty_after_saveRules :
    let w := start .initial 0 Store.empty
    let steps : List (Step Store) := [.request (.setTags .unit ["a"]), .request .saveRules]
    (w.run steps).controller.dirty ∧ ¬ HasUnsaved saves w steps := by
  intro w steps
  have hsaved : (w.run [.request (.setTags .unit ["a"])]).saves (.request .saveRules) := by
    decide +kernel
  refine ⟨by decide +kernel, fun h => ?_⟩
  rcases (hasUnsaved_concat saves w [.request (.setTags .unit ["a"])] _).mp h with h | ⟨-, h⟩
  · exact absurd h (by decide)
  · exact h hsaved

end Site
end GridRules
