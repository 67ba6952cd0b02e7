import GridRules.Proofs.Interrupted

/-! When changes are saved by themselves. The delay runs from the first change that is not saved;
changes that follow it do not put the save off. -/
namespace GridRules
variable {S : Type} [BlobStore S]

/-- Whether so many ticks last as long as a change has to wait. -/
def Settings.outlasts (settings : Settings) (ticks : UInt64) : Bool :=
  !(ticks.toFloat32 * settings.tickSeconds < Controller.saveDelay)

namespace Site

/-- The ticks from one state of a site to another. -/
def ticksTo (w w' : Site S) : UInt64 :=
  UInt64.ofNat (w'.controller.ticks.toNat - w.controller.ticks.toNat)

/-- A change where everything is saved; of the steps that follow none saves everything by itself. -/
structure FirstUnsaved (w : Site S) (a : Step S) (after : List (Step S)) : Prop where
  clean : w.controller.dirty = false
  change : w.changes a
  unsaved : (w.step a).1.Never savesItself after

/-- A change that no other change follows. -/
structure LastChange (w : Site S) (a : Step S) (after : List (Step S)) : Prop where
  change : w.changes a
  last : (w.step a).1.Never changes after

variable {w : Site S} {a : Step S} {after : List (Step S)}

/-- The controller notes the tick of the first change that is not saved. -/
theorem FirstUnsaved.noted (h : w.FirstUnsaved a after) :
    ((w.step a).1.run after).controller.dirty ∧
      ((w.step a).1.run after).controller.dirtySince = w.controller.ticks := by
  obtain ⟨hclean, hchange, hunsaved⟩ := h
  induction after using List.reverseRecOn with
  | nil =>
    have hmarks := w.marks_step a
    rw [if_pos hchange] at hmarks
    refine ⟨congrArg Marks.dirty hmarks, (congrArg Marks.dirtySince hmarks).trans ?_⟩
    simp [Marks.changed, Controller.marks, hclean]
  | append_singleton after b ih =>
    obtain ⟨hfront, hb⟩ := never_concat.mp hunsaved
    obtain ⟨hdirty, hsince⟩ := ih hfront
    have hmarks := ((w.step a).1.run after).marks_step b
    rw [run_concat, ← hsince]
    refine ⟨?_, (congrArg Marks.dirtySince hmarks).trans ?_⟩
    · rw [dirty_step, hdirty]
      simp [hb]
    · split
      · simp [Marks.changed, Controller.marks, hdirty]
      · rfl

/-- A dirty controller has a first change that is not saved. -/
theorem exists_firstUnsaved (hclean : w.controller.dirty = false) {steps : List (Step S)}
    (hdirty : (w.run steps).controller.dirty) :
    ∃ before a after, steps = before ++ a :: after ∧ (w.run before).FirstUnsaved a after := by
  induction steps using List.reverseRecOn with
  | nil =>
    rw [run_nil, hclean] at hdirty
    cases hdirty
  | append_singleton steps b ih =>
    rw [run_concat, dirty_step] at hdirty
    cases hbefore : (w.run steps).controller.dirty with
    | false =>
      rw [hbefore, Bool.false_and, Bool.or_false] at hdirty
      exact ⟨steps, b, [], rfl, hbefore, hdirty, never_nil _ _⟩
    | true =>
      obtain ⟨before, a, after, rfl, hclean, hchange, hunsaved⟩ := ih hbefore
      have hb : ¬ (w.run (before ++ a :: after)).savesItself b := by
        rcases Bool.or_eq_true_iff.mp hdirty with hchanges | hkept
        · simp [savesItself_of_changes hchanges]
        · simpa [hbefore] using hkept
      rw [run_append, run_cons] at hb
      exact ⟨before, a, after ++ [b], by simp, hclean, hchange, never_concat.mpr ⟨hunsaved, hb⟩⟩

/-- As far as there are numbers for them, all ticks are counted. -/
theorem toNat_ticks_run (w : Site S) (steps : List (Step S)) :
    (w.run steps).controller.ticks.toNat =
      (w.controller.ticks.toNat + steps.countP Step.isTick) % UInt64.size := by
  induction steps using List.reverseRecOn with
  | nil => simp [Nat.mod_eq_of_lt w.controller.ticks.toNat_lt]
  | append_singleton steps a ih =>
    rw [run_concat, ticks_step, List.countP_append]
    cases htick : a.isTick with
    | false => simp [ih, htick]
    | true => simp [UInt64.toNat_add, ih, htick, Nat.add_assoc]

theorem toNat_ticksTo_run {w : Site S} {before after : List (Step S)}
    (h : w.controller.ticks.toNat + (before ++ after).countP Step.isTick < UInt64.size) :
    ((w.run before).ticksTo (w.run (before ++ after))).toNat = after.countP Step.isTick := by
  rw [ticksTo, toNat_ticks_run, toNat_ticks_run, Nat.mod_eq_of_lt h]
  rw [List.countP_append] at h ⊢
  rw [Nat.mod_eq_of_lt (by omega), UInt64.toNat_ofNat_of_lt' (by omega)]
  omega

/-- After any run the controller saves by itself exactly if the first change that is not saved has
waited long enough. -/
theorem tries_autoSave_iff (settings : Settings) (now : UInt64) (store : S)
    (steps : List (Step S)) :
    let w := start settings now store
    let v := w.run steps
    (v.tries .autoSave ↔ ∃ before a after, steps = before ++ a :: after ∧
      (w.run before).FirstUnsaved a after ∧
      v.controller.settings.outlasts ((w.run before).ticksTo v)) ∧
    (v.tries .autoSave → (v.step .autoSave).1.store = (v.controller.saveAll v.store).value.2) ∧
    (¬ v.tries .autoSave → v.step .autoSave = (v, [])) ∧
    ∀ before after, steps = before ++ after → steps.countP Step.isTick < UInt64.size →
      ((w.run before).ticksTo v).toNat = after.countP Step.isTick := by
  intro w v
  have htries : v.tries .autoSave ↔ v.controller.dirty ∧
      v.controller.settings.outlasts v.controller.ticksSinceDirty := by
    simp only [tries, Controller.isSaveDue, Bool.and_eq_true, Settings.outlasts]
  have hnoted {before a after} (hsteps : steps = before ++ a :: after)
      (hfirst : (w.run before).FirstUnsaved a after) :
      v.controller.dirty ∧ v.controller.ticksSinceDirty = (w.run before).ticksTo v := by
    have hv : v = ((w.run before).step a).1.run after := by
      rw [← run_cons, ← run_append, ← hsteps]
    obtain ⟨hdirty, hsince⟩ := hfirst.noted
    rw [← hv] at hdirty hsince
    exact ⟨hdirty, by rw [Controller.ticksSinceDirty, hsince, ticksTo]⟩
  refine ⟨?_, fun h => ?_, fun h => ?_, fun before after hsteps hcount => ?_⟩
  · rw [htries]
    constructor
    · rintro ⟨hdirty, hlong⟩
      obtain ⟨before, a, after, hsteps, hfirst⟩ := exists_firstUnsaved rfl hdirty
      exact ⟨before, a, after, hsteps, hfirst, (hnoted hsteps hfirst).2 ▸ hlong⟩
    · rintro ⟨before, a, after, hsteps, hfirst, hlong⟩
      obtain ⟨hdirty, hsince⟩ := hnoted hsteps hfirst
      exact ⟨hdirty, hsince ▸ hlong⟩
  · have hdue : v.controller.isSaveDue := h
    simp [step, Controller.autoSave, Controller.saveIf, hdue]
  · have hdue : v.controller.isSaveDue = false := Bool.eq_false_iff.mpr h
    simp [step, Controller.autoSave, Controller.saveIf, hdue]
  · rw [hsteps] at hcount
    have hzero : w.controller.ticks.toNat = 0 := rfl
    have hv : v = w.run (before ++ after) := congrArg w.run hsteps
    rw [hv, toNat_ticksTo_run (by omega)]

/-- Tags are set, and set again four ticks later. One tick after that they are saved. -/
theorem tries_autoSave_of_late_change :
    let w := (start .initial 0 Store.empty).run
      [.request (.setTags .unit ["a"]), .tick, .tick, .tick, .tick]
    let late : Step Store := .request (.setTags .unit ["b"])
    let v := (w.step late).1.run [.tick]
    w.LastChange late [.tick] ∧ v.tries .autoSave ∧
      ¬ v.controller.settings.outlasts (w.ticksTo v) := by
  intro w late v
  have hlast : (w.step late).1.Never changes ([] ++ [.tick]) :=
    never_concat.mpr ⟨never_nil _ _, by decide⟩
  exact ⟨⟨by decide +kernel, hlast⟩, by decide +kernel, by decide +kernel⟩

end Site
end GridRules
