import GridRules.Controller.Request

/-! What each operation of a controller can do to it, said once. All that is not named here stays
as it was. -/
namespace GridRules.Controller
variable {S : Type}

/-! Ticks. -/

/-- The controller when a tick begins: it has been counted and the totals are fresh. -/
def begun (c : Controller) : Controller := refreshTotals { c with ticks := c.ticks + 1 }

/-- The controller of a tick when all owners have reasoned and nothing is sent out yet. -/
def reasoned (c : Controller) (now : UInt64) : Controller :=
  let (_, unit, outbox) := (c.begun.unit.reason now c.outbox).value
  let (_, modules, outbox) := (reasonModules now c.modules outbox).value
  { c.begun with unit := unit, modules := modules, outbox := outbox }

theorem dispatch_frame (c : Controller) (now : UInt64) :
    ∃ held holdUntil, (c.dispatch now).1 =
      { c with held := held, holdUntil := holdUntil, outbox := .empty } := by
  rw [dispatch]
  split
  · exact ⟨_, _, rfl⟩
  · exact ⟨_, _, rfl⟩

/-- Neither rules nor actions put a report off. -/
theorem isTelemetryDue_dispatch_reasoned (c : Controller) (now : UInt64) :
    ((c.reasoned now).dispatch now).1.isTelemetryDue now = c.isTelemetryDue now := by
  obtain ⟨held, holdUntil, hdispatch⟩ := (c.reasoned now).dispatch_frame now
  rw [hdispatch]
  rfl

theorem tick_frame (c : Controller) (now : UInt64) :
    ∃ held holdUntil, (c.tick now).value.1 =
      { c.reasoned now with
        held := held, holdUntil := holdUntil, outbox := .empty
        lastTelemetry := if c.isTelemetryDue now then now else c.lastTelemetry } := by
  obtain ⟨held, holdUntil, hdispatch⟩ := (c.reasoned now).dispatch_frame now
  have htick : (c.tick now).value.1 = (((c.reasoned now).dispatch now).1.reportTelemetry now).1 :=
    rfl
  refine ⟨held, holdUntil, ?_⟩
  rw [htick, reportTelemetry, isTelemetryDue_dispatch_reasoned, hdispatch]
  cases c.isTelemetryDue now <;> rfl

/-! Requests to one owner. -/

def hasOwner (c : Controller) : Target → Bool
  | .unit => true
  | .module id => (c.module? id).isSome

theorem withOwner_of_not_hasOwner {α : Type} {c : Controller} {t : Target}
    (h : c.hasOwner t = false) (f : {R : Type} → Owner R → Logged (α × Owner R)) :
    (c.withOwner t f).value = (none, c) := by
  cases t with
  | unit => cases h
  | module id =>
    have hnone : c.module? id = none := by simpa [hasOwner] using h
    simp [withOwner, hnone]

theorem withOwner_of_hasOwner {α : Type} {c : Controller} {t : Target} (h : c.hasOwner t)
    (f : {R : Type} → Owner R → Logged (α × Owner R)) :
    ∃ a, (c.withOwner t f).value.1 = some a := by
  cases t with
  | unit => exact ⟨_, rfl⟩
  | module id =>
    obtain ⟨m, hm⟩ := Option.isSome_iff_exists.mp h
    simp [withOwner, hm]

/-- Nothing but owners changes. -/
theorem withOwner_frame {α : Type} (c : Controller) (t : Target)
    (f : {R : Type} → Owner R → Logged (α × Owner R)) :
    ∃ unit modules, (c.withOwner t f).value.2 = { c with unit := unit, modules := modules } := by
  cases t with
  | unit => exact ⟨_, c.modules, rfl⟩
  | module id =>
    simp only [withOwner]
    split
    · exact ⟨c.unit, c.modules, rfl⟩
    · exact ⟨c.unit, _, rfl⟩

theorem markDirty_eq (c : Controller) : c.markDirty =
    { c with dirty := true, dirtySince := if c.dirty then c.dirtySince else c.ticks } := by
  rw [markDirty]
  cases hdirty : c.dirty with
  | false => rfl
  | true => exact (congrArg (fun d => { c with dirty := d }) hdirty.symm).symm

theorem updateRules_cases (c : Controller) (t : Target) (p : RulePatch) :
    (c.hasOwner t = false ∧ (c.updateRules t p).value = (c, [])) ∨
    c.hasOwner t ∧ ∃ report, (c.updateRules t p).value =
      ((c.withOwner t (·.applyPatch p)).value.2.markDirty, patchEvents t report) := by
  cases h : c.hasOwner t with
  | false => simp [updateRules, withOwner_of_not_hasOwner h]
  | true =>
    obtain ⟨report, hreport⟩ := withOwner_of_hasOwner h (·.applyPatch p)
    refine .inr ⟨rfl, report, ?_⟩
    rw [updateRules, Logged.value_bind]
    rcases hvalue : (c.withOwner t (·.applyPatch p)).value with ⟨_, c'⟩
    rw [hvalue] at hreport
    cases hreport
    rfl

theorem setTags_cases (c : Controller) (t : Target) (tags : List String) :
    (c.hasOwner t = false ∧ (c.setTags t tags).value = c) ∨
    c.hasOwner t ∧ (c.setTags t tags).value =
      (c.withOwner t fun o => pure ((), o.setTags tags)).value.2.markDirty := by
  cases h : c.hasOwner t with
  | false => simp [setTags, withOwner_of_not_hasOwner h]
  | true =>
    obtain ⟨u, hu⟩ := withOwner_of_hasOwner h fun o => pure ((), o.setTags tags)
    refine .inr ⟨rfl, ?_⟩
    rw [setTags, Logged.value_bind]
    rcases hvalue : (c.withOwner t fun o => pure ((), o.setTags tags)).value with ⟨_, c'⟩
    rw [hvalue] at hu
    cases hu
    rfl

/-- The controller of a request that runs commands, when they have run and nothing is sent out
yet. -/
def ranOn (c : Controller) (t : Target)
    (f : {R : Type} → Owner R → Outbox → Logged (Except Fault Bool × Outbox)) : Controller :=
  let (ran, c') := (c.withOwner t fun o => do return (← f o c.outbox, o)).value
  { c' with outbox := (ran.getD (.error (.config "no such target"), c'.outbox)).2 }

theorem runOn_frame (c : Controller) (now : UInt64) (t : Target)
    (f : {R : Type} → Owner R → Outbox → Logged (Except Fault Bool × Outbox)) :
    ∃ held holdUntil, (c.runOn now t f).value.1 =
      { c.ranOn t f with held := held, holdUntil := holdUntil, outbox := .empty } :=
  (c.ranOn t f).dispatch_frame now

/-! Saving. -/

theorem saveIf_frame [BlobStore S] (c : Controller) (due : Bool) (s : S) :
    (c.saveIf due s).value.2.1 = { c with dirty := c.dirty && !(c.saveIf due s).value.1 } := by
  rw [saveIf]
  split
  · simp only [Logged.value_bind, Logged.value_pure]
    cases (c.saveAll s).value.1 <;> simp
  · simp

end GridRules.Controller
