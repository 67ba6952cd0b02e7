import GridRules.Proofs.Pushes
import Mathlib.Data.List.Induction

/-! The ledger of a site: the actions that the outbox took and those that were told, each with the
time on the clock. What was told and what is still held are together what the outbox took, in the
same order and without the delays. -/
namespace GridRules
variable {S : Type}

def Action.isDelay : Action → Bool
  | .delay _ => true
  | _ => false

namespace Event

def action? : Event → Option Action
  | .action a => some a
  | _ => none

def actions (events : List Event) : List Action := events.filterMap action?

@[simp] theorem actions_nil : actions [] = [] := rfl

@[simp] theorem actions_append (first second : List Event) :
    actions (first ++ second) = actions first ++ actions second := List.filterMap_append

@[simp] theorem actions_map_action (as : List Action) : actions (as.map .action) = as := by
  simp [actions, Function.comp_def, action?]

end Event

namespace Controller

/-- The part of a controller that actions pass through. -/
def flow (c : Controller) : List Action × Option UInt64 × Outbox := (c.held, c.holdUntil, c.outbox)

/-- The controller after some pushes. -/
def loaded (c : Controller) (as : List Action) : Controller :=
  { c with outbox := ⟨c.outbox.pending ++ as⟩ }

theorem dispatch_congr {c d : Controller} (h : c.flow = d.flow) (now : UInt64) :
    (c.dispatch now).1.flow = (d.dispatch now).1.flow ∧ (c.dispatch now).2 = (d.dispatch now).2 := by
  simp only [flow, Prod.mk.injEq] at h
  obtain ⟨hheld, huntil, houtbox⟩ := h
  have hholding : c.isHolding now = d.isHolding now := by simp only [isHolding, huntil]
  simp only [dispatch, hholding, hheld, houtbox]
  split <;> simp [flow, huntil]

theorem flow_withOwner {α : Type} (c : Controller) (t : Target)
    (f : {R : Type} → Owner R → Logged (α × Owner R)) :
    (c.withOwner t f).value.2.flow = c.flow := by
  obtain ⟨unit, modules, heq⟩ := c.withOwner_frame t f
  rw [heq]
  rfl

theorem flow_markDirty (c : Controller) : c.markDirty.flow = c.flow := by
  rw [markDirty_eq]
  rfl

theorem flow_saveIf [BlobStore S] (c : Controller) (due : Bool) (s : S) :
    (c.saveIf due s).value.2.1.flow = c.flow := by
  rw [saveIf_frame]
  rfl

theorem flow_reportTelemetry (c : Controller) (now : UInt64) :
    (c.reportTelemetry now).1.flow = c.flow ∧ Event.actions (c.reportTelemetry now).2 = [] := by
  rw [reportTelemetry]
  split <;> exact ⟨rfl, rfl⟩

theorem actions_tickEvents (t : Target) (r : TickReport) : Event.actions (tickEvents t r) = [] := by
  rw [tickEvents]
  split <;> rfl

theorem actions_reasonModules (now : UInt64) (ms : List Module) (outbox : Outbox) :
    Event.actions (reasonModules now ms outbox).value.1 = [] := by
  induction ms generalizing outbox with
  | nil => rfl
  | cons m ms ih =>
    simp only [reasonModules, Logged.value_bind, Logged.value_pure, Event.actions_append,
      actions_tickEvents, ih, List.nil_append]

theorem actions_patchEvents (t : Target) (r : PatchReport) :
    Event.actions (patchEvents t r) = [] := by
  simp [patchEvents, Event.actions, Event.action?]

theorem flow_reasoned {c : Controller} (h : c.Every Owner.IsStandard) (now : UInt64) :
    (c.reasoned now).flow = (c.loaded (c.tickPushes now)).flow := by
  have hunit : c.begun.unit.IsStandard .unit := h.1
  have hpending : (c.reasoned now).outbox.pending = c.outbox.pending ++ c.tickPushes now := by
    simp only [reasoned, tickPushes]
    rw [pending_reasonModules h.2, hunit.pending_reason, List.append_assoc]
  simp only [flow, loaded, ← hpending]
  rfl

theorem tick_flow {c : Controller} (h : c.Every Owner.IsStandard) (now : UInt64) :
    let d := (c.loaded (c.tickPushes now)).dispatch now
    (c.tick now).value.1.flow = d.1.flow ∧ Event.actions (c.tick now).value.2 = Event.actions d.2 := by
  intro d
  obtain ⟨hflow, hevents⟩ := dispatch_congr (flow_reasoned h now) now
  obtain ⟨htelemetry, hnone⟩ := flow_reportTelemetry ((c.reasoned now).dispatch now).1 now
  refine ⟨htelemetry.trans hflow, ?_⟩
  have hactions : Event.actions (c.tick now).value.2 =
      Event.actions ((c.reasoned now).dispatch now).2 ++
        Event.actions (((c.reasoned now).dispatch now).1.reportTelemetry now).2 := by
    simp only [tick, Logged.value_bind, Logged.value_pure, Event.actions_append,
      actions_tickEvents, actions_reasonModules, List.nil_append]
    rfl
  rw [hactions, hnone, List.append_nil, hevents]

variable {now : UInt64} (f : {R : Type} → Owner R → Outbox → Logged (Except Fault Bool × Outbox))
  (commands : {R : Type} → Owner R → Host R → List Command)

theorem pending_ranOn {c : Controller} (h : c.Every Owner.IsStandard) (t : Target)
    (hf : ∀ {t : Target} {R : Type} (o : Owner R), o.IsStandard t →
      (f o c.outbox).value.2.pending =
        c.outbox.pending ++ o.pushes t (o.host now c.outbox) (commands o (o.host now c.outbox))) :
    (c.ranOn t f).outbox.pending = c.outbox.pending ++ c.ownerPushes now t commands := by
  cases t with
  | unit => exact hf c.unit h.1
  | module id =>
    simp only [ranOn, withOwner, ownerPushes]
    cases hm : c.module? id with
    | none => simp
    | some m =>
      obtain ⟨hmem, rfl⟩ := mem_of_module?_eq_some hm
      exact hf m (h.2 m hmem)

theorem runOn_flow {c : Controller} (h : c.Every Owner.IsStandard) (t : Target)
    (hf : ∀ {t : Target} {R : Type} (o : Owner R), o.IsStandard t →
      (f o c.outbox).value.2.pending =
        c.outbox.pending ++ o.pushes t (o.host now c.outbox) (commands o (o.host now c.outbox))) :
    let d := (c.loaded (c.ownerPushes now t commands)).dispatch now
    (c.runOn now t f).value.1.flow = d.1.flow ∧
      Event.actions (c.runOn now t f).value.2 = Event.actions d.2 := by
  have hkept := c.flow_withOwner t fun o => do return (← f o c.outbox, o)
  have hflow : (c.ranOn t f).flow = (c.loaded (c.ownerPushes now t commands)).flow := by
    simp only [flow, Prod.mk.injEq] at hkept
    simp only [flow, loaded, ← pending_ranOn f commands h t hf, Prod.mk.injEq]
    exact ⟨hkept.1, hkept.2.1, trivial⟩
  obtain ⟨hd, hevents⟩ := dispatch_congr hflow now
  refine ⟨hd, ?_⟩
  rw [← hevents]
  rfl

theorem flow_updateRules (c : Controller) (t : Target) (p : RulePatch) :
    (c.updateRules t p).value.1.flow = c.flow ∧ Event.actions (c.updateRules t p).value.2 = [] := by
  rcases c.updateRules_cases t p with ⟨-, heq⟩ | ⟨-, report, heq⟩ <;> rw [heq]
  · exact ⟨rfl, rfl⟩
  · exact ⟨(flow_markDirty _).trans (c.flow_withOwner t _), actions_patchEvents ..⟩

theorem flow_setTags (c : Controller) (t : Target) (tags : List String) :
    (c.setTags t tags).value.flow = c.flow := by
  rcases c.setTags_cases t tags with ⟨-, heq⟩ | ⟨-, heq⟩ <;> rw [heq]
  exact (flow_markDirty _).trans (c.flow_withOwner t _)

end Controller

namespace Site
variable [BlobStore S]

/-- The actions that the outbox takes in a step. -/
def pushes (w : Site S) : Step S → List Action
  | .tick => w.controller.tickPushes w.now
  | .request q => w.controller.requestPushes w.now q
  | _ => []

/-- The actions that the outbox has taken, with the times. -/
def accepted : Site S → List (Step S) → List (UInt64 × Action) :=
  trace fun w a => (w.pushes a).map (w.now, ·)

/-- The actions that were told, with the times. -/
def emitted : Site S → List (Step S) → List (UInt64 × Action) :=
  trace fun w a => (Event.actions (w.step a).2).map (w.now, ·)

/-- A step lets actions alone, or it pushes some and then sends out what may go. -/
theorem step_flow {w : Site S} (h : w.controller.Every Owner.IsStandard) (a : Step S) :
    (w.pushes a = [] ∧ (w.step a).1.controller.flow = w.controller.flow ∧
      Event.actions (w.step a).2 = []) ∨
    (let d := (w.controller.loaded (w.pushes a)).dispatch w.now
     (w.step a).1.now = w.now ∧ (w.step a).1.controller.flow = d.1.flow ∧
      Event.actions (w.step a).2 = Event.actions d.2) := by
  cases a with
  | addModule id =>
    refine .inl ⟨rfl, ?_, rfl⟩
    rcases w.controller.withModule_cases id with heq | ⟨-, heq⟩ <;> simp only [step, heq]; rfl
  | restore => exact .inl ⟨rfl, rfl, rfl⟩
  | tick => exact .inr ⟨rfl, Controller.tick_flow h w.now⟩
  | request q =>
    cases q with
    | updateRules t p => exact .inl ⟨rfl, w.controller.flow_updateRules t p⟩
    | setTags t tags => exact .inl ⟨rfl, w.controller.flow_setTags t tags, rfl⟩
    | execute t command =>
      exact .inr ⟨rfl, Controller.runOn_flow (fun o outbox => o.execute command w.now outbox)
        (fun _ _ => Engine.textCommands command) h t fun _ ho => ho.pending_execute command w.now _⟩
    | executeIf t expression command =>
      exact .inr ⟨rfl, Controller.runOn_flow
        (fun o outbox => o.executeIf expression command w.now outbox)
        (fun o h => o.engine.guardedCommands expression command h) h t
        fun _ ho => ho.pending_executeIf expression command w.now _⟩
    | reading id power isOn =>
      refine .inl ⟨rfl, ?_, ?_⟩ <;> simp only [step, Controller.handle] <;> split <;> rfl
    | offline id => exact .inl ⟨rfl, rfl, rfl⟩
    | gridChanged up => exact .inl ⟨rfl, rfl, rfl⟩
    | updateSettings settings =>
      refine .inl ⟨rfl, ?_, ?_⟩ <;> simp only [step, Controller.handle] <;> split <;> rfl
    | saveRules =>
      refine .inl ⟨rfl, rfl, ?_⟩
      simp only [step, Controller.handle, Logged.value_bind, Logged.value_pure]
      split <;> rfl
  | markDirty => exact .inl ⟨rfl, w.controller.flow_markDirty, rfl⟩
  | autoSave => exact .inl ⟨rfl, w.controller.flow_saveIf .., rfl⟩
  | forceSave => exact .inl ⟨rfl, w.controller.flow_saveIf .., rfl⟩
  | clock now => exact .inl ⟨rfl, rfl, rfl⟩
  | outside change => exact .inl ⟨rfl, rfl, rfl⟩

theorem isStandard_run (settings : Settings) (now : UInt64) (store : S) (steps : List (Step S)) :
    ((start settings now store).run steps).controller.Every Owner.IsStandard :=
  every_run Owner.isStandard_lasting rfl (fun _ _ => rfl) steps

end Site

namespace Controller

/-- What is released and what stays behind are what was waiting; a delay is not released. -/
theorem release_append_held (now : UInt64) (waiting : List Action) :
    let (out, held, _) := release now waiting
    out ++ held.filter (!·.isDelay) = waiting.filter (!·.isDelay) ∧ ∀ a ∈ out, !a.isDelay := by
  induction waiting with
  | nil => simp [release]
  | cons a rest ih =>
    cases a with
    | delay seconds =>
      by_cases hs : seconds = 0
      · simpa [release, hs, Action.isDelay] using ih
      · simp [release, hs, Action.isDelay]
    | switch module on => simpa [release, Action.isDelay] using ih
    | notify message => simpa [release, Action.isDelay] using ih
    | restart => simpa [release, Action.isDelay] using ih

/-- The same of all that is held and pending when actions are sent out. -/
theorem dispatch_append_held (c : Controller) (now : UInt64) :
    Event.actions (c.dispatch now).2 ++ (c.dispatch now).1.held.filter (!·.isDelay) =
        (c.held ++ c.outbox.pending).filter (!·.isDelay) ∧
      (∀ a ∈ Event.actions (c.dispatch now).2, !a.isDelay) ∧
      (c.dispatch now).1.outbox.pending = [] := by
  have hrelease := release_append_held now (c.held ++ c.outbox.pending)
  by_cases hholding : c.isHolding now
  · simp [dispatch, hholding, Outbox.empty]
  · simpa [dispatch, hholding, Outbox.empty] using hrelease

end Controller

namespace Site
variable [BlobStore S]

/-- What one step tells and leaves held is what was held and what the step has pushed. -/
theorem step_append_held {w : Site S} (h : w.controller.Every Owner.IsStandard)
    (hempty : w.controller.outbox.pending = []) (a : Step S) :
    Event.actions (w.step a).2 ++ (w.step a).1.controller.held.filter (!·.isDelay) =
        w.controller.held.filter (!·.isDelay) ++ (w.pushes a).filter (!·.isDelay) ∧
      (∀ x ∈ Event.actions (w.step a).2, !x.isDelay) ∧
      (w.step a).1.controller.outbox.pending = [] := by
  rcases step_flow h a with ⟨hpushes, hflow, hevents⟩ | ⟨-, hflow, hevents⟩ <;>
    simp only [Controller.flow, Prod.mk.injEq] at hflow
  · simp [hpushes, hevents, hflow, hempty]
  · have hmoved := (w.controller.loaded (w.pushes a)).dispatch_append_held w.now
    rw [hevents, hflow.1, hflow.2.2, ← List.filter_append]
    simpa only [Controller.loaded, hempty, List.nil_append] using hmoved

/-- Between two steps the outbox is empty. -/
theorem pending_run (settings : Settings) (now : UInt64) (store : S) (steps : List (Step S)) :
    ((start settings now store).run steps).controller.outbox.pending = [] := by
  have hstandard := isStandard_run settings now store
  induction steps using List.reverseRecOn with
  | nil => rfl
  | append_singleton steps a ih =>
    rw [run_concat]
    exact (step_append_held (hstandard steps) ih a).2.2

/-- No action is lost, told twice or out of turn, and no delay is told. -/
theorem emitted_append_held (settings : Settings) (now : UInt64) (store : S)
    (steps : List (Step S)) :
    let w := start settings now store
    (w.emitted steps).map (·.2) ++ (w.run steps).controller.held.filter (!·.isDelay) =
        ((w.accepted steps).map (·.2)).filter (!·.isDelay) ∧
      (w.run steps).controller.outbox.pending = [] ∧
      ∀ seconds, Action.delay seconds ∉ (w.emitted steps).map (·.2) := by
  intro w
  have hstandard := isStandard_run settings now store
  have hempty := pending_run settings now store
  induction steps using List.reverseRecOn with
  | nil => simp [emitted, accepted, trace, w, start, Controller.new, Outbox.empty]
  | append_singleton steps a ih =>
    obtain ⟨htold, -, hnone⟩ := ih
    obtain ⟨hmoved, htells, -⟩ := step_append_held (hstandard steps) (hempty steps) a
    have haccepted : w.accepted (steps ++ [a]) = w.accepted steps ++ _ := trace_concat _ w steps a
    have hemitted : w.emitted (steps ++ [a]) = w.emitted steps ++ _ := trace_concat _ w steps a
    simp only [haccepted, hemitted, run_concat, List.map_append, List.map_map, Function.comp_def,
      List.map_id', List.filter_append]
    refine ⟨?_, run_concat w steps a ▸ hempty _, fun seconds hdelay => ?_⟩
    · rw [List.append_assoc, hmoved, ← List.append_assoc, htold]
    · rcases List.mem_append.mp hdelay with hold | hnew
      · exact hnone seconds hold
      · simpa [Action.isDelay] using htells _ hnew

end Site
end GridRules
