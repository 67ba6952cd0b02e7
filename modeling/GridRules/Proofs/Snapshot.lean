import GridRules.Proofs.Apart
import GridRules.Proofs.Dirty
import GridRules.Proofs.Views
import Mathlib.Data.List.Perm.Subperm

/-! Ticks as a whole. All conditions are judged in the state in which the tick begins, with the
totals of the modules that are online then. What the owners find is told first, in their order and
only if there is something to tell; then come the actions, and at last a report that is due. -/
namespace GridRules
variable {S : Type}

/-- Whether some rule held or failed. -/
def TickReport.hasNews (r : TickReport) : Bool := !r.matched.isEmpty || r.errors != 0

namespace Event

/-- The events that tell of the reports with news. -/
def ofReports (reports : List (Target × TickReport)) : List Event :=
  (reports.filter (·.2.hasNews)).map fun (t, r) => .tickCompleted t r

theorem ofReports_cons (t : Target) (r : TickReport) (reports : List (Target × TickReport)) :
    ofReports ((t, r) :: reports) = Controller.tickEvents t r ++ ofReports reports := by
  have hevents : Controller.tickEvents t r = if r.hasNews then [.tickCompleted t r] else [] := by
    cases hmatched : r.matched.isEmpty <;> by_cases herrors : r.errors = 0 <;>
      simp [Controller.tickEvents, TickReport.hasNews, hmatched, herrors]
  rw [hevents]
  cases hnews : r.hasNews <;> simp [ofReports, hnews]

def isTelemetry : Event → Bool
  | .telemetry _ => true
  | _ => false

theorem any_isTelemetry_ofReports (reports : List (Target × TickReport)) :
    (ofReports reports).any isTelemetry = false := by
  simp [ofReports, isTelemetry]

theorem any_isTelemetry_map_action (actions : List Action) :
    (actions.map action).any isTelemetry = false := by
  simp [isTelemetry]

end Event

namespace Controller

/-- The modules' reports, in the order of the modules. -/
theorem exists_reports_reasonModules {ms : List Module} (h : ∀ m ∈ ms, m.Sees m.target)
    (now : UInt64) (outbox : Outbox) :
    ∃ reports : List (Target × TickReport),
      reports.map (fun (t, r) => (t, r.findings)) =
        ms.map (fun m => (m.target, m.engine.findings (m.view now))) ∧
      (reasonModules now ms outbox).value.1 = Event.ofReports reports := by
  induction ms generalizing outbox with
  | nil => exact ⟨[], rfl, rfl⟩
  | cons m ms ih =>
    obtain ⟨reports, hfindings, hevents⟩ :=
      ih (fun m hm => h m (List.mem_cons_of_mem _ hm)) (m.reason now outbox).value.2.2
    refine ⟨(m.target, (m.reason now outbox).value.1) :: reports, ?_, ?_⟩
    · have hm := Module.findings_reason (h m (List.mem_cons_self ..)) now outbox
      exact congrArg₂ List.cons (Prod.ext rfl hm) hfindings
    · simp only [reasonModules, Logged.value_bind, Logged.value_pure, hevents,
        Event.ofReports_cons]

theorem exists_actions_dispatch (c : Controller) (now : UInt64) :
    ∃ actions : List Action, (c.dispatch now).2 = actions.map .action := by
  rw [dispatch]
  split
  · exact ⟨[], rfl⟩
  · exact ⟨_, rfl⟩

/-- The power of the modules that are online, added up in their order. -/
def onlinePower (c : Controller) : Float := c.onlineModules.foldl (fun p m => p + m.readings.power) 0

/-- What telemetry would tell in a tick that begins now. -/
def nextTelemetry (c : Controller) : Telemetry where
  totalPower := c.onlinePower
  gridUp := c.unit.readings.gridUp
  modulesOnline := UInt64.ofNat c.onlineModules.length
  modulesTotal := c.modules.length
  rulesTotal := c.unit.engine.rules.length + (c.modules.flatMap (·.engine.rules)).length
  ticks := c.ticks + 1

theorem telemetry_reasoned (c : Controller) (now : UInt64) :
    (c.reasoned now).telemetry = c.nextTelemetry := by
  have hunit : (c.reasoned now).unit.engine.rules = c.unit.engine.rules :=
    c.begun.unit.engine.rules_reason _
  have hmodules : (c.reasoned now).modules.map (·.engine.rules) = c.modules.map (·.engine.rules) :=
    map_reasonModules _ now (fun m _ => m.engine.rules_reason _) c.modules _
  have hlength : (c.reasoned now).modules.length = c.modules.length := by
    simpa using congrArg List.length hmodules
  rw [telemetry, hunit, hlength, List.flatMap_def, hmodules]
  rfl

/-- A tick tells of the reports, of the actions that are sent out, and of its totals if that is
due. -/
theorem exists_events_tick {c : Controller} (h : c.Every Owner.Sees) (now : UInt64) :
    ∃ (reports : List (Target × TickReport)) (actions : List Action),
      reports.map (fun (t, r) => (t, r.findings)) =
        (.unit, c.begun.unit.engine.findings (c.begun.unit.view now)) ::
          c.modules.map (fun m => (m.target, m.engine.findings (m.view now))) ∧
      (c.tick now).value.2 = Event.ofReports reports ++ actions.map .action ++
        if c.isTelemetryDue now then [.telemetry c.nextTelemetry] else [] := by
  have hunit : c.begun.unit.Sees .unit := Owner.sees_lasting.readings _ h.1
  obtain ⟨reports, hfindings, hmodules⟩ := exists_reports_reasonModules h.2 now
    (c.begun.unit.reason now c.outbox).value.2.2
  obtain ⟨actions, hactions⟩ := (c.reasoned now).exists_actions_dispatch now
  obtain ⟨held, holdUntil, hdispatch⟩ := (c.reasoned now).dispatch_frame now
  refine ⟨(.unit, (c.begun.unit.reason now c.outbox).value.1) :: reports, actions, ?_, ?_⟩
  · have hu := ControlUnit.findings_reason hunit now c.outbox
    exact congrArg₂ List.cons (Prod.ext rfl hu) hfindings
  · have htick : (c.tick now).value.2 =
        tickEvents .unit (c.begun.unit.reason now c.outbox).value.1 ++
          (reasonModules now c.modules (c.begun.unit.reason now c.outbox).value.2.2).value.1 ++
          ((c.reasoned now).dispatch now).2 ++
          (((c.reasoned now).dispatch now).1.reportTelemetry now).2 := rfl
    have htelemetry : (((c.reasoned now).dispatch now).1.reportTelemetry now).2 =
        if c.isTelemetryDue now then [.telemetry c.nextTelemetry] else [] := by
      rw [reportTelemetry, isTelemetryDue_dispatch_reasoned, hdispatch]
      cases c.isTelemetryDue now with
      | false => rfl
      | true => exact congrArg (fun t => [Event.telemetry t]) (c.telemetry_reasoned now)
    rw [htick, hmodules, hactions, htelemetry, Event.ofReports_cons]

theorem any_isTelemetry_runOn (c : Controller) (now : UInt64) (t : Target)
    (f : {R : Type} → Owner R → Outbox → Logged (Except Fault Bool × Outbox)) :
    (c.runOn now t f).value.2.any Event.isTelemetry = false := by
  obtain ⟨actions, hactions⟩ := (c.ranOn t f).exists_actions_dispatch now
  obtain ⟨r, hevents⟩ : ∃ r, (c.runOn now t f).value.2 =
      .executed t r :: ((c.ranOn t f).dispatch now).2 := ⟨_, rfl⟩
  rw [hevents, hactions, List.any_cons, Event.any_isTelemetry_map_action]
  rfl

theorem any_isTelemetry_handle [BlobStore S] (c : Controller) (now : UInt64) (s : S) (q : Request) :
    (c.handle now s q).value.2.2.any Event.isTelemetry = false := by
  cases q with
  | updateRules t p =>
    rcases c.updateRules_cases t p with ⟨-, heq⟩ | ⟨-, report, heq⟩
    · simp [handle, heq]
    · simp [handle, heq, patchEvents, Event.isTelemetry]
  | setTags t tags => rfl
  | execute t command => exact any_isTelemetry_runOn c now t _
  | executeIf t expression command => exact any_isTelemetry_runOn c now t _
  | reading id power isOn =>
    simp only [handle]
    split <;> rfl
  | offline id => rfl
  | gridChanged up => rfl
  | updateSettings settings =>
    simp only [handle]
    split <;> rfl
  | saveRules =>
    simp only [handle, Logged.value_bind, Logged.value_pure]
    split <;> rfl

theorem length_modules_le {c : Controller} (h : c.ids.Nodup) : c.modules.length ≤ 256 := by
  have hnodup : (c.ids.map UInt8.toNat).Nodup := h.map fun _ _ => UInt8.toNat_inj.mp
  have hrange : c.ids.map UInt8.toNat ⊆ List.range 256 := by
    intro n hn
    obtain ⟨id, -, rfl⟩ := List.mem_map.mp hn
    exact List.mem_range.mpr id.toNat_lt
  simpa [ids] using (hnodup.subperm hrange).length_le

end Controller

namespace Site
variable [BlobStore S]

/-- The time on the clock, if a step reports telemetry. -/
def reportTimes (w : Site S) (a : Step S) : List UInt64 :=
  if (w.step a).2.any Event.isTelemetry then [w.now] else []

/-- Telemetry is reported in ticks in which it is due, and in no other step. -/
theorem any_isTelemetry_step {w : Site S} (h : w.controller.Every Owner.Sees) (a : Step S) :
    (w.step a).2.any Event.isTelemetry = (a.isTick && w.controller.isTelemetryDue w.now) := by
  cases a with
  | tick =>
    obtain ⟨reports, actions, -, hevents⟩ := Controller.exists_events_tick h w.now
    have hstep : (w.step .tick).2 = (w.controller.tick w.now).value.2 := rfl
    rw [hstep, hevents, List.any_append, List.any_append, Event.any_isTelemetry_ofReports,
      Event.any_isTelemetry_map_action]
    cases w.controller.isTelemetryDue w.now <;> rfl
  | request q => exact w.controller.any_isTelemetry_handle w.now w.store q
  | _ => rfl

/-- The controller notes when it has reported telemetry. -/
theorem lastTelemetry_run (settings : Settings) (now : UInt64) (store : S) (steps : List (Step S)) :
    let w := start settings now store
    (w.run steps).controller.lastTelemetry = (trace reportTimes w steps).getLastD now := by
  intro w
  induction steps using List.reverseRecOn with
  | nil => rfl
  | append_singleton steps a ih =>
    have hreports := any_isTelemetry_step (every_sees_run settings now store steps) a
    rw [run_concat, trace_concat, lastTelemetry_step, reportTimes, hreports, ih]
    split <;> simp

/-- What a tick tells. -/
structure TellsTick (w : Site S) (last : UInt64) (reports : List (Target × TickReport))
    (actions : List Action) : Prop where
  /-- There are never more modules than the unit can count. -/
  online : (UInt64.ofNat w.controller.onlineModules.length).toNat =
    w.controller.onlineModules.length
  /-- The rules are judged as the owners stand when the tick begins. -/
  judged : reports.map (fun (t, r) => (t, r.findings)) =
    (.unit, w.controller.unit.engine.findings ((w.controller.unit.setTotals
      w.controller.onlinePower (UInt64.ofNat w.controller.onlineModules.length)).view w.now)) ::
    w.controller.modules.map fun m => (m.target, m.engine.findings (m.view w.now))
  /-- Reports come first, then actions, and at last telemetry, if the interval has passed. -/
  events : (w.step .tick).2 = Event.ofReports reports ++ actions.map .action ++
    if w.controller.settings.telemetryInterval.toNat ≤ w.now.toNat - last.toNat then
      [.telemetry w.controller.nextTelemetry]
    else []

/-- After any run, a tick judges all rules as things stand when it begins, and tells in order of the
owners with news, of the actions, and of the totals if the interval has passed since the last time
that they were told. -/
theorem exists_tellsTick (settings : Settings) (now : UInt64) (store : S) (steps : List (Step S)) :
    let w := start settings now store
    ∃ reports actions,
      (w.run steps).TellsTick ((trace reportTimes w steps).getLastD now) reports actions := by
  intro w
  obtain ⟨reports, actions, hjudged, hevents⟩ :=
    Controller.exists_events_tick (every_sees_run settings now store steps) (w.run steps).now
  refine ⟨reports, actions, ?_, hjudged, ?_⟩
  · have hids : (w.run steps).controller.ids.Nodup :=
      ((isApart_start settings now store).run steps).nodup
    have honline : (w.run steps).controller.onlineModules.length ≤ 256 :=
      (List.length_filter_le ..).trans (Controller.length_modules_le hids)
    exact UInt64.toNat_ofNat_of_lt' (honline.trans_lt (by decide))
  · have hstep : ((w.run steps).step .tick).2 =
        ((w.run steps).controller.tick (w.run steps).now).value.2 := rfl
    rw [hstep, hevents, Controller.isTelemetryDue, lastTelemetry_run]
    simp only [decide_eq_true_eq]
    rfl

/-- One of two modules is online, and the unit has a rule for that. -/
example :
    let rule : RuleText := ⟨1, "MODULES_ONLINE == 1", "RESTART"⟩
    let w := (start .initial 0 Store.empty).run [.addModule 1, .addModule 2,
      .request (.updateRules .unit ⟨.replace, [rule]⟩), .request (.reading 2 5 true), .clock 60]
    (w.step .tick).2.map (fun e => (Journal.line e).text) =
      ["DEBUG TICK | unit matched=[0] tier=Some(1) executed=[0] errors=0 ok=true",
        "INFO ACTION | restart",
        "INFO TELEM | P=5W | grid=DOWN | modules=1/2 | rules=1 | ticks=1"] := by
  decide +kernel

end Site
end GridRules
