import GridRules.Proofs.Addressed
import GridRules.Proofs.Recorded

/-! Commands that are run by hand. A command text with a condition does what a tick does whose only
rule it is, and a text that cannot be read or judged calls no function. The owner, its rules and
its variables stay as they are. -/
namespace GridRules
variable {σ : Type}

/-! A tick of one rule. -/
namespace PlainEngine
variable {p : PlainEngine σ} {t : RuleText}

theorem matched_singleton (hp : p.texts = [t]) (s : Scope) :
    p.matched s = if holds s t then [0] else [] := by
  rw [matched, hp]
  cases h : holds s t <;> simp [List.findIdxs_cons, h]

theorem executed_singleton (hp : p.texts = [t]) (s : Scope) : p.executed s = p.matched s := by
  have hpriority : p.priorityAt 0 = some t.priority := by simp [priorityAt, hp]
  rw [executed, tier, matched_singleton hp]
  cases holds s t <;> simp [hpriority]

theorem due_singleton (hp : p.texts = [t]) (s : Scope) :
    p.due s = if holds s t then commands t else [] := by
  rw [due, executed_singleton hp, matched_singleton hp, hp]
  cases holds s t <;> simp

end PlainEngine

namespace Engine
variable {e single : Engine σ} {expression command : String} {state : σ}

/-- An engine has the variables and the functions of another one and a single rule. -/
structure HasJust (single e : Engine σ) (t : RuleText) : Prop where
  vars : single.vars = e.vars
  library : single.library = e.library
  sources : single.sources = [t]

/-- A rule that can be read can be read with every priority. -/
theorem exists_hasJust {r : Rule} (e : Engine σ) (hr : Rule.parse ⟨0, expression, command⟩ = .ok r)
    (priority : Int32) : ∃ single : Engine σ, single.HasJust e ⟨priority, expression, command⟩ := by
  have hok := Rule.isOk_parse ⟨priority, expression, command⟩
  rw [← Rule.isOk_parse ⟨0, expression, command⟩, hr] at hok
  obtain ⟨r', hr'⟩ := Outcome.isOk_iff.mp hok
  refine ⟨{ e with rules := [r'] }, rfl, rfl, ?_⟩
  simp [sources, Rule.parse_eq_ok_iff.mp hr']

theorem executeIf_of_parse_error {f : SyntaxFault}
    (hr : Rule.parse ⟨0, expression, command⟩ = .error f) :
    (e.executeIf expression command state).value.1 = .error (.syntactic f) ∧
      e.guardedCommands expression command state = [] := by
  simp [executeIf, guardedCommands, hr]

theorem executeIf_of_holds_error {r : Rule} {f : EvalFault}
    (hr : Rule.parse ⟨0, expression, command⟩ = .ok r) (hf : r.holds (e.scope state) = .error f) :
    (e.executeIf expression command state).value.1 = .error (.evaluation f) ∧
      e.guardedCommands expression command state = [] := by
  simp [executeIf, guardedCommands, hr, hf]

theorem executeIf_of_holds {r : Rule} {held : Bool}
    (hr : Rule.parse ⟨0, expression, command⟩ = .ok r) (hf : r.holds (e.scope state) = .ok held) :
    (e.executeIf expression command state).value.1 =
        .ok (held && (e.calls state r.commands).all (·.succeeded)) ∧
      e.guardedCommands expression command state = if held then r.commands else [] := by
  cases held <;> simp [executeIf, guardedCommands, hr, hf, calls, Call.runAll_eq_sequence]

/-- An ad hoc command fails before it calls anything, on a text or on the condition. -/
theorem executeIf_fails_iff (e : Engine σ) (expression command : String) (state : σ) :
    (∃ f, (e.executeIf expression command state).value.1 = .error f) ↔
      (∃ f, Token.compile expression = .error f) ∨ (∃ f, Command.parse command = .error f) ∨
        ∃ rpn f, Token.compile expression = .ok rpn ∧
          Evaluate.holds (e.scope state) rpn = .error f := by
  cases hr : Rule.parse ⟨0, expression, command⟩ with
  | error f =>
    have hok := Rule.isOk_parse ⟨0, expression, command⟩
    rw [hr] at hok
    refine iff_of_true ⟨_, (executeIf_of_parse_error hr).1⟩ ?_
    cases hexpression : Token.compile expression with
    | error g => exact .inl ⟨g, rfl⟩
    | ok rpn =>
      cases hcommand : Command.parse command with
      | error g => exact .inr (.inl ⟨g, rfl⟩)
      | ok cs => simp [hexpression, hcommand, Except.isOk, Except.toBool] at hok
  | ok r =>
    have hsource := Rule.parse_eq_ok_iff.mp hr
    have hexpression : Token.compile expression = .ok r.condition := by
      simpa only [hsource] using r.condition_eq
    have hcommand : Command.parse command = .ok r.commands := by
      simpa only [hsource] using r.commands_source
    cases hf : r.holds (e.scope state) with
    | error f =>
      exact iff_of_true ⟨_, (executeIf_of_holds_error hr hf).1⟩
        (.inr (.inr ⟨r.condition, f, hexpression, hf⟩))
    | ok held =>
      have hjudged : Evaluate.holds (e.scope state) r.condition = .ok held := hf
      rw [(executeIf_of_holds hr hf).1]
      simp [hexpression, hcommand, hjudged]

theorem guardedCommands_of_error {f : Fault}
    (h : (e.executeIf expression command state).value.1 = .error f) :
    e.guardedCommands expression command state = [] := by
  cases hr : Rule.parse ⟨0, expression, command⟩ with
  | error g => exact (executeIf_of_parse_error hr).2
  | ok r =>
    cases hf : r.holds (e.scope state) with
    | error g => exact (executeIf_of_holds_error hr hf).2
    | ok held =>
      rw [(executeIf_of_holds hr hf).1] at h
      cases h

/-- On a fault there are no calls, and the state is left as it was. -/
theorem executeIf_of_error {f : Fault}
    (h : (e.executeIf expression command state).value.1 = .error f) :
    (e.recorded.executeIf expression command (state, [])).value.2.2 = [] ∧
      (e.executeIf expression command state).value.2 = state := by
  rw [executeIf_recorded, executeIf_final, guardedCommands_of_error h]
  exact ⟨rfl, rfl⟩

theorem executeIf_of_ok {b : Bool}
    (h : (e.executeIf expression command state).value.1 = .ok b) :
    ∃ r held, Rule.parse ⟨0, expression, command⟩ = .ok r ∧
      r.holds (e.scope state) = .ok held := by
  cases hr : Rule.parse ⟨0, expression, command⟩ with
  | error g =>
    rw [(executeIf_of_parse_error hr).1] at h
    cases h
  | ok r =>
    cases hf : r.holds (e.scope state) with
    | error g =>
      rw [(executeIf_of_holds_error hr hf).1] at h
      cases h
    | ok held => exact ⟨r, held, rfl, hf⟩

theorem execute_of_parse_error {f : SyntaxFault} (h : Command.parse command = .error f)
    (state : σ) :
    (e.recorded.execute command (state, [])).value = (.error (.syntactic f), state, []) := by
  rw [execute_recorded]
  simp [execute, textCommands, h, calls, Call.sequence, Except.toOption]

theorem holds_of_parse {r : Rule} {held : Bool} {s : Scope}
    (hr : Rule.parse ⟨0, expression, command⟩ = .ok r) (hf : r.holds s = .ok held) :
    Expression.holds expression s = .ok held := by
  have hexpression := r.holds_source s
  rwa [Rule.parse_eq_ok_iff.mp hr, hf] at hexpression

theorem plain_holds_of_parse {r : Rule} {held : Bool} {s : Scope}
    (hr : Rule.parse ⟨0, expression, command⟩ = .ok r) (hf : r.holds s = .ok held)
    (priority : Int32) : PlainEngine.holds s ⟨priority, expression, command⟩ = held := by
  rw [PlainEngine.holds, holds_of_parse hr hf]
  cases held <;> rfl

section HasJust
variable {priority : Int32} (h : single.HasJust e ⟨priority, expression, command⟩)
include h

theorem HasJust.scope_eq : single.scope state = e.scope state := by rw [scope, h.vars, scope]

theorem HasJust.calls_eq (cs : List Command) : single.calls state cs = e.calls state cs := by
  rw [calls, h.library, h.vars, calls]

variable {r : Rule} {held : Bool} (hr : Rule.parse ⟨0, expression, command⟩ = .ok r)
  (hf : r.holds (e.scope state) = .ok held)
include hr hf

theorem HasJust.dueCommands_eq :
    single.dueCommands state = e.guardedCommands expression command state := by
  have hcommands : PlainEngine.commands ⟨priority, expression, command⟩ = r.commands := by
    have hparse := r.commands_source
    rw [Rule.parse_eq_ok_iff.mp hr] at hparse
    simp [PlainEngine.commands, hparse, Except.toOption]
  rw [dueCommands, h.scope_eq, PlainEngine.due_singleton h.sources,
    plain_holds_of_parse hr hf, hcommands, (executeIf_of_holds hr hf).2]

/-- What a tick of the one rule finds. -/
theorem HasJust.report_eq :
    (single.reason state).value.1.matched = (if held then [0] else []) ∧
      (single.reason state).value.1.success =
        (e.calls state (e.guardedCommands expression command state)).all (·.succeeded) := by
  have hreport : (single.reason state).value.1 = (single.plain.tick state).1 :=
    congrArg Prod.fst (single.reason_plain state)
  rw [hreport]
  constructor
  · show single.plain.matched (single.scope state) = _
    rw [h.scope_eq, PlainEngine.matched_singleton h.sources, plain_holds_of_parse hr hf]
  · rw [← h.dueCommands_eq hr hf, ← h.calls_eq]
    rfl

/-- The tick of the one rule makes the calls of the ad hoc command and leaves what they leave. -/
theorem HasJust.tick_eq :
    (single.recorded.reason (state, [])).value.2.2.2 =
        (e.recorded.executeIf expression command (state, [])).value.2.2 ∧
      (single.reason state).value.2.2 = (e.executeIf expression command state).value.2 := by
  rw [reason_recorded, executeIf_recorded, reason_final, executeIf_final,
    h.dueCommands_eq hr hf, h.calls_eq, h.library]
  exact ⟨rfl, rfl⟩

end HasJust

end Engine

/-- A request that runs commands leaves every owner as it is. -/
theorem Controller.owners_runOn (c : Controller) (now : UInt64) (t : Target)
    (f : {R : Type} → Owner R → Outbox → Logged (Except Fault Bool × Outbox)) :
    (c.runOn now t f).value.1.unit = c.unit ∧
      ∀ id, (c.runOn now t f).value.1.module? id = c.module? id := by
  refine ⟨?_, fun id => ?_⟩
  · obtain ⟨held, holdUntil, heq⟩ := c.runOn_frame now t f
    rw [heq]
    cases t with
    | unit => rfl
    | module id =>
      simp only [ranOn, withOwner]
      cases c.module? id <;> rfl
  · rw [module?_runOn]
    split <;> simp

namespace Engine

/-- A command text with a condition fails with a fault exactly if one of the two texts cannot be
read or if the condition cannot be judged, and then it calls no function. Otherwise its calls, what
they leave and its answer are those of a tick of an engine with the same variables and functions
and this rule alone: the answer is no if the condition does not hold, and else the success of the
tick. The owners stay as they are, and so does what `LAST_EXECUTION_TIME` stands for. A command text
by itself that cannot be read calls no function either. -/
theorem executeIf_eq_reason (e : Engine σ) (expression command : String) (state : σ) :
    let (result, after) := (e.executeIf expression command state).value
    let made := (e.recorded.executeIf expression command (state, [])).value.2.2
    ((∃ f, result = .error f) ↔ (∃ f, Token.compile expression = .error f) ∨
      (∃ f, Command.parse command = .error f) ∨
      ∃ rpn f, Token.compile expression = .ok rpn ∧
        Evaluate.holds (e.scope state) rpn = .error f) ∧
    ((∃ f, result = .error f) → made = [] ∧ after = state) ∧
    (∀ b, result = .ok b → ∃ held,
      Expression.holds expression (e.scope state) = .ok held ∧
      ∀ priority, (∃ single : Engine σ, single.HasJust e ⟨priority, expression, command⟩) ∧
        ∀ single : Engine σ, single.HasJust e ⟨priority, expression, command⟩ →
          let (report, _, ticked) := (single.reason state).value
          (single.recorded.reason (state, [])).value.2.2.2 = made ∧ ticked = after ∧
            report.matched = (if held then [0] else []) ∧ b = (held && report.success)) ∧
    (∀ type v, e.vars.get? lastExecutionTime = some ⟨type, .constant v⟩ →
      e.scope after lastExecutionTime = e.scope state lastExecutionTime) ∧
    (∀ (S : Type) [BlobStore S] (s : S) (c : Controller) (now : UInt64) (t : Target),
      let next := (c.handle now s (.executeIf t expression command)).value.1
      next.unit = c.unit ∧ ∀ id, next.module? id = c.module? id) ∧
    ∀ f, Command.parse command = .error f →
      (e.recorded.execute command (state, [])).value = (.error (.syntactic f), state, []) := by
  refine ⟨executeIf_fails_iff e expression command state, fun ⟨f, hf⟩ => executeIf_of_error hf,
    fun b hb => ?_, fun type v hv => ?_, fun S _ s c now t => c.owners_runOn now t _,
    fun f hf => execute_of_parse_error hf state⟩
  · obtain ⟨r, held, hr, hheld⟩ := executeIf_of_ok hb
    refine ⟨held, holds_of_parse hr hheld, fun priority =>
      ⟨exists_hasJust e hr priority, fun single hsingle => ?_⟩⟩
    obtain ⟨hmade, hafter⟩ := hsingle.tick_eq hr hheld
    obtain ⟨hmatched, hsuccess⟩ := hsingle.report_eq hr hheld
    refine ⟨hmade, hafter, hmatched, ?_⟩
    obtain ⟨hvalue, hguarded⟩ := executeIf_of_holds hr hheld
    have hb : Except.ok b = _ := hb.symm.trans hvalue
    cases hb
    show _ = (held && (single.reason state).value.1.success)
    rw [hsuccess, hguarded]
    cases held <;> rfl
  · simp only [scope, Variables.scope, hv]
    rfl

end Engine
end GridRules
