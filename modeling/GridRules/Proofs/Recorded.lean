import GridRules.Proofs.Pushes

/-! A record of calls. Functions that write down every call that is made of them do otherwise what
they did before, so the record of a run is what the run calls: which command, in which state, with
what outcome. A command that names no function calls none. -/
namespace GridRules
variable {σ τ : Type}

namespace Table
variable {α β : Type}

def map (f : α → β) (t : Table α) : Table β := ⟨t.entries.map fun (name, a) => (name, f a)⟩

theorem get?_map (f : α → β) (t : Table α) (name : String) :
    (t.map f).get? name = (t.get? name).map f := by
  obtain ⟨es⟩ := t
  simp only [get?, map]
  induction es with
  | nil => rfl
  | cons e es ih =>
    obtain ⟨k, a⟩ := e
    by_cases hk : name = k
    · simp [hk]
    · rw [List.map_cons, lookup_cons_ne hk, lookup_cons_ne hk, ih]

end Table

/-- The source, as one for a larger state. -/
def Source.along (part : τ → σ) : Source σ → Source τ
  | .constant v => .constant v
  | .live look => .live (look ∘ part)

/-- The variables, as ones for a larger state. -/
def Variables.along (part : τ → σ) (vs : Variables σ) : Variables τ :=
  Table.map (fun v => ⟨v.type, v.source.along part⟩) vs

theorem Variables.scope_along (part : τ → σ) (vs : Variables σ) (state : τ) :
    (vs.along part).scope state = vs.scope (part state) := by
  funext name
  simp only [scope, along, Table.get?_map, Option.map_map]
  congr 1
  funext ⟨type, source⟩
  cases source <;> rfl

/-- The function, with a record of its calls behind what the host keeps. -/
def Function.recorded (f : Function σ) : Function (σ × List (Call σ)) := fun c s state => do
  let (outcome, after) ← f c s state.1
  return (outcome, after, state.2 ++ [⟨c, state.1, outcome, after⟩])

namespace Library

def recorded (lib : Library σ) : Library (σ × List (Call σ)) := Table.map Function.recorded lib

/-- Whether the call was one of a function. -/
def names (lib : Library σ) (c : Call σ) : Bool := Table.contains lib c.command.name

theorem call_recorded (lib : Library σ) (c : Command) (s : Scope) (state : σ)
    (record : List (Call σ)) :
    (lib.recorded.call c s (state, record)).value =
      let (outcome, after) := (lib.call c s state).value
      (outcome, after, record ++ [⟨c, state, outcome, after⟩].filter lib.names) := by
  simp only [call, recorded, Table.get?_map]
  cases hf : Table.get? lib c.name with
  | none => simp [names, Table.contains, hf]
  | some f =>
    simp only [Option.map_some, Function.recorded, Logged.value_bind, Logged.value_pure]
    simp [names, Table.contains, hf]

/-- With a record the commands do the same, and the record goes on with their calls. -/
theorem runAll_recorded (lib : Library σ) (vars : Variables σ) (cs : List Command) (state : σ)
    (record : List (Call σ)) :
    (lib.recorded.runAll (vars.along Prod.fst) cs (state, record)).value =
      let (ok, after) := (lib.runAll vars cs state).value
      (ok, after, record ++ (Call.sequence lib vars state cs).filter lib.names) := by
  induction cs generalizing state record with
  | nil => simp [runAll, Call.sequence]
  | cons c cs ih =>
    simp only [runAll, Logged.value_bind, Logged.value_pure, Variables.scope_along,
      call_recorded, ih, Call.sequence]
    rw [List.append_assoc, ← List.filter_append, List.singleton_append]

end Library

namespace Engine

/-- The engine with functions that record their calls. -/
def recorded (e : Engine σ) : Engine (σ × List (Call σ)) where
  name := e.name
  rules := e.rules
  vars := e.vars.along Prod.fst
  library := e.library.recorded
  clock := e.clock ∘ Prod.fst
  maxRules := e.maxRules

variable (e : Engine σ) (state : σ) (record : List (Call σ))

theorem scope_recorded : e.recorded.scope (state, record) = e.scope state :=
  Variables.scope_along Prod.fst e.vars (state, record)

theorem calls_recorded (cs : List Command) :
    Call.final (state, record) (e.recorded.calls (state, record) cs) =
      (Call.final state (e.calls state cs),
        record ++ (e.calls state cs).filter e.library.names) := by
  have hrun := e.library.runAll_recorded e.vars cs state record
  rw [Call.runAll_eq_sequence, Call.runAll_eq_sequence] at hrun
  exact congrArg Prod.snd hrun

theorem reason_recorded :
    (e.recorded.reason (state, record)).value.2.2 = ((e.reason state).value.2.2,
      record ++ (e.calls state (e.dueCommands state)).filter e.library.names) := by
  have hdue : e.recorded.dueCommands (state, record) = e.dueCommands state := by
    rw [dueCommands, scope_recorded]
    rfl
  rw [reason_final, hdue, calls_recorded, reason_final]

theorem execute_recorded (text : String) :
    (e.recorded.execute text (state, record)).value =
      let (result, after) := (e.execute text state).value
      (result, after,
        record ++ (e.calls state (textCommands text)).filter e.library.names) := by
  rw [execute, execute, textCommands]
  cases Command.parse text with
  | error f => simp [calls, Call.sequence, Except.toOption]
  | ok cs =>
    have hrun := e.library.runAll_recorded e.vars cs state record
    simp only [Logged.value_bind, Logged.value_pure, Except.toOption, Option.getD_some]
    rw [show e.recorded.library = e.library.recorded from rfl,
      show e.recorded.vars = e.vars.along Prod.fst from rfl, hrun]
    rfl

theorem executeIf_recorded (expression command : String) :
    (e.recorded.executeIf expression command (state, record)).value =
      let (result, after) := (e.executeIf expression command state).value
      (result, after, record ++
        (e.calls state (e.guardedCommands expression command state)).filter e.library.names) := by
  rw [executeIf, executeIf, guardedCommands]
  cases Rule.parse ⟨0, expression, command⟩ with
  | error f => simp [calls, Call.sequence]
  | ok r =>
    dsimp only
    rw [scope_recorded]
    rcases hholds : r.holds (e.scope state) with f | (_ | _)
    · simp [calls, Call.sequence]
    · simp [calls, Call.sequence]
    · have hrun := e.library.runAll_recorded e.vars r.commands state record
      simp only [Logged.value_bind, Logged.value_pure]
      rw [show e.recorded.library = e.library.recorded from rfl,
        show e.recorded.vars = e.vars.along Prod.fst from rfl, hrun]
      rfl

end Engine
end GridRules
