import GridRules.Library
import GridRules.Rule

/-! A rule engine. A tick judges all conditions in one state, then runs the commands of the rules
of highest priority among those that hold. The host's state, its clock and the functions belong
to the owner of the engine. -/
namespace GridRules

structure Engine (σ : Type) where
  name : String
  rules : List Rule
  vars : Variables σ
  library : Library σ
  clock : σ → UInt64
  maxRules : Nat

/-- What came of a patch: how many rules were loaded, and why the others were not. -/
structure PatchReport where
  loaded : Nat
  rejected : List (Nat × Fault)
  deriving DecidableEq

namespace PatchReport

def isClean (r : PatchReport) : Bool := r.rejected.isEmpty

def append (a b : PatchReport) : PatchReport := ⟨a.loaded + b.loaded, a.rejected ++ b.rejected⟩

end PatchReport

/-- What a tick did. Rules are named by their place. -/
structure TickReport where
  matched : List Nat
  executed : List Nat
  tier : Option Int32
  errors : Nat
  success : Bool
  deriving DecidableEq

namespace Engine
variable {σ : Type}

def currentTime : String := "CURRENT_TIME"

def lastExecutionTime : String := "LAST_EXECUTION_TIME"

/-- The names that every engine binds. -/
def initialVars (clock : σ → UInt64) : Variables σ :=
  let vars := Variables.bindLive Table.empty currentTime .uint64 fun state => .uint64 (clock state)
  vars.bindConstant lastExecutionTime (.uint64 0)

def new (name : String) (clock : σ → UInt64) (maxRules : Nat) : Engine σ :=
  ⟨name, [], initialVars clock, Table.empty, clock, maxRules⟩

def scope (e : Engine σ) (state : σ) : Scope := e.vars.scope state

def bindConstant (e : Engine σ) (name : String) (v : Value) : Engine σ :=
  { e with vars := e.vars.bindConstant name v }

def register (e : Engine σ) (name : String) (f : Function σ) : Engine σ :=
  { e with library := e.library.put name f }

def sources (e : Engine σ) : List RuleText := e.rules.map (·.source)

def clearRules (e : Engine σ) : Engine σ := { e with rules := [] }

/-- The engine with one rule more, or why it is refused. -/
def addRule (e : Engine σ) (t : RuleText) : Logged (Except Fault (Engine σ)) :=
  if e.maxRules ≤ e.rules.length then pure (.error (.ruleLimit e.maxRules))
  else match Rule.parse t with
    | .error f => do
      Logged.warn (.ruleRejected e.name t.expression f)
      return .error (.syntactic f)
    | .ok r => do
      Logged.warnAll
        ((r.unboundNames e.vars.contains).map (.unboundName e.name t.expression))
      return .ok { e with rules := e.rules ++ [r] }

/-- Each rule is loaded or refused by itself; the first is reported as rule `index`. -/
def load (e : Engine σ) (index : Nat) : List RuleText → Logged (PatchReport × Engine σ)
  | [] => pure (⟨0, []⟩, e)
  | t :: ts => do
    match ← e.addRule t with
    | .ok e =>
      let (report, e) ← e.load (index + 1) ts
      return ({ report with loaded := report.loaded + 1 }, e)
    | .error f =>
      let (report, e) ← e.load (index + 1) ts
      return ({ report with rejected := (index, f) :: report.rejected }, e)

def applyPatch (e : Engine σ) (p : RulePatch) : Logged (PatchReport × Engine σ) :=
  match p.mode with
  | .replace => e.clearRules.load 0 p.rules
  | .append => e.load 0 p.rules

/-- The rules whose verdict is positive, with their places. -/
def holding (e : Engine σ) (s : Scope) : List (Rule × Nat) :=
  e.rules.zipIdx.filter fun (r, _) => r.holds s matches .ok true

/-- The faults of the rules that cannot be judged. -/
def evalWarnings (e : Engine σ) (s : Scope) : List Warning :=
  e.rules.zipIdx.filterMap fun (r, i) => match r.holds s with
    | .error f => some (.ruleNotEvaluated e.name i r.source.expression f)
    | .ok _ => none

/-- One tick: all conditions are judged before any command runs. -/
def reason (e : Engine σ) (state : σ) : Logged (TickReport × Engine σ × σ) := do
  let scope := e.scope state
  let faults := e.evalWarnings scope
  let matched := e.holding scope
  Logged.warnAll faults
  match (matched.map (·.1.priority)).max? with
  | none => return (⟨[], [], none, faults.length, true⟩, e, state)
  | some tier =>
    let winners := matched.filter (·.1.priority = tier)
    let (ok, after) ← e.library.runAll e.vars (winners.flatMap (·.1.commands)) state
    return (⟨matched.map (·.2), winners.map (·.2), some tier, faults.length, ok⟩,
      e.bindConstant lastExecutionTime (.uint64 (e.clock state)), after)

/-- Runs a command text. -/
def execute (e : Engine σ) (text : String) (state : σ) : Logged (Except Fault Bool × σ) :=
  match Command.parse text with
  | .error f => pure (.error (.syntactic f), state)
  | .ok cs => do
    let (ok, state) ← e.library.runAll e.vars cs state
    return (.ok ok, state)

/-- Runs a command text if a condition holds. Both are parsed before anything runs. -/
def executeIf (e : Engine σ) (expression command : String) (state : σ) :
    Logged (Except Fault Bool × σ) :=
  match Rule.parse ⟨0, expression, command⟩ with
  | .error f => pure (.error (.syntactic f), state)
  | .ok r => match r.holds (e.scope state) with
    | .error f => pure (.error (.evaluation f), state)
    | .ok false => pure (.ok false, state)
    | .ok true => do
      let (ok, state) ← e.library.runAll e.vars r.commands state
      return (.ok ok, state)

end Engine
end GridRules
