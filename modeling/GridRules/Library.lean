import GridRules.Warning

/-! Functions that commands call. A function may change the host's state; it succeeds, reports
failure or fails with a fault, and the commands after it run all the same. -/
namespace GridRules

abbrev Function (σ : Type) := Command → Scope → σ → Logged (Except Fault Bool × σ)

abbrev Library (σ : Type) := Table (Function σ)

/-- A function on a part of the state. -/
def Function.within {σ τ : Type} (part : σ → τ) (replace : σ → τ → σ) (f : Function τ) :
    Function σ := fun c s state => do
  let (r, t) ← f c s (part state)
  return (r, replace state t)

namespace Library
variable {σ : Type}

def call (lib : Library σ) (c : Command) (s : Scope) (state : σ) :
    Logged (Except Fault Bool × σ) :=
  match lib.get? c.name with
  | some f => f c s state
  | none => pure (.error (.unknownFunction c.name), state)

def isSuccess : Except Fault Bool → Bool
  | .ok b => b
  | .error _ => false

def complaints (c : Command) : Except Fault Bool → List Warning
  | .ok true => []
  | .ok false => [.commandUnsuccessful c]
  | .error e => [.commandFailed c e]

/-- Every command in order, each in the state that the ones before it left; whether all
succeeded. -/
def runAll (lib : Library σ) (vars : Variables σ) : List Command → σ → Logged (Bool × σ)
  | [], state => pure (true, state)
  | c :: cs, state => do
    let (r, state) ← lib.call c (vars.scope state) state
    Logged.warnAll (complaints c r)
    let (ok, state) ← lib.runAll vars cs state
    return (isSuccess r && ok, state)

end Library
end GridRules
