import GridRules.Library

/-! The functions that every owner's rules may call. Each puts one action into the outbox. -/
namespace GridRules.Standard

def send (a : Action) (q : Outbox) : Logged (Except Fault Bool × Outbox) :=
  match q.push? a with
  | some q => pure (.ok true, q)
  | none => do
    Logged.warn (.outboxFull a)
    return (.ok false, q)

def sendIf (a : Except Fault Action) (q : Outbox) : Logged (Except Fault Bool × Outbox) :=
  match a with
  | .ok a => send a q
  | .error e => pure (.error e, q)

/-- The module that a command names, or else the owner itself. -/
def switched (own : Option UInt8) (c : Command) (s : Scope) : Except Fault UInt8 :=
  if c.arguments = [] then
    match own with
    | some id => .ok id
    | none => .error (.callback "module id required")
  else do
    let id ← c.argument 0 s
    if Binary64.isWhole id && 0 ≤ id && id ≤ 255 then
      .ok (UInt8.ofNat (Binary64.toUInt64 id).toNat)
    else .error (.callback "invalid module id")

def switch (own : Option UInt8) (on : Bool) : Function Outbox := fun c s q =>
  sendIf ((switched own c s).map (.switch · on)) q

def notify : Function Outbox := fun c s q =>
  send (.notify (" ".intercalate (c.arguments.map (Command.groupText s)))) q

def restart : Function Outbox := fun _ _ q => send .restart q

def delayed (c : Command) (s : Scope) : Except Fault UInt32 := do
  let seconds ← c.argument 0 s
  if 0 ≤ seconds && seconds ≤ 4294967295 then
    .ok (UInt32.ofNat (Binary64.toUInt64 seconds).toNat)
  else .error (.callback "DELAY out of range")

def delay : Function Outbox := fun c s q => sendIf ((delayed c s).map .delay) q

/-- The functions with their names, for the owner `own`. -/
def functions (own : Option UInt8) : List (String × Function Outbox) :=
  [("ON", switch own true), ("OFF", switch own false), ("NOTIFY", notify), ("RESTART", restart),
    ("DELAY", delay)]

/-- A library with the standard functions, which work on the state's outbox. -/
def add {σ : Type} (own : Option UInt8) (part : σ → Outbox) (replace : σ → Outbox → σ)
    (lib : Library σ) : Library σ :=
  (functions own).foldl (fun lib (name, f) => lib.put name (f.within part replace)) lib

end GridRules.Standard
