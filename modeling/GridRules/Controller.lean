import GridRules.Event
import GridRules.Owner

/-! The controller: the unit, its modules in the order in which they were added, the outbox that
they share, and the actions that a delay holds back. The clock is read once per step and handed
in. -/
namespace GridRules

structure Controller where
  unit : ControlUnit
  modules : List Module
  outbox : Outbox
  settings : Settings
  /-- Actions that wait for a delay to pass. -/
  held : List Action
  holdUntil : Option UInt64
  ticks : UInt64
  lastTelemetry : UInt64
  dirty : Bool
  /-- The tick count at which the first unsaved change was made. -/
  dirtySince : UInt64

namespace Controller

def new (settings : Settings) (now : UInt64) : Controller where
  unit := .new settings.maxRules.toNat
  modules := []
  outbox := .empty
  settings := settings
  held := []
  holdUntil := none
  ticks := 0
  lastTelemetry := now
  dirty := false
  dirtySince := 0

def module? (c : Controller) (id : UInt8) : Option Module := c.modules.find? (·.id = id)

/-- The module's place is kept; ids are not repeated, so at most one module changes. -/
def updateModule (c : Controller) (id : UInt8) (f : Module → Module) : Controller :=
  { c with modules := c.modules.map fun m => if m.id = id then f m else m }

def addModule (c : Controller) (id : UInt8) : Except Fault Controller :=
  if (c.module? id).isSome then .error (.config "duplicate module id")
  else if c.settings.maxModules.toNat ≤ c.modules.length then
    .error (.config "module limit reached")
  else .ok { c with modules := c.modules ++ [Module.new id c.settings.maxRules.toNat] }

/-- Does something with one owner, whichever kind it is of; nothing without that owner. -/
def withOwner {α : Type} (c : Controller) (t : Target)
    (f : {R : Type} → Owner R → Logged (α × Owner R)) : Logged (Option α × Controller) :=
  match t with
  | .unit => do
    let (a, unit) ← f c.unit
    return (some a, { c with unit := unit })
  | .module id => match c.module? id with
    | none => pure (none, c)
    | some m => do
      let (a, m) ← f m
      return (some a, c.updateModule id fun _ => m)

def start (c : Controller) : List Event := [.started c.modules.length]

/-- Counts the ticks since the first change that is not saved. -/
def markDirty (c : Controller) : Controller :=
  if c.dirty then c else { c with dirty := true, dirtySince := c.ticks }

def telemetry (c : Controller) : Telemetry where
  totalPower := c.unit.readings.totalPower
  gridUp := c.unit.readings.gridUp
  modulesOnline := c.unit.readings.modulesOnline
  modulesTotal := c.modules.length
  rulesTotal := c.unit.engine.rules.length + (c.modules.flatMap (·.engine.rules)).length
  ticks := c.ticks

end Controller
end GridRules
