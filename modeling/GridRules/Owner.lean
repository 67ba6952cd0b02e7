import GridRules.Archive
import GridRules.Engine
import GridRules.Standard
import GridRules.TagList

/-! Owners of rules: the unit with the readings of the whole site, and the modules each with its
own. What an owner's rules see is its host: the clock, the owner's readings and tags, and the
outbox that all owners share. -/
namespace GridRules

structure Host (R : Type) where
  now : UInt64
  readings : R
  tags : TagList
  outbox : Outbox

structure Owner (R : Type) where
  readings : R
  tags : TagList
  engine : Engine (Host R)

namespace Owner
variable {R S : Type} [BlobStore S]

/-- The owner's part of the store. -/
def space (o : Owner R) : String := o.engine.name

def host (o : Owner R) (now : UInt64) (outbox : Outbox) : Host R :=
  ⟨now, o.readings, o.tags, outbox⟩

/-- An owner whose engine has the standard functions; `bind` adds the names for its readings. -/
def new (name : String) (own : Option UInt8) (readings : R) (maxRules : Nat)
    (bind : Variables (Host R) → Variables (Host R)) : Owner R :=
  let e : Engine (Host R) := .new name (·.now) maxRules
  ⟨readings, .empty, { e with
    vars := bind e.vars
    library := Standard.add own (·.outbox) (fun h q => { h with outbox := q }) e.library }⟩

def setTags (o : Owner R) (texts : List String) : Owner R := { o with tags := .ofList texts }

/-- One tick of the owner's engine. -/
def reason (o : Owner R) (now : UInt64) (outbox : Outbox) :
    Logged (TickReport × Owner R × Outbox) := do
  let (report, engine, host) ← o.engine.reason (o.host now outbox)
  return (report, { o with engine := engine }, host.outbox)

def execute (o : Owner R) (text : String) (now : UInt64) (outbox : Outbox) :
    Logged (Except Fault Bool × Outbox) := do
  let (r, host) ← o.engine.execute text (o.host now outbox)
  return (r, host.outbox)

def executeIf (o : Owner R) (expression command : String) (now : UInt64) (outbox : Outbox) :
    Logged (Except Fault Bool × Outbox) := do
  let (r, host) ← o.engine.executeIf expression command (o.host now outbox)
  return (r, host.outbox)

def applyPatch (o : Owner R) (p : RulePatch) : Logged (PatchReport × Owner R) := do
  let (report, engine) ← o.engine.applyPatch p
  return (report, { o with engine := engine })

/-- Stores the rules and, if that succeeds, the tags. -/
def persist (o : Owner R) (s : S) : Logged (Except Fault Unit × S) := do
  match ← Archive.saveRules s o.space o.engine.sources with
  | (.error e, s) => return (.error e, s)
  | (.ok (), s) => Archive.saveTags s o.space o.tags.toList

/-- Both blobs are read before anything of the owner changes. -/
def restore (o : Owner R) (s : S) : Logged (Except Fault PatchReport × Owner R) := do
  match ← Archive.loadTags s o.space with
  | .error e => return (.error e, o)
  | .ok tags => match ← Archive.loadRules s o.space with
    | .error e => return (.error e, o)
    | .ok rules =>
      let (report, o) ← (o.setTags tags).applyPatch ⟨.replace, rules⟩
      return (.ok report, o)

end Owner

structure UnitReadings where
  totalPower : Float
  gridUp : Bool
  modulesOnline : UInt64

structure ModuleReadings where
  id : UInt8
  power : Float
  isOn : Bool
  online : Bool

abbrev ControlUnit := Owner UnitReadings

abbrev Module := Owner ModuleReadings

def ControlUnit.new (maxRules : Nat) : ControlUnit :=
  Owner.new Target.unit.text none ⟨0, false, 0⟩ maxRules fun vars =>
    vars.bindLive "TOTAL_POWER" .double (fun h => .double h.readings.totalPower)
      |>.bindLive "GRID" .bool (fun h => .bool h.readings.gridUp)
      |>.bindLive "MODULES_ONLINE" .uint64 (fun h => .uint64 h.readings.modulesOnline)
      |>.bindLive "UTL" .array (fun h => .array h.tags.toList)

def Module.new (id : UInt8) (maxRules : Nat) : Module :=
  Owner.new (Target.module id).text (some id) ⟨id, 0, false, false⟩ maxRules fun vars =>
    vars.bindLive "POWER" .double (fun h => .double h.readings.power)
      |>.bindLive "IS_ON" .bool (fun h => .bool h.readings.isOn)
      |>.bindLive "ONLINE" .bool (fun h => .bool h.readings.online)
      |>.bindConstant "MODULE_ID" (.int (Int64.ofNat id.toNat))
      |>.bindLive "MTL" .array (fun h => .array h.tags.toList)

def Module.id (m : Module) : UInt8 := m.readings.id

def Module.target (m : Module) : Target := .module m.id

def Module.update (m : Module) (power : Float) (isOn : Bool) : Module :=
  { m with readings := { m.readings with power := power, isOn := isOn, online := true } }

def Module.markOffline (m : Module) : Module :=
  { m with readings := { m.readings with online := false } }

def ControlUnit.setTotals (u : ControlUnit) (power : Float) (online : UInt64) : ControlUnit :=
  { u with readings := { u.readings with totalPower := power, modulesOnline := online } }

def ControlUnit.setGrid (u : ControlUnit) (up : Bool) : ControlUnit :=
  { u with readings := { u.readings with gridUp := up } }

end GridRules
