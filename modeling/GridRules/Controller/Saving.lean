import GridRules.Controller

/-! Saving and restoring. Owners are written one after the other up to the first failure, and
read each by itself. -/
namespace GridRules.Controller
variable {S : Type} [BlobStore S]

def persistModules (s : S) : List Module → Logged (Except Fault Unit × S)
  | [] => pure (.ok (), s)
  | m :: ms => do
    match ← m.persist s with
    | (.error e, s) => return (.error e, s)
    | (.ok (), s) => persistModules s ms

/-- The unit, then the modules. -/
def persist (c : Controller) (s : S) : Logged (Except Fault Unit × S) := do
  match ← c.unit.persist s with
  | (.error e, s) => return (.error e, s)
  | (.ok (), s) => persistModules s c.modules

/-- Saves everything; whether that succeeded. -/
def saveAll (c : Controller) (s : S) : Logged (Bool × S) := do
  match ← c.persist s with
  | (.ok (), s) => return (true, s)
  | (.error e, s) =>
    Logged.warn (.saveFailed e)
    return (false, s)

/-- The seconds that a change waits to be saved. -/
def saveDelay : Float32 := 5

def ticksSinceDirty (c : Controller) : UInt64 :=
  UInt64.ofNat (c.ticks.toNat - c.dirtySince.toNat)

def isSaveDue (c : Controller) : Bool :=
  c.dirty && !(c.ticksSinceDirty.toFloat32 * c.settings.tickSeconds < saveDelay)

/-- Saves if there are changes; whether everything was saved. -/
def saveIf (c : Controller) (due : Bool) (s : S) : Logged (Bool × Controller × S) :=
  if due then do
    let (ok, s) ← c.saveAll s
    return (ok, if ok then { c with dirty := false } else c, s)
  else pure (false, c, s)

/-- Saves changes that have waited long enough. -/
def autoSave (c : Controller) (s : S) : Logged (Bool × Controller × S) := c.saveIf c.isSaveDue s

def forceSave (c : Controller) (s : S) : Logged (Bool × Controller × S) := c.saveIf c.dirty s

/-- The report of an owner that was restored; an empty one, with a warning, if it was not. -/
def restored (owner : Target) : Except Fault PatchReport → Logged PatchReport
  | .ok report => pure report
  | .error e => do
    Logged.warn (.restoreFailed owner e)
    return ⟨0, []⟩

def restoreModules (s : S) : List Module → Logged (PatchReport × List Module)
  | [] => pure (⟨0, []⟩, [])
  | m :: ms => do
    let (r, next) ← m.restore s
    let report ← restored m.target r
    let (rest, others) ← restoreModules s ms
    return (report.append rest, next :: others)

/-- Reads back what is stored for the unit and for every module. -/
def restore (c : Controller) (s : S) : Logged (PatchReport × Controller) := do
  let (r, unit) ← c.unit.restore s
  let report ← restored .unit r
  let (rest, modules) ← restoreModules s c.modules
  return (report.append rest, { c with unit := unit, modules := modules })

end GridRules.Controller
