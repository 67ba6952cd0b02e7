import GridRules.Controller.Saving
import GridRules.Controller.Tick

/-! Requests from outside: rules and tags to take over, commands to run at once, readings of the
modules and of the mains, settings, and saving. -/
namespace GridRules

inductive Request where
  | updateRules (target : Target) (patch : RulePatch)
  | setTags (target : Target) (tags : List String)
  | execute (target : Target) (command : String)
  | executeIf (target : Target) (expression command : String)
  | reading (id : UInt8) (power : Float) (isOn : Bool)
  | offline (id : UInt8)
  | gridChanged (up : Bool)
  | updateSettings (settings : Settings)
  | saveRules

namespace Controller
variable {S : Type} [BlobStore S]

/-- Tells of each rule that was refused, then of the whole patch. -/
def patchEvents (t : Target) (r : PatchReport) : List Event :=
  r.rejected.map (fun (i, e) => .ruleRejected t i e) ++
    [.rulesUpdated t r.loaded r.rejected.length]

def updateRules (c : Controller) (t : Target) (p : RulePatch) :
    Logged (Controller × List Event) := do
  match ← c.withOwner t (·.applyPatch p) with
  | (some report, c) => return (c.markDirty, patchEvents t report)
  | (none, c) =>
    Logged.warn (.noRuleTarget t)
    return (c, [])

def setTags (c : Controller) (t : Target) (tags : List String) : Logged Controller := do
  match ← c.withOwner t fun o => pure ((), o.setTags tags) with
  | (some (), c) => return c.markDirty
  | (none, c) =>
    Logged.warn (.noTagTarget t)
    return c

/-- Runs something with one owner's rules, tells of its result and sends out the actions. -/
def runOn (c : Controller) (now : UInt64) (t : Target)
    (f : {R : Type} → Owner R → Outbox → Logged (Except Fault Bool × Outbox)) :
    Logged (Controller × List Event) := do
  let (ran, c) ← c.withOwner t fun o => do return (← f o c.outbox, o)
  let (r, outbox) := ran.getD (.error (.config "no such target"), c.outbox)
  let (c, actions) := dispatch { c with outbox := outbox } now
  return (c, .executed t r :: actions)

def handle (c : Controller) (now : UInt64) (s : S) (q : Request) :
    Logged (Controller × S × List Event) :=
  match q with
  | .updateRules t p => do
    let (c, events) ← c.updateRules t p
    return (c, s, events)
  | .setTags t tags => do return (← c.setTags t tags, s, [])
  | .execute t command => do
    let (c, events) ← c.runOn now t fun o outbox => o.execute command now outbox
    return (c, s, events)
  | .executeIf t expression command => do
    let (c, events) ← c.runOn now t fun o outbox => o.executeIf expression command now outbox
    return (c, s, events)
  | .reading id power isOn =>
    if (c.module? id).isSome then pure (c.updateModule id (·.update power isOn), s, [])
    else do
      Logged.warn (.unknownModule id)
      return (c, s, [])
  | .offline id => pure (c.updateModule id (·.markOffline), s, [])
  | .gridChanged up => pure ({ c with unit := c.unit.setGrid up }, s, [])
  | .updateSettings settings => match settings.check with
    | .ok () => pure ({ c with settings := settings }, s, [])
    | .error e => do
      Logged.warn (.settingsRejected e)
      return (c, s, [])
  | .saveRules => do
    let (ok, s) ← c.saveAll s
    return (c, s, if ok then [.rulesSaved] else [])

end Controller
end GridRules
