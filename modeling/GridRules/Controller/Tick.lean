import GridRules.Controller

/-! Ticks. The unit reasons first, then every module in order; then the actions go out up to a
delay, which holds back those behind it; at last telemetry is reported if it is due. -/
namespace GridRules.Controller

/-- The sum of two times, at most the last one there is. -/
def later (now : UInt64) (seconds : UInt32) : UInt64 :=
  UInt64.ofNat (min (now.toNat + seconds.toNat) (UInt64.size - 1))

/-- The actions before the first delay, those behind it, and when it ends. A delay of no length
is dropped. -/
def release (now : UInt64) : List Action → List Action × List Action × Option UInt64
  | [] => ([], [], none)
  | .delay seconds :: rest =>
    if seconds = 0 then release now rest else ([], rest, some (later now seconds))
  | a :: rest =>
    let (out, held, holdUntil) := release now rest
    (a :: out, held, holdUntil)

def isHolding (c : Controller) (now : UInt64) : Bool :=
  match c.holdUntil with
  | some t => now < t
  | none => false

/-- Empties the outbox; nothing goes out while a delay runs. -/
def dispatch (c : Controller) (now : UInt64) : Controller × List Event :=
  let waiting := c.held ++ c.outbox.pending
  if c.isHolding now then ({ c with held := waiting, outbox := .empty }, [])
  else
    let (out, held, holdUntil) := release now waiting
    ({ c with held := held, holdUntil := holdUntil, outbox := .empty }, out.map .action)

def onlineModules (c : Controller) : List Module := c.modules.filter (·.readings.online)

/-- The unit's totals are those of the modules that are online. -/
def refreshTotals (c : Controller) : Controller :=
  let power := c.onlineModules.foldl (fun p m => p + m.readings.power) 0
  { c with unit := c.unit.setTotals power (UInt64.ofNat c.onlineModules.length) }

/-- A report is told if some rule held or failed. -/
def tickEvents (t : Target) (r : TickReport) : List Event :=
  if r.matched.isEmpty ∧ r.errors = 0 then [] else [.tickCompleted t r]

/-- The modules reason one after the other and share the outbox. -/
def reasonModules (now : UInt64) :
    List Module → Outbox → Logged (List Event × List Module × Outbox)
  | [], outbox => pure ([], [], outbox)
  | m :: ms, outbox => do
    let (report, next, outbox) ← m.reason now outbox
    let (events, others, outbox) ← reasonModules now ms outbox
    return (tickEvents m.target report ++ events, next :: others, outbox)

/-- A clock that went back counts as one that stands still. -/
def isTelemetryDue (c : Controller) (now : UInt64) : Bool :=
  c.settings.telemetryInterval.toNat ≤ now.toNat - c.lastTelemetry.toNat

def reportTelemetry (c : Controller) (now : UInt64) : Controller × List Event :=
  if c.isTelemetryDue now then ({ c with lastTelemetry := now }, [.telemetry c.telemetry])
  else (c, [])

def tick (c : Controller) (now : UInt64) : Logged (Controller × List Event) := do
  let c := refreshTotals { c with ticks := c.ticks + 1 }
  let (report, unit, outbox) ← c.unit.reason now c.outbox
  let (moduleEvents, modules, outbox) ← reasonModules now c.modules outbox
  let c := { c with unit := unit, modules := modules, outbox := outbox }
  let (c, actions) := c.dispatch now
  let (c, telemetry) := c.reportTelemetry now
  return (c, tickEvents .unit report ++ moduleEvents ++ actions ++ telemetry)

end GridRules.Controller
