import GridRules.Engine

/-! What the controller tells the outside, and the journal line that says it. -/
namespace GridRules

structure Telemetry where
  totalPower : Float
  gridUp : Bool
  modulesOnline : UInt64
  modulesTotal : Nat
  rulesTotal : Nat
  ticks : UInt64

inductive Event where
  | started (modules : Nat)
  | rulesUpdated (target : Target) (loaded rejected : Nat)
  | ruleRejected (target : Target) (index : Nat) (e : Fault)
  | rulesSaved
  | action (a : Action)
  | tickCompleted (target : Target) (report : TickReport)
  | executed (target : Target) (result : Except Fault Bool)
  | telemetry (t : Telemetry)

namespace Journal

inductive Level where
  | debug
  | info
  | warn
  deriving DecidableEq

def Level.text : Level → String
  | .debug => "DEBUG"
  | .info => "INFO"
  | .warn => "WARN"

structure Line where
  level : Level
  message : String
  deriving DecidableEq

def Line.text (l : Line) : String := l.level.text ++ " " ++ l.message

def bool (b : Bool) : String := if b then "true" else "false"

def places (ns : List Nat) : String := "[" ++ ", ".intercalate (ns.map Nat.repr) ++ "]"

def tier : Option Int32 → String
  | none => "None"
  | some p => "Some(" ++ Decimal.integerText p.toInt ++ ")"

def action : Action → String
  | .switch m on =>
    "ACTION | module " ++ m.toNat.repr ++ " -> " ++ (if on then "ON" else "OFF")
  | .notify m => "ACTION | notify \"" ++ m ++ "\""
  | .restart => "ACTION | restart"
  | .delay s => "ACTION | delay " ++ s.toNat.repr ++ "s"

def telemetry (t : Telemetry) : String :=
  "TELEM | P=" ++ Decimal.wholeText t.totalPower ++ "W | grid=" ++
    (if t.gridUp then "UP" else "DOWN") ++ " | modules=" ++ t.modulesOnline.toNat.repr ++ "/" ++
    t.modulesTotal.repr ++ " | rules=" ++ t.rulesTotal.repr ++ " | ticks=" ++ t.ticks.toNat.repr

/-- The one line that an event writes. -/
def line : Event → Line
  | .started n => ⟨.info, "START | modules=" ++ n.repr⟩
  | .rulesUpdated t loaded rejected =>
    ⟨.info, "RULES | " ++ t.text ++ " loaded=" ++ loaded.repr ++ " rejected=" ++ rejected.repr⟩
  | .ruleRejected t i e =>
    ⟨.warn, "RULES | " ++ t.text ++ " record #" ++ i.repr ++ " rejected: " ++ e.message⟩
  | .rulesSaved => ⟨.info, "RULES | saved"⟩
  | .action a => ⟨.info, action a⟩
  | .tickCompleted t r =>
    ⟨.debug, "TICK | " ++ t.text ++ " matched=" ++ places r.matched ++ " tier=" ++ tier r.tier ++
      " executed=" ++ places r.executed ++ " errors=" ++ r.errors.repr ++ " ok=" ++
      bool r.success⟩
  | .executed t (.ok b) => ⟨.info, "EXEC | " ++ t.text ++ " ok=" ++ bool b⟩
  | .executed t (.error e) => ⟨.warn, "EXEC | " ++ t.text ++ " failed: " ++ e.message⟩
  | .telemetry t => ⟨.info, telemetry t⟩

end Journal
end GridRules
