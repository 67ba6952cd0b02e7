import GridRules.Action
import GridRules.RuleText
import GridRules.Settings
import GridRules.Wire.Format

/-! Binary formats of what is stored: rules, patches, settings and actions. A choice is written
as its number. -/
namespace GridRules.Wire

/-- The number of a choice. -/
def choice : Format Nat := natural 5 UInt32.size

def ruleText : Format RuleText :=
  (int32.pair (text.pair text)).map (fun (p, e, c) => ⟨p, e, c⟩)
    fun r => (r.priority, r.expression, r.command)

def rules : Format (List RuleText) := ruleText.list

def tags : Format (List String) := text.list

def patchMode : Format PatchMode where
  write
    | .replace => choice.write 0
    | .append => choice.write 1
  read bytes := do
    match ← choice.read bytes with
    | (0, rest) => some (.replace, rest)
    | (1, rest) => some (.append, rest)
    | _ => none

def patch : Format RulePatch :=
  (patchMode.pair rules).map (fun (m, rs) => ⟨m, rs⟩) fun p => (p.mode, p.rules)

def settings : Format Settings :=
  (uint32.pair (uint16.pair (byte.pair uint32))).map (fun (i, r, m, t) => ⟨i, r, m, t⟩)
    fun s => (s.reasonInterval, s.maxRules, s.maxModules, s.telemetryInterval)

def action : Format Action where
  write
    | .switch m on => choice.write 0 ++ (byte.pair bool).write (m, on)
    | .notify m => choice.write 1 ++ text.write m
    | .restart => choice.write 2
    | .delay s => choice.write 3 ++ uint32.write s
  read bytes := do
    match ← choice.read bytes with
    | (0, rest) => (byte.pair bool).read rest |>.map fun ((m, on), rest) => (.switch m on, rest)
    | (1, rest) => (text.read rest).map fun (m, rest) => (.notify m, rest)
    | (2, rest) => some (.restart, rest)
    | (3, rest) => (uint32.read rest).map fun (s, rest) => (.delay s, rest)
    | _ => none

end GridRules.Wire
