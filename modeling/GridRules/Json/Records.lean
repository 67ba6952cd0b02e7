import GridRules.Action
import GridRules.Json.Tree
import GridRules.RuleText
import GridRules.Settings

/-! JSON forms of rules, patches, settings and actions. A record is read from an object, or from
an array of its fields in order; members that are not fields are ignored. -/
namespace GridRules.Json

namespace Tree

def ofInt (i : Int) : Tree := .integer (i < 0) i.natAbs

def ofString (s : String) : Tree := .string (some s)

def ofMembers (ms : List (String × Tree)) : Tree := .object (ms.map fun (k, t) => (some k, t))

/-- A whole number; minus zero is none. -/
def int? : Tree → Option Int
  | .integer false n => some n
  | .integer true n => if n = 0 then none else some (-n)
  | _ => none

/-- A whole number below `bound`. -/
def natBelow? (bound : Nat) (t : Tree) : Option Nat := do
  let i ← t.int?
  if 0 ≤ i ∧ i < bound then some i.toNat else none

def int32? (t : Tree) : Option Int32 := do
  let i ← t.int?
  if (Int32.ofInt i).toInt = i then some (Int32.ofInt i) else none

def uint32? (t : Tree) : Option UInt32 := (t.natBelow? UInt32.size).map UInt32.ofNat

def uint16? (t : Tree) : Option UInt16 := (t.natBelow? UInt16.size).map UInt16.ofNat

def uint8? (t : Tree) : Option UInt8 := (t.natBelow? UInt8.size).map UInt8.ofNat

def bool? : Tree → Option Bool
  | .bool b => some b
  | _ => none

def string? : Tree → Option String
  | .string s => s
  | _ => none

def list? {α : Type} (item : Tree → Option α) : Tree → Option (List α)
  | .array ts => ts.mapM item
  | _ => none

/-- The fields of these names, each with its value if it is there. Every key must have a text,
and no field may be given twice. -/
def fields? (names : List String) : Tree → Option (List (Option Tree))
  | .array ts =>
    if ts.length ≤ names.length then
      some (ts.map some ++ List.replicate (names.length - ts.length) none)
    else none
  | .object ms =>
    if ms.all (·.1.isSome) ∧ names.all (fun n => ms.countP (·.1 = some n) ≤ 1) then
      some (names.map fun n => ms.lookup (some n))
    else none
  | _ => none

/-- A choice: its name and what it carries. A choice that carries nothing may be the name
alone. -/
def choice? : Tree → Option (String × Option Tree)
  | .string s => s.map (·, none)
  | .object [(some k, t)] => some (k, some t)
  | _ => none

end Tree

open GridRules.Json.Tree

def ruleText? (t : Tree) : Option RuleText := do
  match ← t.fields? ["priority", "expression", "command"] with
  | [some p, some e, some c] => some ⟨← p.int32?, ← e.string?, ← c.string?⟩
  | _ => none

def ofRuleText (r : RuleText) : Tree :=
  ofMembers [("priority", ofInt r.priority.toInt), ("expression", ofString r.expression),
    ("command", ofString r.command)]

def ofRules (rs : List RuleText) : Tree := .array (rs.map ofRuleText)

def rules? : Tree → Option (List RuleText) := list? ruleText?

def unit? : Option Tree → Option Unit
  | none | some .null => some ()
  | _ => none

def patchMode? (t : Tree) : Option PatchMode := do
  match ← t.choice? with
  | ("replace", u) => (unit? u).map fun _ => .replace
  | ("append", u) => (unit? u).map fun _ => .append
  | _ => none

def ofPatchMode : PatchMode → Tree
  | .replace => ofString "replace"
  | .append => ofString "append"

/-- A patch that does not say how is one that replaces. -/
def patch? (t : Tree) : Option RulePatch := do
  match ← t.fields? ["mode", "rules"] with
  | [none, some rs] => some ⟨.replace, ← rules? rs⟩
  | [some m, some rs] => some ⟨← patchMode? m, ← rules? rs⟩
  | _ => none

def ofPatch (p : RulePatch) : Tree :=
  ofMembers [("mode", ofPatchMode p.mode), ("rules", ofRules p.rules)]

def settings? (t : Tree) : Option Settings := do
  match ← t.fields? ["reason_interval_ms", "max_rules_per_engine", "max_modules",
    "telemetry_interval_secs"] with
  | [some i, some r, some m, some s] => some ⟨← i.uint32?, ← r.uint16?, ← m.uint8?, ← s.uint32?⟩
  | _ => none

def ofSettings (s : Settings) : Tree :=
  ofMembers [("reason_interval_ms", ofInt s.reasonInterval.toNat),
    ("max_rules_per_engine", ofInt s.maxRules.toNat), ("max_modules", ofInt s.maxModules.toNat),
    ("telemetry_interval_secs", ofInt s.telemetryInterval.toNat)]

def action? (t : Tree) : Option Action := do
  match ← t.choice? with
  | ("SwitchModule", some f) => match ← f.fields? ["module", "on"] with
    | [some m, some on] => some (.switch (← m.uint8?) (← on.bool?))
    | _ => none
  | ("Notify", some f) => match ← f.fields? ["message"] with
    | [some m] => some (.notify (← m.string?))
    | _ => none
  | ("Restart", u) => (unit? u).map fun _ => .restart
  | ("Delay", some f) => match ← f.fields? ["secs"] with
    | [some s] => some (.delay (← s.uint32?))
    | _ => none
  | _ => none

def ofAction : Action → Tree
  | .switch m on =>
    ofMembers [("SwitchModule", ofMembers [("module", ofInt m.toNat), ("on", .bool on)])]
  | .notify m => ofMembers [("Notify", ofMembers [("message", ofString m)])]
  | .restart => ofString "Restart"
  | .delay s => ofMembers [("Delay", ofMembers [("secs", ofInt s.toNat)])]

def tags? : Tree → Option (List String) := list? string?

def ofTags (ts : List String) : Tree := .array (ts.map ofString)

end GridRules.Json

namespace GridRules

/-- A patch as it is sent from outside. -/
def RulePatch.ofJson (payload : String) : Except Fault RulePatch :=
  match Json.Tree.ofText? payload >>= Json.patch? with
  | some p => .ok p
  | none => .error (.decode "rule update")

end GridRules
