import GridRules.Action
import GridRules.Command
import GridRules.Target
import GridRules.Text.Escaped

/-! Warnings, and results that come with the warnings given on the way to them. -/
namespace GridRules

/-- An action with its parts named. -/
def Action.describe : Action → String
  | .switch m on =>
    "SwitchModule \x7b module: " ++ m.toNat.repr ++ ", on: " ++
      (if on then "true" else "false") ++ " \x7d"
  | .notify m => "Notify \x7b message: " ++ Text.escaped m ++ " \x7d"
  | .restart => "Restart"
  | .delay s => "Delay \x7b secs: " ++ s.toNat.repr ++ " \x7d"

inductive Warning where
  | ruleRejected (engine expression : String) (e : SyntaxFault)
  | unboundName (engine expression name : String)
  | ruleNotEvaluated (engine : String) (index : Nat) (expression : String) (e : EvalFault)
  | commandUnsuccessful (c : Command)
  | commandFailed (c : Command) (e : Fault)
  | outboxFull (a : Action)
  | blobCorrupted (space key : String)
  | invalidName (name : String)
  | settingsUnread (e : StoreFault)
  | restoreFailed (owner : Target) (e : Fault)
  | saveFailed (e : Fault)
  | noRuleTarget (t : Target)
  | noTagTarget (t : Target)
  | unknownModule (id : UInt8)
  | settingsRejected (e : ConfigFault)
  deriving DecidableEq

namespace Warning

def message : Warning → String
  | .ruleRejected engine expression e =>
    "[" ++ engine ++ "] rejected rule '" ++ expression ++ "': " ++ e.message
  | .unboundName engine expression name =>
    "[" ++ engine ++ "] rule '" ++ expression ++ "' references unbound identifier '" ++ name ++
      "'"
  | .ruleNotEvaluated engine index expression e =>
    "[" ++ engine ++ "] rule #" ++ index.repr ++ " '" ++ expression ++ "' not evaluated: " ++
      e.message
  | .commandUnsuccessful c => "Executor: " ++ c.text ++ " reported failure"
  | .commandFailed c e => "Executor: " ++ c.text ++ " failed: " ++ e.message
  | .outboxFull a => "ActionQueue: full, dropping " ++ a.describe
  | .blobCorrupted space key => "Rules: corrupted blob '" ++ space ++ "::" ++ key ++ "'"
  | .invalidName name => "NvsAdapter: invalid name '" ++ name ++ "'"
  | .settingsUnread e => "NvsAdapter: config read error (" ++ e.message ++ "), using defaults"
  | .restoreFailed owner e =>
    "AppService: restore of " ++ owner.text ++ " failed: " ++ e.message
  | .saveFailed e => "Rule save failed: " ++ e.message
  | .noRuleTarget t => "UpdateRules: no such target " ++ t.text
  | .noTagTarget t => "SetTags: no such target " ++ t.text
  | .unknownModule id => "ModuleReading: unknown module " ++ id.toNat.repr
  | .settingsRejected e => "UpdateConfig rejected: " ++ e.message

end Warning

/-- A result and the warnings given on the way to it, in order. -/
structure Logged (α : Type) where
  value : α
  warnings : List Warning

namespace Logged
variable {α β : Type}

instance : Monad Logged where
  pure a := ⟨a, []⟩
  bind x f :=
    let y := f x.value
    ⟨y.value, x.warnings ++ y.warnings⟩

def warn (w : Warning) : Logged Unit := ⟨(), [w]⟩

def warnAll (ws : List Warning) : Logged Unit := ⟨(), ws⟩

@[simp] theorem value_pure (a : α) : (pure a : Logged α).value = a := rfl

@[simp] theorem warnings_pure (a : α) : (pure a : Logged α).warnings = [] := rfl

@[simp] theorem value_bind (x : Logged α) (f : α → Logged β) :
    (x >>= f).value = (f x.value).value := rfl

@[simp] theorem warnings_bind (x : Logged α) (f : α → Logged β) :
    (x >>= f).warnings = x.warnings ++ (f x.value).warnings := rfl

@[simp] theorem value_warn (w : Warning) : (warn w).value = () := rfl

@[simp] theorem warnings_warn (w : Warning) : (warn w).warnings = [w] := rfl

@[simp] theorem value_warnAll (ws : List Warning) : (warnAll ws).value = () := rfl

@[simp] theorem warnings_warnAll (ws : List Warning) : (warnAll ws).warnings = ws := rfl

end Logged
end GridRules
