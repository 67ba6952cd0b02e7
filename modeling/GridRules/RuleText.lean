/-! The source form of rules: what is stored and what is sent to the controller. -/
namespace GridRules

structure RuleText where
  priority : Int32
  expression : String
  command : String
  deriving DecidableEq

/-- Whether a patch discards the rules that are there. -/
inductive PatchMode where
  | replace
  | append
  deriving DecidableEq

structure RulePatch where
  mode : PatchMode
  rules : List RuleText
  deriving DecidableEq

end GridRules
