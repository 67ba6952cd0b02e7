/-! Who owns a set of rules: the unit itself or one of its modules. -/
namespace GridRules

inductive Target where
  | unit
  | module (id : UInt8)
  deriving DecidableEq

/-- The name of an owner in messages, and of its part of the store. -/
def Target.text : Target → String
  | .unit => "unit"
  | .module id => "mod" ++ id.toNat.repr

end GridRules
