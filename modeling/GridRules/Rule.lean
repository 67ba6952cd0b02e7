import GridRules.Command
import GridRules.RuleText

/-! Rules. A rule is parsed once; what is kept of its texts is what parsing them gives. -/
namespace GridRules

structure Rule where
  source : RuleText
  condition : List Token
  tokens : List Token
  commands : List Command
  condition_eq : Token.compile source.expression = .ok condition
  tokens_eq : Token.tokenize source.command = .ok tokens
  commands_eq : Command.separate tokens = .ok commands

namespace Rule

/-- The condition is parsed before the command. -/
def parse (t : RuleText) : Except SyntaxFault Rule :=
  match hc : Token.compile t.expression with
  | .error e => .error e
  | .ok condition => match ht : Token.tokenize t.command with
    | .error e => .error e
    | .ok tokens => match hs : Command.separate tokens with
      | .error e => .error e
      | .ok commands => .ok ⟨t, condition, tokens, commands, hc, ht, hs⟩

def priority (r : Rule) : Int32 := r.source.priority

def holds (r : Rule) (s : Scope) : Except EvalFault Bool := Evaluate.holds s r.condition

/-- The names in the condition that stand for nothing, once for each time they occur. -/
def unboundNames (r : Rule) (bound : String → Bool) : List String :=
  (r.condition.filter fun t => t.kind = .identifier ∧ !bound t.lexeme).map (·.lexeme)

/-- A rule is determined by its source. -/
theorem eq_of_source_eq {r r' : Rule} (h : r.source = r'.source) : r = r' := by
  obtain ⟨t, c, ts, cs, hc, ht, hs⟩ := r
  obtain ⟨t', c', ts', cs', hc', ht', hs'⟩ := r'
  subst h
  cases hc.symm.trans hc'
  cases ht.symm.trans ht'
  cases hs.symm.trans hs'
  rfl

end Rule
end GridRules
