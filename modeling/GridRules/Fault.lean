/-! What can go wrong, and the text that says so. Syntax faults arise when a text is loaded,
evaluation faults when a condition is run. -/
namespace GridRules

namespace SyntaxFault

inductive Cause where
  | unterminatedString
  | unterminatedArray
  | unexpected (c : Char)
  | malformedOperator
  | malformedNumber
  | unbalancedParentheses
  | malformedCommand
  deriving DecidableEq, Repr

def Cause.message : Cause → String
  | .unterminatedString => "unterminated string literal"
  | .unterminatedArray => "unterminated array literal"
  | .unexpected c => "unexpected character '" ++ String.singleton c ++ "'"
  | .malformedOperator => "malformed operator"
  | .malformedNumber => "malformed numeric literal"
  | .unbalancedParentheses => "unbalanced parentheses"
  | .malformedCommand => "malformed command"

end SyntaxFault

/-- The offset counts the bytes before the fault in the UTF-8 form of the text. -/
structure SyntaxFault where
  cause : SyntaxFault.Cause
  offset : Nat
  deriving DecidableEq, Repr

namespace SyntaxFault

def message (e : SyntaxFault) : String := e.cause.message ++ " at offset " ++ e.offset.repr

/-- The same fault in a text with `n` bytes more in front. -/
def shift (n : Nat) (e : SyntaxFault) : SyntaxFault := ⟨e.cause, n + e.offset⟩

end SyntaxFault

inductive EvalFault where
  | unbalanced
  | stringOperator (op : String)
  | arrayComparison (op : String)
  | typeMismatch (lexeme : String)
  | divisionByZero
  deriving DecidableEq, Repr

def EvalFault.message : EvalFault → String
  | .unbalanced => "unbalanced expression"
  | .stringOperator op => "operator '" ++ op ++ "' is not supported on strings"
  | .arrayComparison op => "unknown array comparison '" ++ op ++ "'"
  | .typeMismatch lexeme => "type mismatch at '" ++ lexeme ++ "'"
  | .divisionByZero => "division by zero"

inductive StoreFault where
  | notFound
  | full
  | io
  | corrupted
  deriving DecidableEq, Repr

def StoreFault.message : StoreFault → String
  | .notFound => "key not found"
  | .full => "storage full"
  | .io => "I/O error"
  | .corrupted => "corrupted blob"

inductive ConfigFault where
  | notFound
  | corrupted
  | invalid (reason : String)
  | storageFull
  | io
  deriving DecidableEq, Repr

def ConfigFault.message : ConfigFault → String
  | .notFound => "config not found"
  | .corrupted => "config corrupted"
  | .invalid reason => "validation failed: " ++ reason
  | .storageFull => "storage full"
  | .io => "I/O error"

/-- The faults that a caller of the controller sees. -/
inductive Fault where
  | syntactic (e : SyntaxFault)
  | evaluation (e : EvalFault)
  | unknownFunction (name : String)
  | callback (reason : String)
  | ruleLimit (limit : Nat)
  | config (reason : String)
  | storage (reason : String)
  | decode (what : String)
  deriving DecidableEq, Repr

namespace Fault

def message : Fault → String
  | .syntactic e => "syntax: " ++ e.message
  | .evaluation e => "evaluation: " ++ e.message
  | .unknownFunction name => "unknown function '" ++ name ++ "'"
  | .callback reason => "callback: " ++ reason
  | .ruleLimit limit => "rule limit of " ++ limit.repr ++ " reached"
  | .config reason => "config: " ++ reason
  | .storage reason => "storage: " ++ reason
  | .decode what => "could not decode " ++ what

def ofConfig : ConfigFault → Fault
  | .invalid reason => .config reason
  | .notFound => .config "not found"
  | .corrupted => .config "corrupted"
  | .storageFull => .config "storage full"
  | .io => .config "I/O error"

def ofStore (e : StoreFault) : Fault := .storage e.message

end Fault
end GridRules
