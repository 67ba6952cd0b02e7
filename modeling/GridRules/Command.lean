import GridRules.Expression

/-! Commands `name(argument, ...)` with semicolons between them. The tokens are read by a machine
that knows what may come next; a command is given out when the token after it ends it. -/
namespace GridRules

structure Command where
  name : String
  arguments : List (List Token)
  deriving DecidableEq, Repr

namespace Command

/-- What has been read of the current command. -/
inductive Stage where
  | idle
  | named (name : String)
  | inside (name : String) (groups : List (List Token)) (group : List Token)
  | closed (c : Command)

def malformed : SyntaxFault := ⟨.malformedCommand, 0⟩

def isSemicolon (t : Token) : Bool := t.kind = .separator ∧ t.lexeme = ";"

/-- A group may be missing only where the argument list is empty. -/
def closeList (name : String) (groups : List (List Token)) (group : List Token) :
    Except SyntaxFault Stage :=
  if group = [] then
    if groups = [] then .ok (.closed ⟨name, []⟩) else .error malformed
  else .ok (.closed ⟨name, groups ++ [group]⟩)

/-- The stage after one token, and the command that the token ends. -/
def Stage.next (t : Token) : Stage → Except SyntaxFault (Option Command × Stage)
  | .idle =>
    if isSemicolon t then .ok (none, .idle)
    else if t.kind = .identifier then .ok (none, .named t.lexeme)
    else .error malformed
  | .named name =>
    if t.kind = .leftParen then .ok (none, .inside name [] [])
    else if isSemicolon t then .ok (some ⟨name, []⟩, .idle)
    else .error malformed
  | .inside name groups group => match t.kind with
    | .rightParen => (closeList name groups group).map (none, ·)
    | .leftParen => .error malformed
    | .separator =>
      if t.lexeme = "," ∧ group ≠ [] then .ok (none, .inside name (groups ++ [group]) [])
      else .error malformed
    | _ => .ok (none, .inside name groups (group ++ [t]))
  | .closed c => if isSemicolon t then .ok (some c, .idle) else .error malformed

/-- The command that the end of the tokens ends. -/
def Stage.finish : Stage → Except SyntaxFault (List Command)
  | .idle => .ok []
  | .named name => .ok [⟨name, []⟩]
  | .inside _ _ _ => .error Token.unbalanced
  | .closed c => .ok [c]

def separateFrom (stage : Stage) : List Token → Except SyntaxFault (List Command)
  | [] => stage.finish
  | t :: ts => do
    let (ended, next) ← stage.next t
    let rest ← separateFrom next ts
    return ended.toList ++ rest

def separate (ts : List Token) : Except SyntaxFault (List Command) := separateFrom .idle ts

def parse (text : String) : Except SyntaxFault (List Command) := Token.tokenize text >>= separate

def text (c : Command) : String :=
  c.name ++ "(" ++ ", ".intercalate (c.arguments.map Token.join) ++ ")"

/-- An argument as a number: its tokens are an expression. -/
def argument (c : Command) (i : Nat) (s : Scope) : Except Fault Float :=
  match c.arguments[i]? with
  | none => .error (.callback "missing argument")
  | some group => Expression.ofTokens group s

def groupText (s : Scope) : List Token → String
  | [t] =>
    if t.kind = .string then Text.unquote t.lexeme
    else if t.kind = .identifier ∧ s.isBound t.lexeme then s.read .string t.lexeme
    else t.lexeme
  | group => Token.join group

/-- An argument as text: a lone string without its quotes, a lone bound name by its value, and
all else by its lexemes. -/
def argumentText (c : Command) (i : Nat) (s : Scope) : Option String :=
  c.arguments[i]?.map (groupText s)

end Command
end GridRules
