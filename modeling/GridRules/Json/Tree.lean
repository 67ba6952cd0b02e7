import GridRules.Json.Lexeme

/-! JSON documents as trees. A machine with a stack of open arrays and objects reads the words of
a text one by one; the printer writes a tree without spaces. -/
namespace GridRules.Json

inductive Tree where
  | null
  | bool (b : Bool)
  | integer (negative : Bool) (n : Nat)
  | fraction
  | string (s : Option String)
  | array (items : List Tree)
  | object (members : List (Option String × Tree))

/-- An open array or object with what it holds so far, the latest first. -/
inductive Frame where
  | array (items : List Tree)
  | object (members : List (Option String × Tree)) (key : Option String)

/-- What may come next. -/
inductive State where
  | value (stack : List Frame)
  | valueOrEnd (stack : List Frame)
  | afterItem (items : List Tree) (stack : List Frame)
  | keyOrEnd (stack : List Frame)
  | nextKey (members : List (Option String × Tree)) (stack : List Frame)
  | colon (members : List (Option String × Tree)) (key : Option String) (stack : List Frame)
  | afterMember (members : List (Option String × Tree)) (stack : List Frame)
  | done (t : Tree)

/-- A value is complete: it goes into the innermost open frame. -/
def State.complete (t : Tree) : List Frame → State
  | [] => .done t
  | .array items :: stack => .afterItem (t :: items) stack
  | .object members key :: stack => .afterMember ((key, t) :: members) stack

/-- The state after the first word of a value. -/
def State.begin (stack : List Frame) : Lexeme → Option State
  | .null => some (.complete .null stack)
  | .bool b => some (.complete (.bool b) stack)
  | .integer negative n => some (.complete (.integer negative n) stack)
  | .fraction => some (.complete .fraction stack)
  | .string s => some (.complete (.string s) stack)
  | .openArray => some (.valueOrEnd stack)
  | .openObject => some (.keyOrEnd stack)
  | _ => none

def State.next (w : Lexeme) : State → Option State
  | .value stack => State.begin stack w
  | .valueOrEnd stack => match w with
    | .closeArray => some (.complete (.array []) stack)
    | w => State.begin (.array [] :: stack) w
  | .afterItem items stack => match w with
    | .comma => some (.value (.array items :: stack))
    | .closeArray => some (.complete (.array items.reverse) stack)
    | _ => none
  | .keyOrEnd stack => match w with
    | .closeObject => some (.complete (.object []) stack)
    | .string key => some (.colon [] key stack)
    | _ => none
  | .nextKey members stack => match w with
    | .string key => some (.colon members key stack)
    | _ => none
  | .colon members key stack => match w with
    | .colon => some (.value (.object members key :: stack))
    | _ => none
  | .afterMember members stack => match w with
    | .comma => some (.nextKey members stack)
    | .closeObject => some (.complete (.object members.reverse) stack)
    | _ => none
  | .done _ => none

namespace Tree

def ofLexemes? (ws : List Lexeme) : Option Tree := do
  match ← ws.foldlM (fun st w => State.next w st) (State.value []) with
  | .done t => some t
  | _ => none

/-- The one value that a text holds. -/
def ofText? (text : String) : Option Tree := lexemes? text.toList >>= ofLexemes?

def hexDigit (n : Nat) : Char := Nat.digitChar n

def escape (c : Char) : List Char :=
  if c = '"' then ['\\', '"']
  else if c = '\\' then ['\\', '\\']
  else if c = '\x08' then ['\\', 'b']
  else if c = '\x0c' then ['\\', 'f']
  else if c = '\n' then ['\\', 'n']
  else if c = '\r' then ['\\', 'r']
  else if c = '\t' then ['\\', 't']
  else if c.toNat < 0x20 then
    ['\\', 'u', '0', '0', hexDigit (c.toNat / 16), hexDigit (c.toNat % 16)]
  else [c]

def quoted (s : String) : List Char := '"' :: s.toList.flatMap escape ++ ['"']

mutual

/-- Without spaces. A fraction has no digits of its own here and is written as zero. -/
def render : Tree → List Char
  | .null => "null".toList
  | .bool b => if b then "true".toList else "false".toList
  | .integer negative n =>
    if negative then '-' :: Nat.toDigits 10 n else Nat.toDigits 10 n
  | .fraction => "0.0".toList
  | .string s => quoted (s.getD "")
  | .array items => '[' :: renderItems items ++ [']']
  | .object members => '{' :: renderMembers members ++ ['}']

def renderItems : List Tree → List Char
  | [] => []
  | [t] => render t
  | t :: ts => render t ++ ',' :: renderItems ts

def renderMembers : List (Option String × Tree) → List Char
  | [] => []
  | [(k, t)] => quoted (k.getD "") ++ ':' :: render t
  | (k, t) :: ms => quoted (k.getD "") ++ ':' :: render t ++ ',' :: renderMembers ms

end

def text (t : Tree) : String := String.ofList t.render

end Tree
end GridRules.Json
