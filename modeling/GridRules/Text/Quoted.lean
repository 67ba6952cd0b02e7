/-! Double quotes around a text. Reading a string literal takes off one surrounding pair. -/
namespace GridRules.Text

/-- The text between two characters that must stand at its ends. -/
def between? (opening closing : Char) (cs : List Char) : Option (List Char) :=
  match cs with
  | [] => none
  | c :: rest => if c = opening ∧ rest.getLast? = some closing then some rest.dropLast else none

/-- Takes off one pair of double quotes; a text without the pair stays as it is. -/
def unquote (s : String) : String :=
  match between? '"' '"' s.toList with
  | some inner => String.ofList inner
  | none => s

def quote (s : String) : String := "\"" ++ s ++ "\""

theorem between?_wrap (a b : Char) (cs : List Char) :
    between? a b (a :: (cs ++ [b])) = some cs := by
  simp [between?]

theorem unquote_quote (s : String) : unquote (quote s) = s := by
  have h : (quote s).toList = '"' :: (s.toList ++ ['"']) := by simp [quote]
  simp [unquote, h, between?_wrap]

end GridRules.Text
