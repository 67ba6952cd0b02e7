import GridRules.Text.Unseen

/-! A text in quotes with its special characters escaped, for messages that show exactly what a
text holds. -/
namespace GridRules.Text

def escape (c : Char) : String :=
  if c = '"' then "\\\""
  else if c = '\\' then "\\\\"
  else if c = '\n' then "\\n"
  else if c = '\r' then "\\r"
  else if c = '\t' then "\\t"
  else if c = '\x00' then "\\0"
  else if isUnseen c then "\\u\x7b" ++ String.ofList (Nat.toDigits 16 c.toNat) ++ "\x7d"
  else String.singleton c

def escaped (s : String) : String := "\"" ++ String.join (s.toList.map escape) ++ "\""

end GridRules.Text
