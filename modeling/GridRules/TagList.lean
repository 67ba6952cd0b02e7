import GridRules.Text.Blank

/-! Tags that operators give to the unit and to modules: trimmed texts, none of them blank and
none of them twice, in the order in which they came. -/
namespace GridRules

structure TagList where
  toList : List String
  deriving DecidableEq

namespace TagList

def empty : TagList := ⟨[]⟩

def contains (t : TagList) (tag : String) : Bool := t.toList.contains tag

/-- A text is taken in if its trimmed form is not blank and not there yet. -/
def admits (t : TagList) (text : String) : Bool :=
  Text.trimmed text ≠ "" && !t.contains (Text.trimmed text)

def add (t : TagList) (text : String) : TagList :=
  if t.admits text then ⟨t.toList ++ [Text.trimmed text]⟩ else t

/-- Takes out the tag that is exactly this text. -/
def remove (t : TagList) (tag : String) : TagList := ⟨t.toList.filter (· != tag)⟩

/-- Whether a tag is taken out: the list is shorter without it. -/
def removes (t : TagList) (tag : String) : Bool := (t.remove tag).toList.length != t.toList.length

def ofList (texts : List String) : TagList := texts.foldl add empty

end TagList
end GridRules
