import GridRules.Store

/-! Rules and tags in a store. -/
namespace GridRules.Archive
variable {S : Type} [BlobStore S]

def rulesKey : String := "rules"

def tagsKey : String := "tags"

/-- Writes a blob, unless it is larger than the store takes. -/
def save (s : S) (space key : String) (bytes : Wire.Bytes) : Logged (Except Fault Unit × S) :=
  if blobLimit < bytes.length then pure (.error (.ofStore .full), s)
  else do
    let (r, s) ← BlobStore.write s space key bytes
    return (r.mapError .ofStore, s)

/-- Reads a list; it is empty if nothing is stored. -/
def load {α : Type} (f : Wire.Format (List α)) (what : String) (s : S) (space key : String) :
    Logged (Except Fault (List α)) := do
  match ← BlobStore.read s space key with
  | .error .notFound => return .ok []
  | .error e => return .error (.ofStore e)
  | .ok bytes => match f.decode bytes with
    | some as => return .ok as
    | none =>
      Logged.warn (.blobCorrupted space key)
      return .error (.decode what)

def saveRules (s : S) (space : String) (rs : List RuleText) : Logged (Except Fault Unit × S) :=
  save s space rulesKey (Wire.rules.write rs)

def loadRules (s : S) (space : String) : Logged (Except Fault (List RuleText)) :=
  load Wire.rules "stored rules" s space rulesKey

def saveTags (s : S) (space : String) (ts : List String) : Logged (Except Fault Unit × S) :=
  save s space tagsKey (Wire.tags.write ts)

def loadTags (s : S) (space : String) : Logged (Except Fault (List String)) :=
  load Wire.tags "stored tags" s space tagsKey

end GridRules.Archive
