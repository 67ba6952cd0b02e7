import GridRules.Warning
import GridRules.Wire.Records

/-! The store: blobs under the name of a space and a key. -/
namespace GridRules

/-- What the controller needs of a store. A write that fails may still change the store's state,
but no blob. -/
class BlobStore (S : Type) where
  read : S → (space key : String) → Logged (Except StoreFault Wire.Bytes)
  write : S → (space key : String) → Wire.Bytes → Logged (Except StoreFault Unit × S)

/-- The largest blob, in bytes. -/
def blobLimit : Nat := 4000

structure Store where
  blobs : Table Wire.Bytes

namespace Store

def empty : Store := ⟨Table.empty⟩

/-- Names have one to fifteen bytes. -/
def isName (name : String) : Bool := name ≠ "" && name.utf8ByteSize ≤ 15

/-- The first of two names that is none. -/
def invalidName? (space key : String) : Option String := [space, key].find? (!isName ·)

/-- A blob lies under one name made of both. -/
def place (space key : String) : String := space ++ "::" ++ key

/-- Does something with two names if both are names. -/
def withNames {α : Type} (space key : String) (act : Except StoreFault α) :
    Logged (Except StoreFault α) :=
  match invalidName? space key with
  | some name => do
    Logged.warn (.invalidName name)
    return .error .io
  | none => pure act

/-- The blob, if it fits into `room` bytes. -/
def read (s : Store) (space key : String) (room : Nat) : Logged (Except StoreFault Wire.Bytes) :=
  withNames space key <| match s.blobs.get? (place space key) with
    | none => .error .notFound
    | some bytes => if room < bytes.length then .error .corrupted else .ok bytes

def write (s : Store) (space key : String) (bytes : Wire.Bytes) :
    Logged (Except StoreFault Store) :=
  withNames space key <|
    if blobLimit < bytes.length then .error .full
    else .ok ⟨s.blobs.put (place space key) bytes⟩

def delete (s : Store) (space key : String) : Logged (Except StoreFault Store) :=
  withNames space key (.ok ⟨s.blobs.erase (place space key)⟩)

def contains (s : Store) (space key : String) : Logged Bool :=
  match invalidName? space key with
  | some name => do
    Logged.warn (.invalidName name)
    return false
  | none => pure (s.blobs.contains (place space key))

/-- The store after a result that may hold a new one. -/
def after (s : Store) : Except StoreFault Store → Except StoreFault Unit × Store
  | .ok s => (.ok (), s)
  | .error e => (.error e, s)

instance : BlobStore Store where
  read s space key := s.read space key blobLimit
  write s space key bytes := do return s.after (← s.write space key bytes)

def settingsSpace : String := "powerctl"

def settingsKey : String := "syscfg"

def decodeSettings (bytes : Wire.Bytes) : Except ConfigFault Settings :=
  match Wire.settings.decode bytes with
  | none => .error .corrupted
  | some c => c.check.map fun _ => c

/-- The stored settings if they are valid; without any stored the initial ones. -/
def loadSettings (s : Store) : Logged (Except ConfigFault Settings) := do
  match ← s.read settingsSpace settingsKey blobLimit with
  | .ok bytes => return decodeSettings bytes
  | .error .notFound => return .ok .initial
  | .error .corrupted => return .error .corrupted
  | .error e =>
    Logged.warn (.settingsUnread e)
    return .ok .initial

/-- Only valid settings are stored. -/
def saveSettings (s : Store) (c : Settings) : Except ConfigFault Store :=
  c.check.map fun _ =>
    ⟨s.blobs.put (place settingsSpace settingsKey) (Wire.settings.write c)⟩

end Store

/-- A store whose reads can be made to fail, and its writes after some more of them. -/
structure FaultyStore where
  store : Store
  readFault : Option StoreFault
  writeFault : Option StoreFault
  allowed : Nat
  written : Nat

namespace FaultyStore

def ofStore (s : Store) : FaultyStore := ⟨s, none, none, 0, 0⟩

def read (s : FaultyStore) (space key : String) (room : Nat) :
    Logged (Except StoreFault Wire.Bytes) :=
  match s.readFault with
  | some e => pure (.error e)
  | none => s.store.read space key room

/-- The fault that the next write meets. -/
def nextFault (s : FaultyStore) : Option StoreFault :=
  if s.allowed = 0 then s.writeFault else none

def write (s : FaultyStore) (space key : String) (bytes : Wire.Bytes) :
    Logged (Except StoreFault Unit × FaultyStore) :=
  match s.nextFault with
  | some e => pure (.error e, s)
  | none => do
    let s := { s with allowed := s.allowed - 1 }
    match ← s.store.write space key bytes with
    | .ok store => return (.ok (), { s with store := store, written := s.written + 1 })
    | .error e => return (.error e, s)

instance : BlobStore FaultyStore where
  read s space key := s.read space key blobLimit
  write := write

end FaultyStore
end GridRules
