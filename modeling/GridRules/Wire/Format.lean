/-! Binary formats. A format writes a value as bytes and reads one from the front of bytes,
giving back what is left. Numbers are written seven bits to a byte, lowest first. -/
namespace GridRules.Wire

abbrev Bytes := List UInt8

structure Format (α : Type) where
  write : α → Bytes
  read : Bytes → Option (α × Bytes)

/-- What is written is read back, whatever follows it. -/
def Format.Reads {α : Type} (f : Format α) (a : α) : Prop :=
  ∀ rest, f.read (f.write a ++ rest) = some (a, rest)

def writeGroups (n : Nat) : Bytes :=
  if n < 128 then [UInt8.ofNat n] else UInt8.ofNat (n % 128 + 128) :: writeGroups (n / 128)

/-- A number of at most `limit` groups. -/
def readGroups : Nat → Bytes → Option (Nat × Bytes)
  | limit + 1, b :: bytes =>
    if b.toNat < 128 then some (b.toNat, bytes)
    else (readGroups limit bytes).map fun (n, rest) => (b.toNat - 128 + 128 * n, rest)
  | _, _ => none

/-- A number below `size`, in at most `limit` groups. -/
def natural (limit size : Nat) : Format Nat where
  write := writeGroups
  read bytes := do
    let (n, rest) ← readGroups limit bytes
    if n < size then some (n, rest) else none

/-- How many items or bytes follow. -/
def count : Format Nat := natural 10 UInt64.size

namespace Format
variable {α β : Type}

def map (f : Format α) (forth : α → β) (back : β → α) : Format β where
  write b := f.write (back b)
  read bytes := (f.read bytes).map fun (a, rest) => (forth a, rest)

def pair (f : Format α) (g : Format β) : Format (α × β) where
  write ab := f.write ab.1 ++ g.write ab.2
  read bytes := do
    let (a, rest) ← f.read bytes
    let (b, rest) ← g.read rest
    some ((a, b), rest)

def readMany (f : Format α) : Nat → Bytes → Option (List α × Bytes)
  | 0, bytes => some ([], bytes)
  | n + 1, bytes => do
    let (a, rest) ← f.read bytes
    let (as, rest) ← readMany f n rest
    some (a :: as, rest)

/-- The number of items, then the items. -/
def list (f : Format α) : Format (List α) where
  write as := count.write as.length ++ as.flatMap f.write
  read bytes := do
    let (n, rest) ← count.read bytes
    f.readMany n rest

/-- A value at the front of the bytes; what follows is ignored. -/
def decode (f : Format α) (bytes : Bytes) : Option α := (f.read bytes).map (·.1)

end Format

def byte : Format UInt8 where
  write b := [b]
  read
    | [] => none
    | b :: rest => some (b, rest)

def bool : Format Bool where
  write b := [if b then 1 else 0]
  read
    | 0 :: rest => some (false, rest)
    | 1 :: rest => some (true, rest)
    | _ => none

def uint16 : Format UInt16 := (natural 3 UInt16.size).map UInt16.ofNat UInt16.toNat

def uint32 : Format UInt32 := (natural 5 UInt32.size).map UInt32.ofNat UInt32.toNat

/-- Signed numbers alternate in size: 0, -1, 1, -2, 2 are 0 to 4. -/
def foldSign (i : Int) : Nat := if 0 ≤ i then 2 * i.toNat else 2 * (-i).toNat - 1

def unfoldSign (n : Nat) : Int := if n % 2 = 0 then n / 2 else -((n + 1) / 2)

theorem unfoldSign_foldSign (i : Int) : unfoldSign (foldSign i) = i := by
  unfold unfoldSign foldSign
  split <;> split <;> omega

def int32 : Format Int32 :=
  (natural 5 UInt32.size).map (fun n => Int32.ofInt (unfoldSign n)) fun i => foldSign i.toInt

/-- The number of bytes, then the text in UTF-8. -/
def text : Format String where
  write s := count.write s.utf8ByteSize ++ s.toByteArray.data.toList
  read bytes := do
    let (n, rest) ← count.read bytes
    if rest.length < n then none
    else
      let s ← String.fromUTF8? ⟨(rest.take n).toArray⟩
      some (s, rest.drop n)

end GridRules.Wire
