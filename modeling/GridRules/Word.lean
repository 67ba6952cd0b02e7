/-! Whole numbers that fit into a word of 64 bits, signed or not. -/
namespace GridRules.Word

def signed? (i : Int) : Option Int64 :=
  if (Int64.ofInt i).toInt = i then some (Int64.ofInt i) else none

def unsigned? (i : Int) : Option UInt64 :=
  if 0 ≤ i ∧ i < UInt64.size then some (UInt64.ofNat i.toNat) else none

theorem signed?_toInt (v : Int64) : signed? v.toInt = some v := by
  simp [signed?]

theorem unsigned?_toNat (v : UInt64) : unsigned? v.toNat = some v := by
  have h : (v.toNat : Int) < UInt64.size := by exact_mod_cast v.toNat_lt_size
  simpa [unsigned?] using h

end GridRules.Word
