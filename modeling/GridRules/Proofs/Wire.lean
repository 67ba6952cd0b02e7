import GridRules.Wire.Records

/-! What a format writes it reads back, with any bytes behind it. Counts are numbers of 64 bits,
so this is said of values that take fewer bytes than such a count can tell. -/
namespace GridRules.Wire

/-! Numbers. -/

/-- How many numbers some groups can tell apart. -/
def capacity : Nat → Nat
  | 0 => 1
  | groups + 1 => 128 * capacity groups

theorem writeGroups_ne_nil (n : Nat) : writeGroups n ≠ [] := by
  rw [writeGroups]
  split <;> simp

theorem readGroups_writeGroups {limit n : Nat} (h : n < capacity (limit + 1)) (rest : Bytes) :
    readGroups (limit + 1) (writeGroups n ++ rest) = some (n, rest) := by
  induction limit generalizing n with
  | zero =>
    have hn : n < 128 := by simpa [capacity] using h
    simp [writeGroups, readGroups, hn, Nat.mod_eq_of_lt (show n < 256 by omega)]
  | succ limit ih =>
    rw [writeGroups]
    split
    · rename_i hn
      simp [readGroups, hn, Nat.mod_eq_of_lt (show n < 256 by omega)]
    · rename_i hn
      have hbyte : (UInt8.ofNat (n % 128 + 128)).toNat = n % 128 + 128 :=
        UInt8.toNat_ofNat_of_lt' (show n % 128 + 128 < 256 by omega)
      have hdiv : n / 128 < capacity (limit + 1) := by
        rw [capacity] at h
        omega
      have hlarge : ¬ n % 128 + 128 < 128 := by omega
      have hsum : n % 128 + 128 - 128 + 128 * (n / 128) = n := by omega
      simp only [List.cons_append, readGroups, hbyte, if_neg hlarge, ih hdiv, Option.map_some,
        hsum]

theorem reads_natural {limit size n : Nat} (hsize : size ≤ capacity (limit + 1)) (h : n < size) :
    (natural (limit + 1) size).Reads n := by
  intro rest
  simp [natural, readGroups_writeGroups (Nat.lt_of_lt_of_le h hsize), h]

theorem reads_count {n : Nat} (h : n < UInt64.size) : count.Reads n :=
  reads_natural (by decide) h

namespace Format
variable {α β : Type} {f : Format α} {g : Format β}

theorem Reads.decode {a : α} (h : f.Reads a) (rest : Bytes) :
    f.decode (f.write a ++ rest) = some a := by
  simp [Format.decode, h rest]

theorem Reads.map {forth : α → β} {back : β → α} {b : β} (h : f.Reads (back b))
    (hback : forth (back b) = b) : (f.map forth back).Reads b := by
  intro rest
  simp [Format.map, h rest, hback]

theorem Reads.pair {a : α} {b : β} (hf : f.Reads a) (hg : g.Reads b) :
    (f.pair g).Reads (a, b) := by
  intro rest
  simp [Format.pair, hf (g.write b ++ rest), hg rest]

theorem readMany_flatMap {as : List α} (h : ∀ a ∈ as, f.Reads a) (rest : Bytes) :
    f.readMany as.length (as.flatMap f.write ++ rest) = some (as, rest) := by
  induction as with
  | nil => rfl
  | cons a as ih =>
    have ha := h a (List.mem_cons_self ..) (as.flatMap f.write ++ rest)
    have has := ih fun a ha => h a (List.mem_cons_of_mem _ ha)
    simp [readMany, ha, has]

theorem Reads.list {as : List α} (hlen : as.length < UInt64.size) (h : ∀ a ∈ as, f.Reads a) :
    f.list.Reads as := by
  intro rest
  simp [Format.list, reads_count hlen (as.flatMap f.write ++ rest), readMany_flatMap h]

/-- A format that writes something for every value, and reads it back if it is not too long. -/
structure Faithful (f : Format α) : Prop where
  write_ne_nil (a : α) : f.write a ≠ []
  reads (a : α) : (f.write a).length < UInt64.size → f.Reads a

theorem Faithful.map (hf : f.Faithful) {forth : α → β} {back : β → α}
    (h : ∀ b, forth (back b) = b) : (f.map forth back).Faithful where
  write_ne_nil b := hf.write_ne_nil (back b)
  reads b hlen := (hf.reads (back b) hlen).map (h b)

theorem Faithful.pair (hf : f.Faithful) (hg : g.Faithful) : (f.pair g).Faithful where
  write_ne_nil ab := by simp [Format.pair, hf.write_ne_nil]
  reads ab hlen := by
    have hsum : (f.write ab.1).length + (g.write ab.2).length < UInt64.size := by
      simpa [Format.pair] using hlen
    exact (hf.reads ab.1 (by omega)).pair (hg.reads ab.2 (by omega))

theorem Faithful.length_le (hf : f.Faithful) (as : List α) :
    as.length ≤ (as.flatMap f.write).length := by
  induction as with
  | nil => exact Nat.zero_le _
  | cons a as ih =>
    have ha : 0 < (f.write a).length := List.length_pos_iff.mpr (hf.write_ne_nil a)
    simp only [List.flatMap_cons, List.length_append, List.length_cons]
    omega

theorem length_write_le {a : α} {as : List α} (h : a ∈ as) :
    (f.write a).length ≤ (as.flatMap f.write).length := by
  rw [List.flatMap_def]
  exact (List.sublist_flatten_of_mem (List.mem_map_of_mem h)).length_le

theorem Faithful.list (hf : f.Faithful) : f.list.Faithful where
  write_ne_nil as := by simp [Format.list, count, natural, writeGroups_ne_nil]
  reads as hlen := by
    have hbody : (as.flatMap f.write).length < UInt64.size := by
      simp only [Format.list, List.length_append] at hlen
      omega
    refine Reads.list (Nat.lt_of_le_of_lt (hf.length_le as) hbody) fun a ha => ?_
    exact hf.reads a (Nat.lt_of_le_of_lt (length_write_le ha) hbody)

end Format

theorem write_nil {α : Type} (f : Format α) : f.list.write [] = [0] := by
  change writeGroups 0 ++ [] = [0]
  rw [writeGroups]
  rfl

/-! What the records are made of. -/

theorem foldSign_lt (i : Int32) : foldSign i.toInt < UInt32.size := by
  have hlow := i.le_toInt
  have hhigh := i.toInt_lt
  rw [show UInt32.size = 4294967296 from rfl, foldSign]
  split <;> omega

theorem reads_int32 (i : Int32) : int32.Reads i :=
  Format.Reads.map (f := natural 5 UInt32.size) (reads_natural (by decide) (foldSign_lt i))
    (by rw [unfoldSign_foldSign, Int32.ofInt_toInt])

theorem faithful_int32 : int32.Faithful where
  write_ne_nil i := writeGroups_ne_nil (foldSign i.toInt)
  reads i _ := reads_int32 i

theorem fromUTF8?_toByteArray (s : String) :
    String.fromUTF8? ⟨s.toByteArray.data.toList.toArray⟩ = some s := by
  simp [String.fromUTF8?, String.fromUTF8, s.isValidUTF8]

theorem reads_text {s : String} (h : s.utf8ByteSize < UInt64.size) : text.Reads s := by
  intro rest
  have hbytes : s.toByteArray.data.toList.length = s.utf8ByteSize := rfl
  have hroom : ¬ (s.toByteArray.data.toList ++ rest).length < s.utf8ByteSize := by
    rw [List.length_append, hbytes]
    omega
  simp only [text, List.append_assoc, reads_count h (s.toByteArray.data.toList ++ rest),
    Option.bind_eq_bind, Option.bind_some, if_neg hroom, List.take_left' hbytes,
    List.drop_left' hbytes, fromUTF8?_toByteArray]

theorem faithful_text : text.Faithful where
  write_ne_nil s := by simp [text, count, natural, writeGroups_ne_nil]
  reads s hlen := by
    have hbytes : s.toByteArray.data.toList.length = s.utf8ByteSize := rfl
    refine reads_text ?_
    simp only [text, List.length_append, hbytes] at hlen
    omega

theorem faithful_ruleText : ruleText.Faithful :=
  (faithful_int32.pair (faithful_text.pair faithful_text)).map fun _ => rfl

end GridRules.Wire
