import GridRules.Proofs.Wire

/-! Which values a format reads back. Counts are numbers of 64 bits: a list or a text that is too
long for its count is refused by the reader, and every other value is read back, whatever bytes
follow it. -/
namespace GridRules
namespace Wire

theorem capacity_pos (groups : Nat) : 0 < capacity groups := by
  induction groups with
  | zero => decide
  | succ groups ih =>
    rw [capacity]
    omega

theorem readGroups_writeGroups_of_capacity_le {limit n : Nat} (h : capacity limit ≤ n)
    (rest : Bytes) : readGroups limit (writeGroups n ++ rest) = none := by
  induction limit generalizing n with
  | zero => rw [readGroups]; simp
  | succ limit ih =>
    rw [capacity] at h
    have hpos := capacity_pos limit
    have hn : ¬ n < 128 := by omega
    have hdiv : capacity limit ≤ n / 128 := by omega
    have hbyte : (UInt8.ofNat (n % 128 + 128)).toNat = n % 128 + 128 :=
      UInt8.toNat_ofNat_of_lt' (show n % 128 + 128 < 256 by omega)
    have hlarge : ¬ n % 128 + 128 < 128 := by omega
    rw [writeGroups, if_neg hn]
    simp only [List.cons_append, readGroups, hbyte, if_neg hlarge, ih hdiv, Option.map_none]

theorem natural_refuses {limit size n : Nat} (h : size ≤ n) (rest : Bytes) :
    (natural (limit + 1) size).read (writeGroups n ++ rest) = none := by
  by_cases hn : n < capacity (limit + 1)
  · simp [natural, readGroups_writeGroups hn, Nat.not_lt.mpr h]
  · simp [natural, readGroups_writeGroups_of_capacity_le (Nat.le_of_not_lt hn)]

namespace Format
variable {α β : Type} {f : Format α} {g : Format β} {P : α → Prop} {Q : β → Prop}

/-- A format that reads back the values that fit, and refuses what it writes for the others. -/
structure Exact (f : Format α) (Fits : α → Prop) : Prop where
  reads {a : α} : Fits a → f.Reads a
  refuses {a : α} : ¬ Fits a → ∀ rest, f.read (f.write a ++ rest) = none

theorem Exact.decode_iff (hf : f.Exact P) (a : α) (rest : Bytes) :
    f.decode (f.write a ++ rest) = some a ↔ P a := by
  by_cases ha : P a
  · simp [(hf.reads ha).decode rest, ha]
  · simp [Format.decode, hf.refuses ha rest, ha]

theorem Exact.congr {Q : α → Prop} (hf : f.Exact P) (h : ∀ a, P a ↔ Q a) : f.Exact Q where
  reads ha := hf.reads ((h _).mpr ha)
  refuses ha := hf.refuses fun hP => ha ((h _).mp hP)

theorem Exact.map (hf : f.Exact P) {forth : α → β} {back : β → α} (h : ∀ b, forth (back b) = b) :
    (f.map forth back).Exact fun b => P (back b) where
  reads hb := (hf.reads hb).map (h _)
  refuses hb rest := by simp [Format.map, hf.refuses hb rest]

theorem Exact.pair (hf : f.Exact P) (hg : g.Exact Q) :
    (f.pair g).Exact fun ab => P ab.1 ∧ Q ab.2 where
  reads hab := (hf.reads hab.1).pair (hg.reads hab.2)
  refuses {ab} hab rest := by
    obtain ⟨a, b⟩ := ab
    by_cases ha : P a
    · have hb : ¬ Q b := fun hb => hab ⟨ha, hb⟩
      simp [Format.pair, hf.reads ha (g.write b ++ rest), hg.refuses hb rest]
    · simp [Format.pair, hf.refuses ha (g.write b ++ rest)]

theorem Exact.readMany_refuses (hf : f.Exact P) {as : List α} (h : ¬ ∀ a ∈ as, P a)
    (rest : Bytes) : f.readMany as.length (as.flatMap f.write ++ rest) = none := by
  induction as with
  | nil => exact absurd (by simp) h
  | cons a as ih =>
    by_cases ha : P a
    · have has : ¬ ∀ a ∈ as, P a := fun has => h (List.forall_mem_cons.mpr ⟨ha, has⟩)
      simp [readMany, hf.reads ha (as.flatMap f.write ++ rest), ih has]
    · simp [readMany, hf.refuses ha (as.flatMap f.write ++ rest)]

theorem Exact.list (hf : f.Exact P) :
    f.list.Exact fun as => as.length < UInt64.size ∧ ∀ a ∈ as, P a where
  reads h := Reads.list h.1 fun a ha => hf.reads (h.2 a ha)
  refuses {as} h rest := by
    by_cases hlen : as.length < UInt64.size
    · have has : ¬ ∀ a ∈ as, P a := fun has => h ⟨hlen, has⟩
      simp [Format.list, reads_count hlen (as.flatMap f.write ++ rest),
        hf.readMany_refuses has rest]
    · have hcount : count.read (count.write as.length ++ (as.flatMap f.write ++ rest)) = none :=
        natural_refuses (Nat.le_of_not_lt hlen) _
      simp [Format.list, hcount]

/-- A format that reads back every value. -/
theorem exact_of_reads (h : ∀ a, f.Reads a) : f.Exact fun _ => True where
  reads {a} _ := h a
  refuses ha := absurd trivial ha

end Format

/-! The records. -/

theorem exact_text : text.Exact fun s => s.utf8ByteSize < UInt64.size where
  reads h := reads_text h
  refuses {s} h rest := by
    have hcount : count.read (count.write s.utf8ByteSize ++ (s.toByteArray.data.toList ++ rest)) =
        none := natural_refuses (Nat.le_of_not_lt h) _
    simp [text, hcount]

theorem reads_uint16 (n : UInt16) : uint16.Reads n :=
  Format.Reads.map (f := natural 3 UInt16.size) (reads_natural (by decide) n.toNat_lt) (by simp)

theorem reads_uint32 (n : UInt32) : uint32.Reads n :=
  Format.Reads.map (f := natural 5 UInt32.size) (reads_natural (by decide) n.toNat_lt) (by simp)

theorem reads_byte (b : UInt8) : byte.Reads b := fun _ => rfl

theorem reads_bool (b : Bool) : bool.Reads b := by
  intro rest
  cases b <;> rfl

theorem read_choice {n : Nat} (h : n < UInt32.size) (rest : Bytes) :
    choice.read (choice.write n ++ rest) = some (n, rest) :=
  reads_natural (by decide) h rest

theorem reads_settings (s : Settings) : settings.Reads s :=
  Format.Reads.map
    ((reads_uint32 _).pair ((reads_uint16 _).pair ((reads_byte _).pair (reads_uint32 _)))) rfl

theorem reads_patchMode (m : PatchMode) : patchMode.Reads m := by
  intro rest
  cases m with
  | replace => simp [patchMode, read_choice (n := 0) (by decide)]
  | append => simp [patchMode, read_choice (n := 1) (by decide)]

end Wire

/-- The number of bytes in each of the rule's texts is a number of 64 bits. -/
def RuleText.IsCountable (r : RuleText) : Prop :=
  r.expression.utf8ByteSize < UInt64.size ∧ r.command.utf8ByteSize < UInt64.size

/-- The number of rules is one of 64 bits as well. -/
def RuleText.AreCountable (rs : List RuleText) : Prop :=
  rs.length < UInt64.size ∧ ∀ r ∈ rs, r.IsCountable

/-- The number of bytes in the action's text, if it has one, is a number of 64 bits. -/
def Action.IsCountable : Action → Prop
  | .notify m => m.utf8ByteSize < UInt64.size
  | _ => True

namespace Wire

theorem exact_ruleText : ruleText.Exact RuleText.IsCountable :=
  (((Format.exact_of_reads reads_int32).pair (exact_text.pair exact_text)).map fun _ => rfl).congr
    fun _ => and_iff_right trivial

theorem exact_rules : rules.Exact RuleText.AreCountable := exact_ruleText.list

theorem exact_tags :
    tags.Exact fun ts => ts.length < UInt64.size ∧ ∀ t ∈ ts, t.utf8ByteSize < UInt64.size :=
  exact_text.list

theorem exact_patch : patch.Exact fun p => RuleText.AreCountable p.rules :=
  (((Format.exact_of_reads reads_patchMode).pair exact_rules).map fun _ => rfl).congr
    fun _ => and_iff_right trivial

theorem exact_action : action.Exact Action.IsCountable where
  reads {a} h rest := by
    cases a with
    | switch m on =>
      simp [action, read_choice (n := 0) (by decide),
        ((reads_byte m).pair (reads_bool on)) rest]
    | notify m => simp [action, read_choice (n := 1) (by decide), reads_text h rest]
    | restart => simp [action, read_choice (n := 2) (by decide)]
    | delay s => simp [action, read_choice (n := 3) (by decide), reads_uint32 s rest]
  refuses {a} h rest := by
    cases a with
    | notify m => simp [action, read_choice (n := 1) (by decide), exact_text.refuses h rest]
    | _ => exact absurd trivial h

end Wire
end GridRules
