import GridRules.Wire.Records

/-! What bytes can be read as. A number may be written in more bytes than it takes, so that more
bytes are read as settings than are ever written for them. -/
namespace GridRules.Wire

/-- Bytes that write a number seven bits to a byte, lowest first. All but the last one have their
high bit set. The number may be written longer than it has to be. -/
inductive Spells : Bytes → Nat → Prop
  | last {b : UInt8} (hb : b.toNat < 128) : Spells [b] b.toNat
  | more {b : UInt8} {bytes : Bytes} {n : Nat} (hb : 128 ≤ b.toNat) (h : Spells bytes n) :
    Spells (b :: bytes) (b.toNat - 128 + 128 * n)

theorem readGroups_of_spells {bytes : Bytes} {n limit : Nat} (h : Spells bytes n)
    (hlimit : bytes.length ≤ limit) (rest : Bytes) :
    readGroups limit (bytes ++ rest) = some (n, rest) := by
  induction h generalizing limit with
  | @last b hb =>
    obtain ⟨limit, rfl⟩ := Nat.exists_eq_add_of_le' hlimit
    simp [readGroups, hb]
  | @more b bytes n hb _ ih =>
    obtain ⟨limit, rfl⟩ := Nat.exists_eq_add_of_le' (Nat.le_trans (Nat.le_add_left 1 _) hlimit)
    have hrest : readGroups limit (bytes ++ rest) = some (n, rest) := ih (by simpa using hlimit)
    rw [List.cons_append, readGroups, if_neg (Nat.not_lt.mpr hb), hrest, Option.map_some]

theorem spells_of_readGroups {limit n : Nat} {bytes rest : Bytes}
    (h : readGroups limit bytes = some (n, rest)) :
    ∃ front, bytes = front ++ rest ∧ Spells front n ∧ front.length ≤ limit := by
  induction limit generalizing bytes n with
  | zero => simp [readGroups] at h
  | succ limit ih =>
    cases bytes with
    | nil => simp [readGroups] at h
    | cons b bytes =>
      rw [readGroups] at h
      split at h
      · rename_i hb
        cases h
        exact ⟨[b], rfl, .last hb, by simp⟩
      · rename_i hb
        obtain ⟨⟨m, rest'⟩, hread, heq⟩ := Option.map_eq_some_iff.mp h
        cases heq
        obtain ⟨front, rfl, hfront, hlength⟩ := ih hread
        exact ⟨b :: front, rfl, .more (Nat.le_of_not_lt hb) hfront, by simpa using hlength⟩

/-- What the format reads are the fronts of bytes that `P` tells of, each as its value. -/
def Format.Accepts {α : Type} (f : Format α) (P : α → Bytes → Prop) : Prop :=
  ∀ bytes a rest, f.read bytes = some (a, rest) ↔ ∃ front, bytes = front ++ rest ∧ P a front

theorem accepts_natural (limit size : Nat) : (natural limit size).Accepts fun n front =>
    n < size ∧ Spells front n ∧ front.length ≤ limit := by
  intro bytes n rest
  constructor
  · intro h
    obtain ⟨⟨m, rest'⟩, hread, hsize⟩ := Option.bind_eq_some_iff.mp h
    dsimp only at hsize
    split at hsize
    · rename_i hlt
      cases hsize
      obtain ⟨front, hbytes, hfront⟩ := spells_of_readGroups hread
      exact ⟨front, hbytes, hlt, hfront⟩
    · cases hsize
  · rintro ⟨front, rfl, hlt, hfront, hlength⟩
    simp [natural, readGroups_of_spells hfront hlength, hlt]

theorem accepts_byte : byte.Accepts fun b front => front = [b] := by
  intro bytes b rest
  cases bytes with
  | nil => simp [byte]
  | cons c bytes => simp [byte, eq_comm]

namespace Format
variable {α β : Type} {f : Format α} {g : Format β} {P : α → Bytes → Prop} {Q : β → Bytes → Prop}

theorem Accepts.map (hf : f.Accepts P) (forth : α → β) (back : β → α) :
    (f.map forth back).Accepts fun b front => ∃ a, forth a = b ∧ P a front := by
  intro bytes b rest
  constructor
  · intro h
    obtain ⟨⟨a, rest'⟩, hread, heq⟩ := Option.map_eq_some_iff.mp h
    cases heq
    obtain ⟨front, hbytes, hfront⟩ := (hf bytes a rest).mp hread
    exact ⟨front, hbytes, a, rfl, hfront⟩
  · rintro ⟨front, hbytes, a, rfl, hfront⟩
    simp [Format.map, (hf bytes a rest).mpr ⟨front, hbytes, hfront⟩]

theorem Accepts.pair (hf : f.Accepts P) (hg : g.Accepts Q) :
    (f.pair g).Accepts fun ab front => ∃ x y, front = x ++ y ∧ P ab.1 x ∧ Q ab.2 y := by
  intro bytes ab rest
  constructor
  · intro h
    obtain ⟨⟨a, middle⟩, hread, h⟩ := Option.bind_eq_some_iff.mp h
    obtain ⟨⟨b, rest'⟩, hread', h⟩ := Option.bind_eq_some_iff.mp h
    cases h
    obtain ⟨x, rfl, hx⟩ := (hf _ _ _).mp hread
    obtain ⟨y, rfl, hy⟩ := (hg _ _ _).mp hread'
    exact ⟨x ++ y, (List.append_assoc ..).symm, x, y, rfl, hx, hy⟩
  · rintro ⟨front, rfl, x, y, rfl, hx, hy⟩
    have hread := (hf (x ++ (y ++ rest)) ab.1 (y ++ rest)).mpr ⟨x, rfl, hx⟩
    have hread' := (hg (y ++ rest) ab.2 rest).mpr ⟨y, rfl, hy⟩
    simp [Format.pair, hread, hread']

theorem Accepts.congr {Q : α → Bytes → Prop} (hf : f.Accepts P)
    (h : ∀ a front, P a front ↔ Q a front) : f.Accepts Q := by
  intro bytes a rest
  simpa only [h] using hf bytes a rest

theorem Accepts.decode_eq_some_iff (hf : f.Accepts P) {bytes : Bytes} {a : α} :
    f.decode bytes = some a ↔ ∃ front rest, bytes = front ++ rest ∧ P a front := by
  constructor
  · intro h
    obtain ⟨⟨a, rest⟩, hread, rfl⟩ := Option.map_eq_some_iff.mp h
    obtain ⟨front, hfront⟩ := (hf _ _ _).mp hread
    exact ⟨front, rest, hfront⟩
  · rintro ⟨front, rest, hfront⟩
    rw [decode, (hf _ _ _).mpr ⟨front, hfront⟩, Option.map_some]

end Format

/-- A word is read from the bytes that write its number, in so many of them at most. -/
theorem accepts_word {α : Type} {limit size : Nat} {forth : Nat → α} {back : α → Nat}
    (hlt : ∀ a, back a < size) (hforth : ∀ a, forth (back a) = a)
    (hback : ∀ n < size, back (forth n) = n) :
    ((natural limit size).map forth back).Accepts fun a front =>
      Spells front (back a) ∧ front.length ≤ limit := by
  refine ((accepts_natural limit size).map forth back).congr fun a front => ?_
  constructor
  · rintro ⟨n, rfl, hn, hfront⟩
    rwa [hback n hn]
  · intro hfront
    exact ⟨back a, hforth a, hlt a, hfront⟩

theorem accepts_uint16 : uint16.Accepts fun v front => Spells front v.toNat ∧ front.length ≤ 3 :=
  accepts_word (fun v => v.toNat_lt_size) (fun _ => UInt16.ofNat_toNat)
    fun _ => UInt16.toNat_ofNat_of_lt'

theorem accepts_uint32 : uint32.Accepts fun v front => Spells front v.toNat ∧ front.length ≤ 5 :=
  accepts_word (fun v => v.toNat_lt_size) (fun _ => UInt32.ofNat_toNat)
    fun _ => UInt32.toNat_ofNat_of_lt'

/-- Bytes that write the four settings one after the other. Whatever follows them is ignored. -/
def SpellsSettings (bytes : Bytes) (c : Settings) : Prop :=
  ∃ reason rules telemetry rest : Bytes,
    bytes = reason ++ (rules ++ c.maxModules :: (telemetry ++ rest)) ∧
    (Spells reason c.reasonInterval.toNat ∧ reason.length ≤ 5) ∧
    (Spells rules c.maxRules.toNat ∧ rules.length ≤ 3) ∧
    Spells telemetry c.telemetryInterval.toNat ∧ telemetry.length ≤ 5

theorem decode_settings_eq_some_iff {bytes : Bytes} {c : Settings} :
    settings.decode bytes = some c ↔ SpellsSettings bytes c := by
  have haccepts : settings.Accepts _ :=
    (accepts_uint32.pair (accepts_uint16.pair (accepts_byte.pair accepts_uint32))).map _ _
  rw [haccepts.decode_eq_some_iff]
  constructor
  · rintro ⟨_, rest, rfl, ⟨i, r, m, t⟩, rfl, reason, _, rfl, hreason, rules, _, rfl, hrules, _,
      telemetry, rfl, rfl, htelemetry⟩
    exact ⟨reason, rules, telemetry, rest, by simp, hreason, hrules, htelemetry⟩
  · rintro ⟨reason, rules, telemetry, rest, rfl, hreason, hrules, htelemetry⟩
    exact ⟨reason ++ (rules ++ ([c.maxModules] ++ telemetry)), rest, by simp, ⟨_, _, _, _⟩, rfl,
      reason, _, rfl, hreason, rules, _, rfl, hrules, [c.maxModules], telemetry, rfl, rfl, htelemetry⟩

end GridRules.Wire
