import GridRules.Proofs.Rejoin

/-! Scanning on. Where a blank, a parenthesis or a separator comes after a text, the tokens of the
text are the same as if it ended there, and the scan goes on behind them. Where a text begins in
its source is no matter for its tokens. -/
namespace GridRules.Token
open Text (isBlank)

/-- Characters with which no token goes on. -/
def IsStop (c : Char) : Prop := isBlank c = true ∨ c ∈ ['(', ')', ',', ';']

/-- Nothing, or a character first with which no token goes on. -/
def Stops (rest : List Char) : Prop := ∀ c ∈ rest.head?, IsStop c

theorem toNat_of_isBlank {c : Char} (h : isBlank c = true) : c.toNat ≤ 32 ∨ 133 ≤ c.toNat := by
  simp only [isBlank, Bool.or_eq_true, Bool.and_eq_true, decide_eq_true_eq, beq_iff_eq] at h
  omega

theorem toNat_of_isNumberChar {c : Char} (h : isNumberChar c = true) :
    46 ≤ c.toNat ∧ c.toNat ≤ 57 := by
  unfold isNumberChar Char.isDigit at h
  simp only [Bool.and_eq_true, decide_eq_true_eq, ge_iff_le, UInt32.le_iff_toNat_le] at h
  rcases h with h | rfl
  · have hnine : '9'.val.toNat = 57 := rfl
    have hzero : '0'.val.toNat = 48 := rfl
    have hval : c.toNat = c.val.toNat := rfl
    omega
  · decide

theorem toNat_of_isNameChar {c : Char} (h : isNameChar c = true) :
    48 ≤ c.toNat ∧ c.toNat ≤ 122 := by
  unfold isNameChar Char.isAlphanum Char.isAlpha Char.isUpper Char.isLower Char.isDigit at h
  simp only [Bool.or_eq_true, Bool.and_eq_true, decide_eq_true_eq, ge_iff_le,
    UInt32.le_iff_toNat_le] at h
  rcases h with h | rfl
  · have hA : 'A'.val.toNat = 65 := rfl
    have hZ : 'Z'.val.toNat = 90 := rfl
    have ha : 'a'.val.toNat = 97 := rfl
    have hz : 'z'.val.toNat = 122 := rfl
    have hnine : '9'.val.toNat = 57 := rfl
    have hzero : '0'.val.toNat = 48 := rfl
    have hval : c.toNat = c.val.toNat := rfl
    omega
  · decide

theorem isNumberChar_blank {c : Char} (h : isBlank c = true) : isNumberChar c = false := by
  rw [Bool.eq_false_iff]
  intro hc
  have hblank := toNat_of_isBlank h
  have hrange := toNat_of_isNumberChar hc
  omega

theorem not_isBlank_of_isNumberChar {c : Char} (h : isNumberChar c = true) : isBlank c = false := by
  rw [Bool.eq_false_iff]
  intro hblank
  rw [isNumberChar_blank hblank] at h
  cases h

theorem isNumberChar_of_isDigit {c : Char} (h : c.isDigit = true) : isNumberChar c = true := by
  simp [isNumberChar, h]

theorem isNameChar_blank {c : Char} (h : isBlank c = true) : isNameChar c = false := by
  rw [Bool.eq_false_iff]
  intro hc
  have hblank := toNat_of_isBlank h
  have hrange := toNat_of_isNameChar hc
  omega

theorem stops_cons {c : Char} (h : IsStop c) (rest : List Char) : Stops (c :: rest) :=
  fun _ hd => Option.some.inj hd ▸ h

theorem isNumberChar_stop {c : Char} (h : IsStop c) : isNumberChar c = false := by
  obtain h | h := h
  · exact isNumberChar_blank h
  · simp only [List.mem_cons, List.not_mem_nil, or_false] at h
    obtain rfl | rfl | rfl | rfl := h <;> rfl

theorem isNameChar_stop {c : Char} (h : IsStop c) : isNameChar c = false := by
  obtain h | h := h
  · exact isNameChar_blank h
  · simp only [List.mem_cons, List.not_mem_nil, or_false] at h
    obtain rfl | rfl | rfl | rfl := h <;> rfl

theorem takeWhile_append_of_head? {p : Char → Bool} {rest : List Char}
    (h : ∀ c ∈ rest.head?, p c = false) (cs : List Char) :
    (cs ++ rest).takeWhile p = cs.takeWhile p := by
  rw [List.takeWhile_append, takeWhile_eq_nil h, List.append_nil]
  split
  · rename_i hall
    exact ((List.takeWhile_sublist p).eq_of_length hall).symm
  · rfl

theorem takeWhile_append_stops {p : Char → Bool} (hp : ∀ c, IsStop c → p c = false)
    {rest : List Char} (hr : Stops rest) (cs : List Char) :
    (cs ++ rest).takeWhile p = cs.takeWhile p :=
  takeWhile_append_of_head? (fun c hc => hp c (hr c hc)) cs

variable {check : List Char → Except SyntaxFault Unit} {last : Option TokenKind} {c : Char}
  {cs : List Char} {p : Piece}

/-- A piece that lies within the characters at hand, and that is the same piece if others follow
them. -/
def Piece.Holds (p : Piece) (cs : List Char) (cut : List Char → Except SyntaxFault Piece) : Prop :=
  p.more ≤ cs.length ∧ ∀ rest, Stops rest → cut (cs ++ rest) = .ok p

theorem length_takeWhile_le (p : Char → Bool) (cs : List Char) :
    (cs.takeWhile p).length ≤ cs.length :=
  (List.takeWhile_sublist p).length_le

theorem holds_numberPiece (h : numberPiece c cs = .ok p) : p.Holds cs (numberPiece c) := by
  have hrun := length_takeWhile_le isNumberChar cs
  simp only [numberPiece] at h
  split at h
  · rename_i hn
    cases h
    refine ⟨hrun, fun rest hr => ?_⟩
    simp only [numberPiece, takeWhile_append_stops (fun _ => isNumberChar_stop) hr, if_pos hn]
  · cases h

theorem holds_minusPiece (last : Option TokenKind) (cs : List Char) :
    (minusPiece last cs).Holds cs fun cs => .ok (minusPiece last cs) := by
  have hrun := length_takeWhile_le isNumberChar cs
  refine ⟨?_, fun rest hr => ?_⟩
  · simp only [minusPiece]
    split
    · exact hrun
    · exact Nat.zero_le _
  · simp only [minusPiece, takeWhile_append_stops (fun _ => isNumberChar_stop) hr]

theorem holds_stringPiece (h : stringPiece cs = .ok p) : p.Holds cs stringPiece := by
  simp only [stringPiece] at h
  split at h
  · rename_i hlt
    obtain ⟨body, more, rfl, hbody, hrun⟩ := exists_quote hlt
    rw [hrun] at h
    cases h
    refine ⟨by simp, fun rest _ => ?_⟩
    rw [List.append_assoc, List.cons_append]
    exact stringPiece_body (more ++ rest) hbody
  · cases h

theorem holds_comparisonPiece {alone : Except SyntaxFault Piece}
    (halone : alone = .ok p → p.more = 0) (h : comparisonPiece alone cs = .ok p) :
    p.Holds cs (comparisonPiece alone) := by
  cases cs with
  | nil =>
    have hp : alone = .ok p := h
    refine ⟨Nat.le_of_eq (halone hp), fun rest hr => ?_⟩
    rw [List.nil_append]
    unfold comparisonPiece
    split
    · exact absurd (hr '=' rfl) (by simp [IsStop, isBlank])
    · exact hp
  | cons d cs =>
    have hle : p.more ≤ (d :: cs).length := by
      obtain ⟨more, -, rfl⟩ | hp := comparisonPiece_cases h
      · simp
      · simp [halone hp]
    refine ⟨hle, fun rest _ => ?_⟩
    rw [← h, List.cons_append]
    unfold comparisonPiece
    split <;> simp_all

theorem holds_arrayPiece (h : arrayPiece check cs = .ok p) : p.Holds cs (arrayPiece check) := by
  unfold arrayPiece at h
  split at h
  · cases h
  rename_i body hbody
  split at h
  · cases h
  rename_i hcheck
  cases h
  obtain ⟨more, rfl, henc⟩ := exists_of_arrayBody hbody
  refine ⟨by simp, fun rest _ => ?_⟩
  rw [List.append_assoc, List.cons_append]
  simp only [arrayPiece, arrayBody_enclosed 1 (more ++ rest) henc, hcheck]

theorem holds_double {d : Char} {e : SyntaxFault}
    (h : (if cs.head? = some d then Except.ok ⟨.boolean, 1⟩ else Except.error e) = .ok p) :
    p.Holds cs fun cs =>
      if cs.head? = some d then Except.ok ⟨.boolean, 1⟩ else Except.error e := by
  split at h
  · rename_i hhead
    obtain ⟨more, rfl⟩ := List.head?_eq_some_iff.mp hhead
    cases h
    exact ⟨by simp, fun rest _ => by simp⟩
  · cases h

theorem more_of_single {kind : TokenKind}
    (h : (Except.ok ⟨kind, 0⟩ : Except SyntaxFault Piece) = .ok p) : p.more = 0 := by
  cases h
  rfl

theorem holds_piece (h : piece check last c cs = .ok p) : p.Holds cs (piece check last c) := by
  unfold piece at h
  split at h
  case h_1 | h_2 | h_3 | h_4 | h_5 | h_15 | h_16 | h_17 | h_18 =>
    cases h
    exact ⟨Nat.zero_le _, fun _ _ => rfl⟩
  case h_6 =>
    cases h
    exact holds_minusPiece last cs
  case h_7 | h_8 => exact holds_double h
  case h_9 | h_10 | h_11 => exact holds_comparisonPiece more_of_single h
  case h_12 => exact holds_comparisonPiece (fun h => nomatch h) h
  case h_13 => exact holds_arrayPiece h
  case h_14 => exact holds_stringPiece h
  case h_19 =>
    have hpiece (cs : List Char) : piece check last c cs =
        if isNumberChar c then numberPiece c cs
        else if isNameStart c then .ok ⟨.identifier, (cs.takeWhile isNameChar).length⟩
        else .error ⟨.unexpected c, 0⟩ := by
      unfold piece
      split
      case h_19 => rfl
      all_goals contradiction
    simp only [Piece.Holds, hpiece]
    split at h
    · rename_i hn
      simpa only [if_pos hn, Piece.Holds] using holds_numberPiece h
    · rename_i hn
      split at h
      · rename_i hs
        cases h
        refine ⟨length_takeWhile_le isNameChar cs, fun rest hr => ?_⟩
        rw [if_neg hn, if_pos hs, takeWhile_append_stops (fun _ => isNameChar_stop) hr]
      · cases h

theorem piece_blank (check : List Char → Except SyntaxFault Unit) (last : Option TokenKind)
    (h : isBlank c = true) (cs : List Char) : piece check last c cs = .error ⟨.unexpected c, 0⟩ := by
  have hstart : isNameStart c = false := by
    rw [Bool.eq_false_iff]
    intro hc
    have hname := isNameChar_blank h
    simp_all [isNameStart, isNameChar, Char.isAlphanum]
  unfold piece
  split
  case h_19 => simp [isNumberChar_blank h, hstart]
  all_goals exact absurd h (by decide)

/-! Whole scans. -/

theorem byteLength_append (cs ds : List Char) :
    byteLength (cs ++ ds) = byteLength cs + byteLength ds := by
  induction cs with
  | nil => simp [byteLength]
  | cons c cs ih => simp [byteLength, ih, Nat.add_assoc]

theorem utf8Size_gap (h : isGap c = true) : c.utf8Size = 1 := by
  obtain rfl | rfl | rfl | rfl := gap_cases h <;> rfl

/-- The scan goes on behind the tokens of a text. -/
theorem scan_append {offset : Nat} {ts : List Token} (h : scan check offset last cs = .ok ts)
    {rest : List Char} (hr : Stops rest) :
    ∃ last', scan check offset last (cs ++ rest) =
      (scan check (offset + byteLength cs) last' rest).map (ts ++ ·) := by
  induction offset, last, cs using scan.induct check generalizing ts with
  | case1 offset last =>
    rw [scan_nil] at h
    cases h
    refine ⟨last, ?_⟩
    show scan check offset last rest = (scan check offset last rest).map id
    exact (LawfulFunctor.id_map _).symm
  | case2 offset last c cs hg ih =>
    rw [scan_gap check offset last cs hg] at h
    obtain ⟨last', hscan⟩ := ih h
    refine ⟨last', ?_⟩
    rw [List.cons_append, scan_gap check offset last _ hg, hscan, byteLength, utf8Size_gap hg,
      Nat.add_assoc]
  | case3 offset last c cs hg e hp =>
    rw [scan_error check offset last (by simpa using hg) hp] at h
    cases h
  | case4 offset last c cs hg p hp lexeme =>
    rename_i ih
    have hgap : isGap c = false := by simpa using hg
    rw [scan_piece check offset last hgap hp] at h
    obtain ⟨us, hus, rfl⟩ := Outcome.map_eq_ok_iff.mp h
    obtain ⟨last', hscan⟩ := ih hus
    obtain ⟨hle, hpiece⟩ := holds_piece hp
    have htake : (cs ++ rest).take p.more = cs.take p.more := List.take_append_of_le_length hle
    have hdrop : (cs ++ rest).drop p.more = cs.drop p.more ++ rest :=
      List.drop_append_of_le_length hle
    have hbytes : byteLength (c :: cs.take p.more) + byteLength (cs.drop p.more) =
        byteLength (c :: cs) := by
      rw [← byteLength_append, List.cons_append, List.take_append_drop]
    refine ⟨last', ?_⟩
    rw [List.cons_append, scan_piece check offset last hgap (hpiece rest hr), htake, hdrop, hscan,
      Nat.add_assoc, hbytes]
    cases scan check (offset + byteLength (c :: cs)) last' rest with
    | error e => rfl
    | ok vs => simp [Piece.token, htake]

/-- The tokens are the same wherever the text begins. -/
theorem scan_offset {offset : Nat} {ts : List Token} (h : scan check offset last cs = .ok ts)
    (offset' : Nat) : scan check offset' last cs = .ok ts := by
  induction offset, last, cs using scan.induct check generalizing ts offset' with
  | case1 =>
    rw [scan_nil] at h
    rw [scan_nil, h]
  | case2 offset last c cs hg ih =>
    rw [scan_gap check offset last cs hg] at h
    rw [scan_gap check offset' last cs hg, ih h]
  | case3 offset last c cs hg e hp =>
    rw [scan_error check offset last (by simpa using hg) hp] at h
    cases h
  | case4 offset last c cs hg p hp lexeme =>
    rename_i ih
    have hgap : isGap c = false := by simpa using hg
    rw [scan_piece check offset last hgap hp] at h
    obtain ⟨us, hus, rfl⟩ := Outcome.map_eq_ok_iff.mp h
    rw [scan_piece check offset' last hgap hp, ih hus, Outcome.map_ok]

theorem scan_stray (h : isBlank c = true) (hg : isGap c = false) (offset : Nat)
    (last : Option TokenKind) (cs : List Char) :
    scan check offset last (c :: cs) = .error ⟨.unexpected c, offset⟩ := by
  rw [scan_error check offset last hg (piece_blank check last h cs)]
  rfl

variable (check) in
/-- Blanks are passed over if all of them are gaps; the first that is none ends the scan. -/
theorem scan_blanks {blanks : List Char} (h : ∀ c ∈ blanks, isBlank c = true) (offset : Nat)
    (last : Option TokenKind) (cs : List Char) :
    scan check offset last (blanks ++ cs) = match blanks.find? (!isGap ·) with
      | none => scan check (offset + blanks.length) last cs
      | some c => .error ⟨.unexpected c, offset + (blanks.takeWhile isGap).length⟩ := by
  induction blanks generalizing offset with
  | nil => rfl
  | cons c blanks ih =>
    obtain ⟨hc, hblanks⟩ := List.forall_mem_cons.mp h
    cases hg : isGap c with
    | true =>
      rw [List.cons_append, scan_gap check offset last _ hg, ih hblanks]
      simp [hg, Nat.add_assoc, Nat.add_comm 1]
    | false =>
      rw [List.cons_append, scan_stray hc hg]
      simp [hg]

end GridRules.Token
