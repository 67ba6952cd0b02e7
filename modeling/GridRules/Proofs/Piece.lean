import GridRules.Proofs.Lexeme
import GridRules.Proofs.Outcome
import Mathlib.Data.List.TakeWhile

/-! One step of the scan: what it cuts off has the shape of its kind, and whatever has such a
shape is cut off whole where a gap or the end comes after it. -/
namespace GridRules.Token

/-- The token that a piece makes of the characters it starts with. -/
def Piece.token (p : Piece) (c : Char) (cs : List Char) : Token :=
  ⟨p.kind, String.ofList (c :: cs.take p.more)⟩

/-- A token that may come after one of kind `last`. -/
def Admissible (last : Option TokenKind) (t : Token) : Prop :=
  t.Shaped ∧ (t.IsSigned → valueExpected last = true)

theorem take_takeWhile (p : Char → Bool) (cs : List Char) :
    cs.take (cs.takeWhile p).length = cs.takeWhile p :=
  (List.prefix_iff_eq_take.mp (List.takeWhile_prefix p)).symm

theorem admissible_of_kind {last : Option TokenKind} {t : Token} (h : t.Shaped)
    (hk : t.kind ≠ .numeral) : Admissible last t :=
  ⟨h, fun hs => absurd hs.1 hk⟩

theorem admissible_minusPiece (last : Option TokenKind) (cs : List Char) :
    Admissible last ((minusPiece last cs).token '-' cs) := by
  simp only [minusPiece]
  split
  · rename_i h
    obtain ⟨hv, hn⟩ := Bool.and_eq_true_iff.mp h
    have hrun : IsNumeral (cs.takeWhile isNumberChar) :=
      isNumeral_iff.mpr ⟨fun c hc => List.mem_takeWhile_imp hc, hn⟩
    refine ⟨⟨cs.takeWhile isNumberChar, hrun, .inr ?_⟩, fun _ => hv⟩
    simp [Piece.token, take_takeWhile]
  · exact admissible_of_kind (by simp [Shaped, Piece.token]) (by simp [Piece.token])

theorem admissible_numberPiece {last : Option TokenKind} {c : Char} {cs : List Char} {p : Piece}
    (hc : isNumberChar c = true) (h : numberPiece c cs = .ok p) :
    Admissible last (p.token c cs) := by
  simp only [numberPiece] at h
  split at h
  · rename_i hn
    cases h
    have hrun : IsNumeral (c :: cs.takeWhile isNumberChar) := by
      refine isNumeral_iff.mpr ⟨?_, hn⟩
      intro d hd
      obtain rfl | hd := List.mem_cons.mp hd
      · exact hc
      · exact List.mem_takeWhile_imp hd
    refine ⟨⟨c :: cs.takeWhile isNumberChar, hrun, .inl ?_⟩, fun hs => ?_⟩
    · simp [Piece.token, take_takeWhile]
    · have hminus : c = '-' := by simpa [IsSigned, Piece.token] using hs
      subst hminus
      exact absurd hc (by decide)
  · cases h

/-- A run that stops before the end stops at the first quote. -/
theorem exists_quote {cs : List Char} (h : (cs.takeWhile (· ≠ '"')).length < cs.length) :
    ∃ body rest, cs = body ++ '"' :: rest ∧ '"' ∉ body ∧ cs.takeWhile (· ≠ '"') = body := by
  have happ := List.takeWhile_append_dropWhile (p := fun c => decide (c ≠ '"')) (l := cs)
  have hhead := List.head?_dropWhile_not (fun c => decide (c ≠ '"')) cs
  cases hd : cs.dropWhile (fun c => decide (c ≠ '"')) with
  | nil =>
    rw [hd, List.append_nil] at happ
    rw [happ] at h
    exact absurd h (Nat.lt_irrefl _)
  | cons c rest =>
    rw [hd] at hhead happ
    have hc : c = '"' := by simpa using hhead
    subst hc
    refine ⟨_, rest, happ.symm, fun hmem => ?_, rfl⟩
    simpa using List.mem_takeWhile_imp hmem

theorem shaped_stringPiece {cs : List Char} {p : Piece} (h : stringPiece cs = .ok p) :
    (p.token '"' cs).Shaped ∧ p.kind = .string := by
  simp only [stringPiece] at h
  split at h
  · rename_i hlt
    obtain ⟨body, rest, hcs, hbody, hrun⟩ := exists_quote hlt
    rw [hrun] at h
    cases h
    refine ⟨⟨body, hbody, ?_⟩, rfl⟩
    simp [Piece.token, hcs, List.take_append, List.take_of_length_le]
  · cases h

theorem comparisonPiece_cases {alone : Except SyntaxFault Piece} {cs : List Char} {p : Piece}
    (h : comparisonPiece alone cs = .ok p) :
    (∃ rest, cs = '=' :: rest ∧ p = ⟨.comparison, 1⟩) ∨ alone = .ok p := by
  unfold comparisonPiece at h
  split at h
  · rename_i rest
    cases h
    exact .inl ⟨rest, rfl, rfl⟩
  · exact .inr h

theorem admissible_single (last : Option TokenKind) {kind : TokenKind} {c : Char}
    (cs : List Char) (hs : Shaped ⟨kind, String.ofList [c]⟩) (hn : kind ≠ .numeral)
    (ha : kind ≠ .array) :
    Admissible last ((⟨kind, 0⟩ : Piece).token c cs) ∧ kind ≠ .array :=
  ⟨admissible_of_kind hs hn, ha⟩

theorem admissible_pair (last : Option TokenKind) {kind : TokenKind} {c d : Char}
    (cs : List Char) (hs : Shaped ⟨kind, String.ofList [c, d]⟩) (hn : kind ≠ .numeral)
    (ha : kind ≠ .array) :
    Admissible last ((⟨kind, 1⟩ : Piece).token c (d :: cs)) ∧ kind ≠ .array :=
  ⟨admissible_of_kind hs hn, ha⟩

theorem admissible_name (last : Option TokenKind) {c : Char} (cs : List Char)
    (hc : isNameStart c = true) :
    Admissible last
      ((⟨.identifier, (cs.takeWhile isNameChar).length⟩ : Piece).token c cs) := by
  refine admissible_of_kind ⟨c, cs.takeWhile isNameChar, ⟨?_, fun d hd => ?_⟩, ?_⟩
    (by simp [Piece.token])
  · simpa [isNameStart] using hc
  · simpa [isNameChar] using List.mem_takeWhile_imp hd
  · simp [Piece.token, take_takeWhile]

/-- Whatever is cut off, an array apart, has the shape of its kind and its sign in place. -/
theorem admissible_piece {check : List Char → Except SyntaxFault Unit}
    {last : Option TokenKind} {c : Char} {cs : List Char} {p : Piece}
    (h : piece check last c cs = .ok p) (hc : c ≠ '[') :
    Admissible last (p.token c cs) ∧ p.kind ≠ .array := by
  unfold piece at h
  split at h
  -- operators of one character, parentheses and separators
  case h_1 | h_2 | h_3 | h_4 | h_5 | h_15 | h_16 | h_17 | h_18 =>
    cases h
    exact admissible_single last cs (by simp [Shaped]) (by decide) (by decide)
  case h_6 =>
    cases h
    refine ⟨admissible_minusPiece last cs, ?_⟩
    simp only [minusPiece]
    split <;> simp
  -- `&&` and `||`
  case h_7 | h_8 =>
    split at h
    · rename_i hhead
      obtain ⟨rest, rfl⟩ := List.head?_eq_some_iff.mp hhead
      cases h
      exact admissible_pair last rest (by simp [Shaped]) (by decide) (by decide)
    · cases h
  -- operators that an equals sign may follow
  case h_9 | h_10 | h_11 | h_12 =>
    obtain ⟨rest, rfl, rfl⟩ | halone := comparisonPiece_cases h
    · exact admissible_pair last rest (by simp [Shaped]) (by decide) (by decide)
    · cases halone
      all_goals exact admissible_single last cs (by simp [Shaped]) (by decide) (by decide)
  case h_13 => exact absurd rfl hc
  case h_14 =>
    obtain ⟨hs, hk⟩ := shaped_stringPiece h
    refine ⟨admissible_of_kind hs ?_, ?_⟩ <;> simp [Piece.token, hk]
  case h_19 =>
    split at h
    · rename_i hn
      refine ⟨admissible_numberPiece hn h, ?_⟩
      simp only [numberPiece] at h
      split at h
      · cases h
        simp
      · cases h
    · split at h
      · rename_i hn
        cases h
        exact ⟨admissible_name last cs hn, by simp⟩
      · cases h

/-- Nothing, or a gap first. -/
def Ends (rest : List Char) : Prop := ∀ c ∈ rest.head?, isGap c = true

theorem gap_cases {c : Char} (h : isGap c = true) : c = ' ' ∨ c = '\t' ∨ c = '\r' ∨ c = '\n' := by
  simpa [isGap] using h

theorem takeWhile_eq_nil {p : Char → Bool} {rest : List Char}
    (h : ∀ c ∈ rest.head?, p c = false) : rest.takeWhile p = [] := by
  cases rest with
  | nil => rfl
  | cons c rest => simp [h c rfl]

theorem takeWhile_append_ends {p : Char → Bool} {w rest : List Char}
    (hp : ∀ c, isGap c = true → p c = false) (hw : ∀ c ∈ w, p c = true) (hr : Ends rest) :
    (w ++ rest).takeWhile p = w := by
  rw [List.takeWhile_append_of_pos hw, takeWhile_eq_nil fun c hc => hp c (hr c hc),
    List.append_nil]

theorem isNumberChar_gap (c : Char) (h : isGap c = true) : isNumberChar c = false := by
  obtain rfl | rfl | rfl | rfl := gap_cases h <;> decide

theorem isNameChar_gap (c : Char) (h : isGap c = true) : isNameChar c = false := by
  obtain rfl | rfl | rfl | rfl := gap_cases h <;> decide

theorem comparisonPiece_ends (alone : Except SyntaxFault Piece) {rest : List Char}
    (hr : Ends rest) : comparisonPiece alone rest = alone := by
  unfold comparisonPiece
  split
  · exact absurd (hr '=' rfl) (by decide)
  · rfl

theorem minusPiece_ends (last : Option TokenKind) {rest : List Char} (hr : Ends rest) :
    minusPiece last rest = ⟨.arithmetic, 0⟩ := by
  have hrun : rest.takeWhile isNumberChar = [] :=
    takeWhile_append_ends (w := []) isNumberChar_gap (by simp) hr
  simp [minusPiece, hrun, isNumber]

theorem minusPiece_numeral {last : Option TokenKind} {run rest : List Char}
    (hn : IsNumeral run) (hv : valueExpected last = true) (hr : Ends rest) :
    minusPiece last (run ++ rest) = ⟨.numeral, run.length⟩ := by
  obtain ⟨hchars, hrun⟩ := isNumeral_iff.mp hn
  simp [minusPiece, takeWhile_append_ends isNumberChar_gap hchars hr, hv, hrun]

theorem piece_numeral (check : List Char → Except SyntaxFault Unit) (last : Option TokenKind)
    {c : Char} {w rest : List Char} (hn : IsNumeral (c :: w)) (hr : Ends rest) :
    piece check last c (w ++ rest) = .ok ⟨.numeral, w.length⟩ := by
  obtain ⟨hchars, hrun⟩ := isNumeral_iff.mp hn
  have hc := hchars c (by simp)
  have hw : (w ++ rest).takeWhile isNumberChar = w :=
    takeWhile_append_ends isNumberChar_gap (fun d hd => hchars d (by simp [hd])) hr
  unfold piece
  split
  case h_19 => simp [hc, numberPiece, hw, hrun]
  all_goals exact absurd hc (by decide)

theorem isDigit_of_isAlpha {c : Char} (h : c.isAlpha = true) : c.isDigit = false := by
  unfold Char.isAlpha Char.isUpper Char.isLower at h
  unfold Char.isDigit
  simp only [Bool.or_eq_true, Bool.and_eq_true, decide_eq_true_eq, ge_iff_le,
    UInt32.le_iff_toNat_le, Bool.and_eq_false_iff, decide_eq_false_iff_not] at h ⊢
  have hA : 'A'.val.toNat = 65 := rfl
  have ha : 'a'.val.toNat = 97 := rfl
  have h9 : '9'.val.toNat = 57 := rfl
  omega

theorem isNumberChar_name {c : Char} (h : isNameStart c = true) : isNumberChar c = false := by
  simp only [isNameStart, decide_eq_true_eq] at h
  obtain h | rfl := h
  · have hdot : c ≠ '.' := by
      rintro rfl
      exact absurd h (by decide)
    simp [isNumberChar, isDigit_of_isAlpha h, hdot]
  · decide

theorem piece_name (check : List Char → Except SyntaxFault Unit) (last : Option TokenKind)
    {c : Char} {w rest : List Char} (hn : IsName c w) (hr : Ends rest) :
    piece check last c (w ++ rest) = .ok ⟨.identifier, w.length⟩ := by
  have hc : isNameStart c = true := by simpa [isNameStart] using hn.first
  have hw : (w ++ rest).takeWhile isNameChar = w :=
    takeWhile_append_ends isNameChar_gap (fun d hd => by simpa [isNameChar] using hn.others d hd) hr
  unfold piece
  split
  case h_19 => simp [isNumberChar_name hc, hc, hw]
  all_goals exact absurd hc (by decide)

theorem stringPiece_body {body : List Char} (rest : List Char) (hb : '"' ∉ body) :
    stringPiece (body ++ '"' :: rest) = .ok ⟨.string, body.length + 1⟩ := by
  have hrun : (body ++ '"' :: rest).takeWhile (· ≠ '"') = body := by
    rw [List.takeWhile_append_of_pos]
    · simp
    · intro c hc
      simpa using fun h : c = '"' => hb (h ▸ hc)
  simp only [stringPiece, hrun]
  simp

theorem not_isGap {p : Char → Bool} {c : Char} (hp : ∀ c, isGap c = true → p c = false)
    (h : p c = true) : isGap c = false := by
  by_contra hg
  rw [hp c (by simpa using hg)] at h
  cases h

/-- A lexeme is cut off whole where a gap or the end comes after it, whatever stands before. -/
theorem piece_shaped (check : List Char → Except SyntaxFault Unit) {last : Option TokenKind}
    {t : Token} {rest : List Char} (ht : Admissible last t) (ha : t.kind ≠ .array)
    (hr : Ends rest) :
    ∃ c w, t.lexeme = String.ofList (c :: w) ∧ isGap c = false ∧
      piece check last c (w ++ rest) = .ok ⟨t.kind, w.length⟩ := by
  obtain ⟨kind, lexeme⟩ := t
  obtain ⟨hs, hv⟩ := ht
  cases kind with
  | leftParen => exact ⟨'(', [], hs, by decide, rfl⟩
  | rightParen => exact ⟨')', [], hs, by decide, rfl⟩
  | array => exact absurd rfl ha
  | arithmetic =>
    simp only [Shaped, List.mem_cons, List.not_mem_nil, or_false] at hs
    obtain rfl | rfl | rfl | rfl | rfl | rfl := hs
    · exact ⟨'+', [], rfl, by decide, rfl⟩
    · exact ⟨'-', [], rfl, by decide, congrArg Except.ok (minusPiece_ends last hr)⟩
    · exact ⟨'*', [], rfl, by decide, rfl⟩
    · exact ⟨'/', [], rfl, by decide, rfl⟩
    · exact ⟨'^', [], rfl, by decide, rfl⟩
    · exact ⟨'%', [], rfl, by decide, rfl⟩
  | boolean =>
    simp only [Shaped, List.mem_cons, List.not_mem_nil, or_false] at hs
    obtain rfl | rfl | rfl := hs
    · exact ⟨'&', ['&'], rfl, by decide, rfl⟩
    · exact ⟨'|', ['|'], rfl, by decide, rfl⟩
    · exact ⟨'!', [], rfl, by decide, comparisonPiece_ends _ hr⟩
  | comparison =>
    simp only [Shaped, List.mem_cons, List.not_mem_nil, or_false] at hs
    obtain rfl | rfl | rfl | rfl | rfl | rfl := hs
    · exact ⟨'<', [], rfl, by decide, comparisonPiece_ends _ hr⟩
    · exact ⟨'<', ['='], rfl, by decide, rfl⟩
    · exact ⟨'>', [], rfl, by decide, comparisonPiece_ends _ hr⟩
    · exact ⟨'>', ['='], rfl, by decide, rfl⟩
    · exact ⟨'=', ['='], rfl, by decide, rfl⟩
    · exact ⟨'!', ['='], rfl, by decide, rfl⟩
  | string =>
    obtain ⟨body, hb, rfl⟩ := hs
    refine ⟨'"', body ++ ['"'], rfl, by decide, ?_⟩
    rw [List.append_assoc, List.singleton_append, List.length_append]
    exact stringPiece_body rest hb
  | numeral =>
    obtain ⟨run, hn, rfl | rfl⟩ := hs
    · obtain ⟨d, hd, -⟩ := hn.digit
      obtain ⟨c, w, rfl⟩ := List.exists_cons_of_ne_nil (List.ne_nil_of_mem hd)
      have hc := (isNumeral_iff.mp hn).1 c (by simp)
      exact ⟨c, w, rfl, not_isGap isNumberChar_gap hc, piece_numeral check last hn hr⟩
    · have hvalue := hv ⟨rfl, by simp⟩
      exact ⟨'-', run, rfl, by decide, congrArg Except.ok (minusPiece_numeral hn hvalue hr)⟩
  | identifier =>
    obtain ⟨c, w, hn, rfl⟩ := hs
    have hc : isNameChar c = true := by
      obtain h | rfl := hn.first
      · simp [isNameChar, Char.isAlphanum, h]
      · decide
    exact ⟨c, w, rfl, not_isGap isNameChar_gap hc, piece_name check last hn hr⟩
  | separator =>
    simp only [Shaped, List.mem_cons, List.not_mem_nil, or_false] at hs
    obtain rfl | rfl := hs
    · exact ⟨',', [], rfl, by decide, rfl⟩
    · exact ⟨';', [], rfl, by decide, rfl⟩

end GridRules.Token
