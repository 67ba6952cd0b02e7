import GridRules.Proofs.ScanOn

/-! What the scan makes of a text, place by place. It passes over gaps and cuts tokens off until it
comes to the end or to a character that it refuses. The gaps and the lexemes are all that stands in
the text before that place, in their order, and no name or number is cut off too early. -/
namespace GridRules.Token

/-- The scan gets from one place of a text to another and cuts off some tokens on the way. A place
is what follows there, with the kind of the token before it. -/
inductive Passes (check : List Char → Except SyntaxFault Unit) :
    Option TokenKind → List Char → List Token → Option TokenKind → List Char → Prop
  | here (last : Option TokenKind) (cs : List Char) : Passes check last cs [] last cs
  | gap {last last' : Option TokenKind} {c : Char} {cs rest : List Char} {ts : List Token} :
      isGap c = true → Passes check last cs ts last' rest →
      Passes check last (c :: cs) ts last' rest
  | cut {last last' : Option TokenKind} {c : Char} {cs rest : List Char} {ts : List Token}
      {p : Piece} : isGap c = false → piece check last c cs = .ok p →
      Passes check (some p.kind) (cs.drop p.more) ts last' rest →
      Passes check last (c :: cs) (p.token c cs :: ts) last' rest

variable {check : List Char → Except SyntaxFault Unit} {last last' : Option TokenKind} {c : Char}
  {cs rest : List Char} {p : Piece} {t : Token} {ts : List Token}

theorem lexeme_append_drop (p : Piece) (c : Char) (cs : List Char) :
    (p.token c cs).lexeme.toList ++ cs.drop p.more = c :: cs := by
  simp [Piece.token]

/-- A scan that ends well gets to the end. -/
theorem passes_of_scan {offset : Nat} (h : scan check offset last cs = .ok ts) :
    ∃ last', Passes check last cs ts last' [] := by
  induction offset, last, cs using scan.induct check generalizing ts with
  | case1 offset last =>
    rw [scan_nil] at h
    cases h
    exact ⟨last, .here last []⟩
  | case2 offset last c cs hg ih =>
    rw [scan_gap check offset last cs hg] at h
    obtain ⟨last', hpasses⟩ := ih h
    exact ⟨last', .gap hg hpasses⟩
  | case3 offset last c cs hg e hp =>
    rw [scan_error check offset last (by simpa using hg) hp] at h
    cases h
  | case4 offset last c cs hg p hp lexeme =>
    rename_i ih
    have hgap : isGap c = false := by simpa using hg
    rw [scan_piece check offset last hgap hp] at h
    obtain ⟨us, hus, rfl⟩ := Outcome.map_eq_ok_iff.mp h
    obtain ⟨last', hpasses⟩ := ih hus
    exact ⟨last', .cut hgap hp hpasses⟩

/-- A scan that fails gets to a character with which no piece begins there, and its fault is the one
that is found at this character. -/
theorem passes_of_scan_error {offset : Nat} {e : SyntaxFault}
    (h : scan check offset last cs = .error e) :
    ∃ before c rest ts last' f, cs = before ++ c :: rest ∧
      Passes check last cs ts last' (c :: rest) ∧ piece check last' c rest = .error f ∧
      e = f.shift (offset + byteLength before) := by
  induction offset, last, cs using scan.induct check generalizing e with
  | case1 =>
    rw [scan_nil] at h
    cases h
  | case2 offset last c cs hg ih =>
    rw [scan_gap check offset last cs hg] at h
    obtain ⟨before, d, rest, ts, last', f, rfl, hpasses, hpiece, rfl⟩ := ih h
    refine ⟨c :: before, d, rest, ts, last', f, rfl, .gap hg hpasses, hpiece, ?_⟩
    rw [byteLength, utf8Size_gap hg, Nat.add_assoc]
  | case3 offset last c cs hg e' hp =>
    rw [scan_error check offset last (by simpa using hg) hp] at h
    cases h
    exact ⟨[], c, cs, [], last, e', rfl, .here last (c :: cs), hp, rfl⟩
  | case4 offset last c cs hg p hp lexeme =>
    rename_i ih
    have hgap : isGap c = false := by simpa using hg
    rw [scan_piece check offset last hgap hp, Outcome.map_eq_error_iff] at h
    obtain ⟨before, d, rest, ts, last', f, hdrop, hpasses, hpiece, rfl⟩ := ih h
    refine ⟨lexeme ++ before, d, rest, p.token c cs :: ts, last', f, ?_, .cut hgap hp hpasses,
      hpiece, ?_⟩
    · rw [List.append_assoc, ← hdrop, List.cons_append, List.take_append_drop]
    · rw [byteLength_append, Nat.add_assoc]

/-! Names and numbers are cut off whole. -/

/-- Where the token is a name or a number, the text does not go on with a character of it. -/
def Complete (t : Token) (rest : List Char) : Prop :=
  ∀ c ∈ rest.head?, (t.kind = .identifier → isNameChar c = false) ∧
    (t.kind = .numeral → isNumberChar c = false)

theorem not_of_mem_head?_drop {p : Char → Bool} {cs : List Char} {c : Char}
    (h : c ∈ (cs.drop (cs.takeWhile p).length).head?) : p c = false := by
  have happ : cs.takeWhile p ++ cs.dropWhile p = cs := List.takeWhile_append_dropWhile
  have hdrop : cs.drop (cs.takeWhile p).length = cs.dropWhile p := by
    calc
      _ = (cs.takeWhile p ++ cs.dropWhile p).drop (cs.takeWhile p).length := by rw [happ]
      _ = _ := List.drop_left
  have hhead := List.head?_dropWhile_not p cs
  rw [hdrop] at h
  rw [show (cs.dropWhile p).head? = some c from h] at hhead
  simpa using hhead

theorem kind_arrayPiece (h : arrayPiece check cs = .ok p) : p.kind = .array := by
  unfold arrayPiece at h
  split at h
  · cases h
  · split at h
    · cases h
    · cases h
      rfl

theorem kind_stringPiece (h : stringPiece cs = .ok p) : p.kind = .string :=
  (shaped_stringPiece h).2

theorem more_of_piece (h : piece check last c cs = .ok p) :
    (p.kind = .identifier → p.more = (cs.takeWhile isNameChar).length) ∧
      (p.kind = .numeral → p.more = (cs.takeWhile isNumberChar).length) := by
  unfold piece at h
  split at h
  case h_1 | h_2 | h_3 | h_4 | h_5 | h_15 | h_16 | h_17 | h_18 =>
    cases h
    simp
  case h_6 =>
    cases h
    simp only [minusPiece]
    split <;> simp
  case h_7 | h_8 =>
    split at h
    · cases h
      simp
    · cases h
  case h_9 | h_10 | h_11 | h_12 =>
    obtain ⟨rest, rfl, rfl⟩ | halone := comparisonPiece_cases h
    · simp
    · cases halone
      all_goals simp
  case h_13 => simp [kind_arrayPiece h]
  case h_14 => simp [kind_stringPiece h]
  case h_19 =>
    split at h
    · simp only [numberPiece] at h
      split at h
      · cases h
        simp
      · cases h
    · split at h
      · cases h
        simp
      · cases h

theorem complete_of_piece (h : piece check last c cs = .ok p) :
    (p.token c cs).Complete (cs.drop p.more) := by
  obtain ⟨hname, hnumber⟩ := more_of_piece h
  refine fun d hd => ⟨fun hk => ?_, fun hk => ?_⟩
  · rw [hname hk] at hd
    exact not_of_mem_head?_drop hd
  · rw [hnumber hk] at hd
    exact not_of_mem_head?_drop hd

/-! Gaps and lexemes in turn. -/

/-- Lexemes, each with the gap behind it. -/
def spread (tiles : List (Token × List Char)) : List Char :=
  tiles.flatMap fun (t, gap) => t.lexeme.toList ++ gap

theorem spread_cons (t : Token) (gap : List Char) (tiles : List (Token × List Char)) :
    spread ((t, gap) :: tiles) = t.lexeme.toList ++ (gap ++ spread tiles) := by
  simp [spread]

/-- Gaps and complete lexemes with `rest` behind them; `first` is the gap before all lexemes. -/
structure Tiled (first : List Char) (tiles : List (Token × List Char)) (rest : List Char) :
    Prop where
  first : ∀ c ∈ first, isGap c = true
  behind : ∀ tile ∈ tiles, ∀ c ∈ tile.2, isGap c = true
  complete : ∀ front t gap back, tiles = front ++ (t, gap) :: back →
    t.Complete (gap ++ (spread back ++ rest))

theorem Tiled.gap {first : List Char} {tiles : List (Token × List Char)}
    (h : Tiled first tiles rest) (hc : isGap c = true) : Tiled (c :: first) tiles rest :=
  ⟨List.forall_mem_cons.mpr ⟨hc, h.first⟩, h.behind, h.complete⟩

/-- The gap before the first lexeme comes behind one that is put in front. -/
theorem Tiled.cons {first : List Char} {tiles : List (Token × List Char)}
    (h : Tiled first tiles rest) (ht : t.Complete (first ++ (spread tiles ++ rest))) :
    Tiled [] ((t, first) :: tiles) rest := by
  refine ⟨by simp, List.forall_mem_cons.mpr ⟨h.first, h.behind⟩, ?_⟩
  intro front u gap back hsplit
  cases front with
  | nil =>
    cases hsplit
    exact ht
  | cons tile front =>
    rw [List.cons_append, List.cons.injEq] at hsplit
    exact h.complete front u gap back hsplit.2

theorem Passes.tiled (h : Passes check last cs ts last' rest) :
    ∃ first tiles, cs = first ++ (spread tiles ++ rest) ∧ tiles.map Prod.fst = ts ∧
      Tiled first tiles rest := by
  induction h with
  | here last cs => exact ⟨[], [], rfl, rfl, by simp, by simp, by simp⟩
  | gap hg _ ih =>
    obtain ⟨first, tiles, rfl, hts, htiled⟩ := ih
    exact ⟨_ :: first, tiles, rfl, hts, htiled.gap hg⟩
  | @cut last last' c cs rest ts p hg hp _ ih =>
    obtain ⟨first, tiles, hcs, hts, htiled⟩ := ih
    refine ⟨[], (p.token c cs, first) :: tiles, ?_, by simp [hts], htiled.cons ?_⟩
    · rw [← lexeme_append_drop p c cs, hcs]
      simp [spread_cons]
    · rw [← hcs]
      exact complete_of_piece hp

/-! What comes directly behind a lexeme. -/

theorem isNameChar_of_isNameStart (h : isNameStart c = true) : isNameChar c = true := by
  simp only [isNameStart, decide_eq_true_eq] at h
  obtain h | rfl := h
  · simp [isNameChar, Char.isAlphanum, h]
  · decide

theorem toNat_of_piece (h : piece check last c cs = .ok p) : c.toNat < 128 := by
  unfold piece at h
  split at h
  case h_19 =>
    split at h
    · rename_i hn
      have hrange := toNat_of_isNumberChar hn
      omega
    · split at h
      · rename_i hn
        have hrange := toNat_of_isNameChar (isNameChar_of_isNameStart hn)
        omega
      · cases h
  all_goals decide

/-- The lexeme of a token, as a text by itself, is the piece of this token. -/
theorem Shaped.exists_piece (h : t.Shaped) : ∃ c cs, t.lexeme.toList = c :: cs ∧
    piece checkBody none c cs = .ok ⟨t.kind, cs.length⟩ := by
  have hfirst : Admissible none t := ⟨h, fun _ => rfl⟩
  have hends : Ends [] := by simp [Ends]
  obtain ⟨c, cs, hlexeme, -, hpiece⟩ := piece_lexeme hfirst hends
  rw [List.append_nil] at hpiece
  exact ⟨c, cs, by simp [hlexeme], hpiece⟩

theorem toNat_of_isGap (h : isGap c = true) : c.toNat < 128 := by
  obtain rfl | rfl | rfl | rfl := gap_cases h <;> decide

/-- A gap or a lexeme begins with a character of ASCII. -/
theorem toNat_of_mem_head? {gap : List Char} {tiles : List (Token × List Char)}
    (hgap : ∀ c ∈ gap, isGap c = true) (hshaped : ∀ tile ∈ tiles, tile.1.Shaped)
    (h : c ∈ (gap ++ spread tiles).head?) : c.toNat < 128 := by
  cases gap with
  | cons d gap =>
    cases h
    exact toNat_of_isGap (hgap c (List.mem_cons_self ..))
  | nil =>
    cases tiles with
    | nil => cases h
    | cons tile tiles =>
      obtain ⟨t, behind⟩ := tile
      obtain ⟨d, ds, hlexeme, hpiece⟩ := (hshaped _ (List.mem_cons_self ..)).exists_piece
      rw [List.nil_append, spread_cons, hlexeme] at h
      cases h
      exact toNat_of_piece hpiece

/-- A text that is accepted is made up of gaps and the lexemes of its tokens in their order and of
nothing else. A name is not followed by a letter, a digit or an underscore, of whatever script,
and a number neither by a digit nor by a point. -/
theorem tiled_of_tokenize {text : String} {ts : List Token} (h : tokenize text = .ok ts) :
    ∃ (first : List Char) (tiles : List (Token × List Char)),
      text.toList = first ++ spread tiles ∧ tiles.map Prod.fst = ts ∧
      (∀ c ∈ first, isGap c = true) ∧ (∀ tile ∈ tiles, ∀ c ∈ tile.2, isGap c = true) ∧
      ∀ front t gap back, tiles = front ++ (t, gap) :: back →
        ∀ c ∈ (gap ++ spread back).head?, c.toNat < 128 ∧
          (t.kind = .identifier → isNameChar c = false) ∧
          (t.kind = .numeral → isNumberChar c = false) := by
  obtain ⟨last, hpasses⟩ := passes_of_scan h
  obtain ⟨first, tiles, htext, rfl, htiled⟩ := hpasses.tiled
  rw [List.append_nil] at htext
  have hshaped : ∀ tile ∈ tiles, tile.1.Shaped :=
    fun tile htile => (shaped_of_scan h).1 tile.1 (List.mem_map_of_mem htile)
  refine ⟨first, tiles, htext, rfl, htiled.first, htiled.behind, ?_⟩
  intro front t gap back hsplit c hc
  have htile : (t, gap) ∈ tiles := by simp [hsplit]
  have hback : ∀ tile ∈ back, tile.1.Shaped := fun tile hmem =>
    hshaped tile (by simp [hsplit, hmem])
  have hcomplete := htiled.complete front t gap back hsplit
  rw [List.append_nil] at hcomplete
  exact ⟨toNat_of_mem_head? (htiled.behind _ htile) hback hc, hcomplete c hc⟩

theorem tiled_of_tokenize_array :
    tokenize "x1<\t[\"é ]\",-.5]" =
        .ok [⟨.identifier, "x1"⟩, ⟨.comparison, "<"⟩, ⟨.array, "[\"é ]\",-.5]"⟩] ∧
      ∃ (first : List Char) (tiles : List (Token × List Char)),
        "x1<\t[\"é ]\",-.5]".toList = first ++ spread tiles ∧
        tiles.map Prod.fst =
          [⟨.identifier, "x1"⟩, ⟨.comparison, "<"⟩, ⟨.array, "[\"é ]\",-.5]"⟩] ∧
        (∀ c ∈ first, isGap c = true) ∧ (∀ tile ∈ tiles, ∀ c ∈ tile.2, isGap c = true) ∧
        ∀ front t gap back, tiles = front ++ (t, gap) :: back →
          ∀ c ∈ (gap ++ spread back).head?, c.toNat < 128 ∧
            (t.kind = .identifier → isNameChar c = false) ∧
            (t.kind = .numeral → isNumberChar c = false) :=
  have h : tokenize "x1<\t[\"é ]\",-.5]" =
      .ok [⟨.identifier, "x1"⟩, ⟨.comparison, "<"⟩, ⟨.array, "[\"é ]\",-.5]"⟩] := by
    decide +kernel
  ⟨h, tiled_of_tokenize h⟩

end GridRules.Token
