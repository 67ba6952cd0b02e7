import GridRules.Proofs.ArrayBody

/-! Joining undoes scanning. The lists that a scan gives are exactly the well-formed ones, and
each of them is what its lexemes with spaces between them are scanned to. -/
namespace GridRules.Token

/-- Whatever the scan cuts off has the shape of its kind and its sign in place. -/
theorem admissible_of_piece {last : Option TokenKind} {c : Char} {cs : List Char} {p : Piece}
    (h : piece checkBody last c cs = .ok p) : Admissible last (p.token c cs) := by
  by_cases hc : c = '['
  · subst hc
    obtain ⟨hs, hk⟩ := shaped_arrayPiece h
    exact admissible_of_kind hs (by simp [Piece.token, hk])
  · exact (admissible_piece h hc).1

theorem piece_lexeme {last : Option TokenKind} {t : Token} {rest : List Char}
    (ht : Admissible last t) (hr : Ends rest) :
    ∃ c w, t.lexeme = String.ofList (c :: w) ∧ isGap c = false ∧
      piece checkBody last c (w ++ rest) = .ok ⟨t.kind, w.length⟩ := by
  by_cases ha : t.kind = .array
  · obtain ⟨kind, lexeme⟩ := t
    subst ha
    obtain ⟨body, henc, hel, rfl⟩ := ht.1
    refine ⟨'[', body ++ [']'], rfl, by decide, ?_⟩
    rw [List.append_assoc, List.singleton_append, List.length_append]
    exact arrayPiece_enclosed rest henc hel
  · exact piece_shaped checkBody ht ha hr

/-- One step of the scan over a lexeme that a gap or the end follows. -/
theorem scan_lexeme {last : Option TokenKind} {t : Token} {rest : List Char} (offset : Nat)
    (ht : Admissible last t) (hr : Ends rest) :
    scan checkBody offset last (t.lexeme.toList ++ rest) =
      (scan checkBody (offset + byteLength t.lexeme.toList) (some t.kind) rest).map
        (t :: ·) := by
  obtain ⟨kind, lexeme⟩ := t
  obtain ⟨c, w, rfl, hg, hp⟩ := piece_lexeme ht hr
  rw [String.toList_ofList, List.cons_append, scan_piece checkBody offset last hg hp]
  simp [Piece.token]

/-- What the scan gives after a token of kind `last`. -/
theorem shaped_of_scan {offset : Nat} {last : Option TokenKind} {cs : List Char}
    {ts : List Token} (h : scan checkBody offset last cs = .ok ts) :
    (∀ t ∈ ts, t.Shaped) ∧ SignsAfter last ts := by
  induction offset, last, cs using scan.induct checkBody generalizing ts with
  | case1 =>
    rw [scan_nil] at h
    cases h
    exact ⟨by simp, trivial⟩
  | case2 offset last c cs hg ih =>
    rw [scan_gap checkBody offset last cs hg] at h
    exact ih h
  | case3 offset last c cs hg e hp =>
    rw [scan_error checkBody offset last (by simpa using hg) hp] at h
    cases h
  | case4 offset last c cs hg p hp lexeme =>
    rename_i ih
    rw [scan_piece checkBody offset last (by simpa using hg) hp] at h
    obtain ⟨us, hus, rfl⟩ := Outcome.map_eq_ok_iff.mp h
    obtain ⟨hshaped, hsigns⟩ := ih hus
    obtain ⟨ht, hsign⟩ := admissible_of_piece hp
    exact ⟨List.forall_mem_cons.mpr ⟨ht, hshaped⟩, hsign, hsigns⟩

theorem join_cons_cons (t u : Token) (ts : List Token) :
    (join (t :: u :: ts)).toList = t.lexeme.toList ++ ' ' :: (join (u :: ts)).toList := by
  simp [join, String.intercalate_cons_cons]

/-- The lexemes with spaces between them are scanned to the tokens they come from. -/
theorem scan_join {last : Option TokenKind} {ts : List Token} (offset : Nat)
    (hshaped : ∀ t ∈ ts, t.Shaped) (hsigns : SignsAfter last ts) :
    scan checkBody offset last (join ts).toList = .ok ts := by
  induction ts generalizing offset last with
  | nil => exact scan_nil checkBody offset last
  | cons t ts ih =>
    obtain ⟨ht, hts⟩ := List.forall_mem_cons.mp hshaped
    obtain ⟨hsign, hrest⟩ := hsigns
    -- each lexeme but the last has the space after it, and the last one has nothing
    cases ts with
    | nil =>
      have hone : (join [t]).toList = t.lexeme.toList ++ [] := by simp [join]
      rw [hone, scan_lexeme offset ⟨ht, hsign⟩ (by simp [Ends]), scan_nil, Outcome.map_ok]
    | cons u us =>
      have hends : Ends (' ' :: (join (u :: us)).toList) := by simp [Ends, isGap]
      rw [join_cons_cons, scan_lexeme offset ⟨ht, hsign⟩ hends,
        scan_gap checkBody _ _ _ (by decide), ih _ hts hrest, Outcome.map_ok]

/-- The scan of some text gives a list exactly when the list is well-formed, and exactly when the
scan of its own lexemes with spaces between them gives it back. -/
theorem tokenize_join (ts : List Token) :
    (WellFormed ts ↔ ∃ text, tokenize text = .ok ts) ∧
      (WellFormed ts ↔ tokenize (join ts) = .ok ts) := by
  have hscan : WellFormed ts → tokenize (join ts) = .ok ts := by
    intro h
    obtain ⟨hshaped, hsigns⟩ := wellFormed_iff.mp h
    exact scan_join 0 hshaped hsigns
  have hform : ∀ text, tokenize text = .ok ts → WellFormed ts :=
    fun text h => wellFormed_iff.mpr (shaped_of_scan h)
  exact ⟨⟨fun h => ⟨join ts, hscan h⟩, fun ⟨text, h⟩ => hform text h⟩, hscan, hform (join ts)⟩

end GridRules.Token
