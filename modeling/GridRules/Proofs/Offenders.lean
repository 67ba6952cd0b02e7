import GridRules.Proofs.Margins
import GridRules.Proofs.Tiling

/-! Where the faults of texts are. A fault that the scan finds is at the first byte of a character
that bears its cause out. In an array it is found in the body without the blanks at the ends, and
the ones at the front are not counted: its offset is too small by their length. -/
namespace GridRules.Token

/-! What a fault says of its place. -/

/-- Some token begins with the character. -/
def BeginsToken (c : Char) : Prop := ∃ t : Token, t.Shaped ∧ t.lexeme.toList.head? = some c

/-- A digit or a point at the end of the text belongs to a name, so that no number that begins
behind it is the rest of a longer one. -/
def StartsAnew (before : List Char) : Prop :=
  ∀ d ∈ before.getLast?, isNumberChar d = true →
    ∃ front b bs, before = front ++ b :: bs ∧ IsName b bs

/-- What the cause of a fault says of the character `c` at its place in a text. -/
def Bears (before : List Char) (c : Char) (after : List Char) : SyntaxFault.Cause → Prop
  | .unterminatedString => c = '"'
  | .unterminatedArray => c = '['
  | .malformedOperator => c = '&' ∨ c = '|' ∨ c = '='
  | .malformedNumber => isNumberChar c = true ∧ StartsAnew before ∧
      isNumber (c :: after.takeWhile isNumberChar) = false
  | .unexpected d => d = '[' ∨ ¬ BeginsToken d → c = d
  | .unbalancedParentheses | .malformedCommand => False

/-- The offset is that of a character of the text, and this character bears the cause out. -/
def PointsAt (cs : List Char) (offset : Nat) (cause : SyntaxFault.Cause) : Prop :=
  ∃ before c after, cs = before ++ c :: after ∧ byteLength before = offset ∧
    Bears before c after cause

theorem startsAnew_of_getLast? {before : List Char}
    (h : ∀ d ∈ before.getLast?, isNumberChar d = false) : StartsAnew before :=
  fun d hd hn => absurd hn (by simp [h d hd])

theorem StartsAnew.append {front before : List Char} (h : StartsAnew before)
    (hfront : before = [] → StartsAnew front) : StartsAnew (front ++ before) := by
  by_cases hnil : before = []
  · subst hnil
    rw [List.append_nil]
    exact hfront rfl
  · intro d hd hn
    rw [List.getLast?_append_of_ne_nil _ hnil] at hd
    obtain ⟨first, b, bs, rfl, hname⟩ := h d hd hn
    exact ⟨front ++ first, b, bs, by simp, hname⟩

/-- What is so within a part of a text is so in the text. -/
theorem PointsAt.within {front cs behind : List Char} {offset : Nat} {cause : SyntaxFault.Cause}
    (h : PointsAt cs offset cause) (hfront : StartsAnew front)
    (hbehind : ∀ c ∈ behind.head?, isNumberChar c = false) :
    PointsAt (front ++ (cs ++ behind)) (byteLength front + offset) cause := by
  obtain ⟨before, c, after, rfl, rfl, hbears⟩ := h
  refine ⟨front ++ before, c, after ++ behind, by simp, byteLength_append front before, ?_⟩
  cases cause with
  | malformedNumber =>
    obtain ⟨hc, hanew, hrun⟩ := hbears
    refine ⟨hc, hanew.append fun _ => hfront, ?_⟩
    rwa [takeWhile_append_of_head? hbehind]
  | _ => exact hbears

/-! Faults at one place. -/

variable {check : List Char → Except SyntaxFault Unit} {last last' : Option TokenKind} {c : Char}
  {cs rest : List Char} {p : Piece} {t : Token} {ts : List Token} {f : SyntaxFault}

/-- Where no array begins a fault is found at the first character. -/
theorem bears_of_piece {before : List Char} (h : piece check last c cs = .error f) (hc : c ≠ '[')
    (hanew : isNumberChar c = true → StartsAnew before) :
    f.offset = 0 ∧ Bears before c cs f.cause := by
  unfold piece at h
  split at h
  case h_7 | h_8 =>
    split at h
    · cases h
    · cases h
      simp [Bears]
  case h_9 | h_10 | h_11 | h_12 =>
    unfold comparisonPiece at h
    split at h
    · cases h
    · cases h
      all_goals simp [Bears]
  case h_13 => exact absurd rfl hc
  case h_14 =>
    simp only [stringPiece] at h
    split at h
    · cases h
    · cases h
      simp [Bears]
  case h_19 =>
    split at h
    · rename_i hn
      simp only [numberPiece] at h
      split at h
      · cases h
      · rename_i hrun
        cases h
        exact ⟨rfl, hn, hanew hn, by simpa using hrun⟩
    · split at h
      · cases h
      · cases h
        exact ⟨rfl, fun _ => rfl⟩
  all_goals cases h

/-- A second bracket is found at its place. -/
theorem arrayBody_eq_error {quoted : Bool} {offset : Nat}
    (h : arrayBody quoted offset cs = .error f) :
    f = ⟨.unterminatedArray, 0⟩ ∨ ∃ inner rest, cs = inner ++ '[' :: rest ∧
      f = ⟨.unexpected '[', offset + byteLength inner⟩ := by
  induction cs generalizing quoted offset with
  | nil =>
    cases h
    exact .inl rfl
  | cons c cs ih =>
    by_cases hopen : quoted = false ∧ c = '['
    · obtain ⟨rfl, rfl⟩ := hopen
      cases h
      exact .inr ⟨[], cs, rfl, rfl⟩
    by_cases hclose : quoted = false ∧ c = ']'
    · obtain ⟨rfl, rfl⟩ := hclose
      cases h
    have hc : quoted = false → c ≠ '[' ∧ c ≠ ']' :=
      fun hq => ⟨fun h => hopen ⟨hq, h⟩, fun h => hclose ⟨hq, h⟩⟩
    rw [arrayBody_cons _ _ hc, Outcome.map_eq_error_iff] at h
    obtain rfl | ⟨inner, rest, rfl, rfl⟩ := ih h
    · exact .inl rfl
    · exact .inr ⟨c :: inner, rest, rfl, by rw [byteLength, Nat.add_assoc]⟩

theorem elements_eq_error (h : elements ts = .error f) :
    ∃ t ∈ ts, t.kind ≠ .string ∧ t.kind ≠ .numeral ∧ t.kind ≠ .identifier ∧ t.kind ≠ .separator ∧
      f = ⟨.unexpected (t.lexeme.toList.headD '?'), 0⟩ := by
  induction ts with
  | nil => cases h
  | cons t ts ih =>
    unfold elements at h
    split at h
    case h_1 | h_2 | h_3 =>
      obtain ⟨u, hu, hfault⟩ := ih (Outcome.map_eq_error_iff.mp h)
      exact ⟨u, List.mem_cons_of_mem t hu, hfault⟩
    case h_4 =>
      obtain ⟨u, hu, hfault⟩ := ih h
      exact ⟨u, List.mem_cons_of_mem t hu, hfault⟩
    case h_5 =>
      cases h
      exact ⟨t, List.mem_cons_self .., by assumption, by assumption, by assumption,
        by assumption, rfl⟩

/-! Faults on the way. -/

/-- A text without arrays has none at any place that the scan gets to. -/
theorem Passes.unopened (h : Passes check last cs ts last' rest) (hcs : Unopened false cs) :
    Unopened false rest ∧ ∀ t ∈ ts, t.kind ≠ .array := by
  induction h with
  | here last cs => exact ⟨hcs, by simp⟩
  | @gap last last' c cs rest ts hg _ ih =>
    have hquote : (c == '"') = false := by obtain rfl | rfl | rfl | rfl := gap_cases hg <;> rfl
    exact ih (by simpa [hquote] using hcs.2)
  | cut hg hp _ ih =>
    obtain ⟨hrest, hts⟩ := ih (unopened_drop_piece hcs hp)
    exact ⟨hrest, List.forall_mem_cons.mpr ⟨(admissible_piece hp (hcs.1 rfl)).2, hts⟩⟩

/-- Only numbers and names end with a digit or a point. -/
theorem Shaped.of_getLast? {d : Char} (h : t.Shaped) (hd : d ∈ t.lexeme.toList.getLast?)
    (hn : isNumberChar d = true) :
    t.kind = .numeral ∨ ∃ b bs, t.lexeme.toList = b :: bs ∧ IsName b bs := by
  obtain ⟨kind, lexeme⟩ := t
  cases kind with
  | numeral => exact .inl rfl
  | identifier =>
    obtain ⟨b, bs, hname, rfl⟩ := h
    exact .inr ⟨b, bs, by simp, hname⟩
  | leftParen | rightParen =>
    rw [show lexeme = _ from h] at hd
    cases hd
    exact absurd hn (by decide)
  | separator | arithmetic | boolean | comparison =>
    simp only [Shaped, List.mem_cons, List.not_mem_nil, or_false] at h
    obtain rfl | rfl | rfl | rfl | rfl | rfl := h <;> cases hd <;> exact absurd hn (by decide)
  | string =>
    obtain ⟨body, -, rfl⟩ := h
    rw [String.toList_ofList, ← List.cons_append, List.getLast?_concat] at hd
    cases hd
    exact absurd hn (by decide)
  | array =>
    obtain ⟨body, -, -, rfl⟩ := h
    rw [String.toList_ofList, ← List.cons_append, List.getLast?_concat] at hd
    cases hd
    exact absurd hn (by decide)

/-- Where the scan is, a number begins anew: a number before this place would be longer. -/
theorem Passes.startsAnew (h : Passes checkBody last cs ts last' rest)
    (hrest : ∃ c ∈ rest.head?, isNumberChar c = true) :
    ∃ before, cs = before ++ rest ∧ StartsAnew before := by
  induction h with
  | here last cs => exact ⟨[], rfl, startsAnew_of_getLast? (by simp)⟩
  | @gap last last' c cs rest ts hg _ ih =>
    obtain ⟨before, rfl, hanew⟩ := ih hrest
    have hgap : StartsAnew [c] := startsAnew_of_getLast? (by simpa using isNumberChar_gap c hg)
    have hwhole : StartsAnew ([c] ++ before) := hanew.append fun _ => hgap
    exact ⟨c :: before, rfl, hwhole⟩
  | @cut last last' c cs rest ts p hg hp _ ih =>
    obtain ⟨before, hdrop, hanew⟩ := ih hrest
    refine ⟨(p.token c cs).lexeme.toList ++ before, ?_, hanew.append ?_⟩
    · rw [List.append_assoc, ← hdrop, lexeme_append_drop]
    · rintro rfl d hd hn
      obtain hk | ⟨b, bs, hlexeme, hname⟩ := (admissible_of_piece hp).1.of_getLast? hd hn
      · obtain ⟨e, he, hnumber⟩ := hrest
        have hcomplete := (complete_of_piece hp e (by rwa [hdrop])).2 hk
        rw [hcomplete] at hnumber
        cases hnumber
      · exact ⟨[], b, bs, hlexeme, hname⟩

/-- A fault of a scan, or the array that it is found in. -/
theorem pointsAt_of_scan (h : scan checkBody 0 none cs = .error f) :
    PointsAt cs f.offset f.cause ∨ ∃ before rest ts last e, cs = before ++ '[' :: rest ∧
      Passes checkBody none cs ts last ('[' :: rest) ∧ arrayPiece checkBody rest = .error e ∧
      f = e.shift (byteLength before) := by
  obtain ⟨before, c, rest, ts, last, e, rfl, hpasses, hpiece, rfl⟩ := passes_of_scan_error h
  rw [Nat.zero_add]
  by_cases hc : c = '['
  · subst hc
    exact .inr ⟨before, rest, ts, last, e, rfl, hpasses, hpiece, rfl⟩
  · have hanew (hn : isNumberChar c = true) : StartsAnew before := by
      obtain ⟨before', hsplit, hanew⟩ := hpasses.startsAnew ⟨c, rfl, hn⟩
      rwa [List.append_cancel_right hsplit]
    obtain ⟨hoffset, hbears⟩ := bears_of_piece hpiece hc hanew
    refine .inl ⟨before, c, rest, rfl, ?_, hbears⟩
    rw [SyntaxFault.shift, hoffset, Nat.add_zero]

/-! Faults in arrays. -/

theorem beginsToken_of_shaped (h : t.Shaped) : BeginsToken (t.lexeme.toList.headD '?') := by
  obtain ⟨c, cs, hlexeme, -⟩ := h.exists_piece
  exact ⟨t, h, by simp [hlexeme]⟩

/-- Only arrays begin with a bracket. -/
theorem Shaped.headD_ne (h : t.Shaped) (hk : t.kind ≠ .array) :
    t.lexeme.toList.headD '?' ≠ '[' := by
  obtain ⟨c, cs, hlexeme, hpiece⟩ := h.exists_piece
  rw [hlexeme, List.headD_cons]
  rintro rfl
  exact hk (kind_arrayPiece (p := ⟨t.kind, cs.length⟩) hpiece)

/-- The body of an array is refused for what is found in it without the blanks at its ends, or for a
token that is no element. -/
theorem pointsAt_of_checkBody {body : List Char} (hbody : Unopened false body)
    (h : checkBody body = .error f) :
    PointsAt (Text.trim body) f.offset f.cause ∨
      body ≠ [] ∧ f.offset = 0 ∧ ∃ d, f.cause = .unexpected d ∧ d ≠ '[' ∧ BeginsToken d := by
  rw [checkBody_eq hbody, Outcome.map_eq_error_iff, arrayElements_unopened hbody] at h
  cases hscan : scan checkBody 0 none (Text.trim body) with
  | error e =>
    rw [hscan, Outcome.bind_error] at h
    cases h
    obtain hpoints | ⟨before, rest, ts, last, e, -, hpasses, -⟩ := pointsAt_of_scan hscan
    · exact .inl hpoints
    · exact absurd rfl ((hpasses.unopened hbody.trim).1.1 rfl)
  | ok ts =>
    rw [hscan, Outcome.bind_ok] at h
    obtain ⟨t, ht, -, -, -, -, rfl⟩ := elements_eq_error h
    obtain ⟨last, hpasses⟩ := passes_of_scan hscan
    have hshaped := (shaped_of_scan hscan).1 t ht
    have hkind := (hpasses.unopened hbody.trim).2 t ht
    refine .inr ⟨?_, rfl, _, rfl, hshaped.headD_ne hkind, beginsToken_of_shaped hshaped⟩
    rintro rfl
    rw [show Text.trim [] = [] from rfl, scan_nil] at hscan
    cases hscan
    cases ht

/-- The scan of the text gets to an array with this body behind `outer`. -/
def ArrayAt (cs outer body : List Char) : Prop :=
  ∃ rest ts last, cs = outer ++ '[' :: (body ++ ']' :: rest) ∧ Enclosed false body ∧
    Passes checkBody none cs ts last ('[' :: (body ++ ']' :: rest))

theorem leading_append_trim (body : List Char) :
    Text.leading body ++ (Text.trim body ++ Text.trailing body) = body := by
  rw [Text.trim_append_trailing, Text.leading_append_trimStart]

/-- What is found in the body of an array is so in the text, where the blanks in front of it
count. -/
theorem PointsAt.of_trim {body : List Char} {offset : Nat} {cause : SyntaxFault.Cause}
    (h : PointsAt (Text.trim body) offset cause) (outer rest : List Char) :
    PointsAt (outer ++ '[' :: (body ++ ']' :: rest))
      (byteLength outer + 1 + byteLength (Text.leading body) + offset) cause := by
  have hfront : StartsAnew (outer ++ '[' :: Text.leading body) := by
    refine startsAnew_of_getLast? fun d hd => ?_
    rw [List.getLast?_append_of_ne_nil _ (List.cons_ne_nil _ _)] at hd
    obtain rfl | hblank := List.mem_cons.mp (List.mem_of_mem_getLast? hd)
    · decide
    · exact isNumberChar_blank (Text.isBlank_of_mem_leading body d hblank)
  have hbehind : ∀ c ∈ (Text.trailing body ++ ']' :: rest).head?, isNumberChar c = false := by
    intro c hc
    have htrailing := Text.isBlank_of_mem_trailing body
    cases ht : Text.trailing body with
    | nil =>
      rw [ht] at hc
      cases hc
      decide
    | cons d ds =>
      rw [ht] at hc htrailing
      cases hc
      exact isNumberChar_blank (htrailing c (List.mem_cons_self ..))
  have htext : outer ++ '[' :: (body ++ ']' :: rest) = (outer ++ '[' :: Text.leading body) ++
      (Text.trim body ++ (Text.trailing body ++ ']' :: rest)) := by
    conv_lhs => rw [← leading_append_trim body]
    simp
  have hlength : byteLength outer + 1 + byteLength (Text.leading body) =
      byteLength (outer ++ '[' :: Text.leading body) := by
    rw [byteLength_append, byteLength, Nat.add_assoc]
    rfl
  rw [htext, hlength]
  exact h.within hfront hbehind

/-- An array is refused because it does not end, because another one begins in it, or for what is
found in its body. -/
theorem arrayPiece_eq_error (h : arrayPiece check cs = .error f) :
    f = ⟨.unterminatedArray, 0⟩ ∨
      (∃ inner rest, cs = inner ++ '[' :: rest ∧ f = ⟨.unexpected '[', 1 + byteLength inner⟩) ∨
      ∃ body rest e, cs = body ++ ']' :: rest ∧ Enclosed false body ∧ check body = .error e ∧
        f = e.shift 1 := by
  unfold arrayPiece at h
  split at h
  · rename_i e hbody
    cases h
    obtain hend | hopen := arrayBody_eq_error hbody
    · exact .inl hend
    · exact .inr (.inl hopen)
  · rename_i body hbody
    obtain ⟨rest, rfl, henclosed⟩ := exists_of_arrayBody hbody
    split at h
    · rename_i e hcheck
      cases h
      exact .inr (.inr ⟨body, rest, e, rfl, henclosed, hcheck, rfl⟩)
    · cases h

/-- The fault is in an array whose body begins with blanks. Its offset is as if the body without
the blanks at its ends came directly behind the bracket; with the ones at the front counted it is
that of the character. -/
def LeavesOutBlanks (cs : List Char) (e : SyntaxFault) : Prop :=
  ∃ outer body offset, ArrayAt cs outer body ∧ Text.leading body ≠ [] ∧
    PointsAt (Text.trim body) offset e.cause ∧ e.offset = byteLength outer + 1 + offset ∧
    PointsAt cs (e.offset + byteLength (Text.leading body)) e.cause

/-- A fault points at a character that bears its cause out, unless it is in an array whose body
begins with blanks: there it points too far to the front by the length of these blanks. -/
theorem pointsAt_of_tokenize {text : String} {e : SyntaxFault} (h : tokenize text = .error e) :
    PointsAt text.toList e.offset e.cause ∨ LeavesOutBlanks text.toList e := by
  obtain hpoints | ⟨outer, rest, ts, last, f, htext, hpasses, hpiece, rfl⟩ := pointsAt_of_scan h
  · exact .inl hpoints
  obtain rfl | ⟨inner, more, rfl, rfl⟩ | ⟨body, more, f, rfl, henclosed, hcheck, rfl⟩ :=
    arrayPiece_eq_error hpiece
  · exact .inl ⟨outer, '[', rest, htext, rfl, rfl⟩
  · refine .inl ⟨outer ++ '[' :: inner, '[', more, by simpa using htext, ?_, fun _ => rfl⟩
    rw [byteLength_append]
    rfl
  obtain hpoints | ⟨hne, hoffset, d, hcause, hd, hbegins⟩ :=
    pointsAt_of_checkBody henclosed.unopened hcheck
  · have hwhole := hpoints.of_trim outer more
    rw [← htext] at hwhole
    have hshift : ((f.shift 1).shift (byteLength outer)).offset = byteLength outer + 1 + f.offset :=
      (Nat.add_assoc ..).symm
    by_cases hleading : Text.leading body = []
    · rw [hleading] at hwhole
      exact .inl (hshift ▸ hwhole)
    · refine .inr ⟨outer, body, f.offset, ⟨more, ts, last, htext, henclosed, hpasses⟩, hleading,
        hpoints, hshift, ?_⟩
      rw [hshift, Nat.add_right_comm]
      exact hwhole
  · -- the character is the first of the body, whatever the token that is no element
    obtain ⟨c, cs, rfl⟩ := List.exists_cons_of_ne_nil hne
    refine .inl ⟨outer ++ ['['], c, cs ++ ']' :: more, by simpa using htext, ?_, ?_⟩
    · rw [byteLength_append, SyntaxFault.shift, SyntaxFault.shift, hoffset]
      rfl
    · rw [SyntaxFault.shift, SyntaxFault.shift, hcause]
      rintro (rfl | hnot)
      · exact absurd rfl hd
      · exact absurd hbegins hnot

/-- A number with two points behind an element of two bytes. -/
theorem pointsAt_of_tokenize_array :
    tokenize "X == [\"é\" 1..2]" = .error ⟨.malformedNumber, 11⟩ ∧
      (PointsAt "X == [\"é\" 1..2]".toList 11 .malformedNumber ∨
        LeavesOutBlanks "X == [\"é\" 1..2]".toList ⟨.malformedNumber, 11⟩) := by
  have h : tokenize "X == [\"é\" 1..2]" = .error ⟨.malformedNumber, 11⟩ := by decide +kernel
  exact ⟨h, pointsAt_of_tokenize h⟩

/-- Two blanks behind the bracket: no character begins at the offset, which is in the middle of
one, and the number begins two bytes later. -/
theorem not_boundary_of_blanks :
    tokenize "[  \"é\"1..2]" = .error ⟨.malformedNumber, 5⟩ ∧
      (∀ before after, "[  \"é\"1..2]".toList = before ++ after → byteLength before ≠ 5) ∧
      PointsAt "[  \"é\"1..2]".toList 7 .malformedNumber := by
  refine ⟨by decide +kernel, fun before after htext => ?_,
    "[  \"é\"".toList, '1', "..2]".toList, by decide +kernel, by decide +kernel, rfl, ?_,
    by decide +kernel⟩
  · have hfronts : ∀ n < 12, byteLength ("[  \"é\"1..2]".toList.take n) ≠ 5 := by decide +kernel
    have hbefore : "[  \"é\"1..2]".toList.take before.length = before := by simp [htext]
    have hle : before.length ≤ "[  \"é\"1..2]".toList.length := by simp [htext]
    have hfront := hfronts before.length (Nat.lt_succ_of_le hle)
    rwa [hbefore] at hfront
  · have hlast : "[  \"é\"".toList.getLast? = some '"' := by decide +kernel
    refine startsAnew_of_getLast? fun d hd => ?_
    rw [hlast] at hd
    cases hd
    decide

end GridRules.Token
