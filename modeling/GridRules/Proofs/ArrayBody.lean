import GridRules.Proofs.Piece
import Mathlib.Data.List.Basic

/-! The bodies of arrays. A body that is cut off has its brackets in quotes only, so that the
scan of it never asks for the body of another array, and the check that refuses those agrees with
the reading of the elements. -/
namespace GridRules.Token

/-- No opening bracket stands outside quotes. -/
def Unopened (quoted : Bool) : List Char → Prop
  | [] => True
  | c :: cs => (quoted = false → c ≠ '[') ∧ Unopened (quoted != (c == '"')) cs

/-- Whether a text that starts inside quotes or outside ends inside them. -/
def endsQuoted (quoted : Bool) : List Char → Bool
  | [] => quoted
  | c :: cs => endsQuoted (quoted != (c == '"')) cs

theorem Enclosed.unopened {quoted : Bool} {cs : List Char} (h : Enclosed quoted cs) :
    Unopened quoted cs := by
  induction cs generalizing quoted with
  | nil => trivial
  | cons c cs ih => exact ⟨fun hq => (h.1 hq).1, ih h.2⟩

theorem unopened_append {quoted : Bool} {cs ds : List Char} :
    Unopened quoted (cs ++ ds) ↔ Unopened quoted cs ∧ Unopened (endsQuoted quoted cs) ds := by
  induction cs generalizing quoted with
  | nil => simp [Unopened, endsQuoted]
  | cons c cs ih => simp [Unopened, endsQuoted, ih, and_assoc]

theorem endsQuoted_append {quoted : Bool} {cs ds : List Char} :
    endsQuoted quoted (cs ++ ds) = endsQuoted (endsQuoted quoted cs) ds := by
  induction cs generalizing quoted with
  | nil => rfl
  | cons c cs ih => exact ih

theorem endsQuoted_of_notMem (quoted : Bool) {cs : List Char} (h : '"' ∉ cs) :
    endsQuoted quoted cs = quoted := by
  induction cs generalizing quoted with
  | nil => rfl
  | cons c cs ih =>
    have hc : (c == '"') = false := by
      simpa using fun heq : c = '"' => h (by simp [heq])
    rw [endsQuoted, hc, Bool.bne_false]
    exact ih quoted fun hmem => h (List.mem_cons_of_mem c hmem)

theorem arrayBody_cons {quoted : Bool} {c : Char} (offset : Nat) (cs : List Char)
    (h : quoted = false → c ≠ '[' ∧ c ≠ ']') :
    arrayBody quoted offset (c :: cs) =
      (arrayBody (quoted != (c == '"')) (offset + c.utf8Size) cs).map (c :: ·) := by
  cases quoted with
  | false => simp [arrayBody, h rfl]
  | true => simp [arrayBody]

theorem arrayBody_enclosed {quoted : Bool} {body : List Char} (offset : Nat) (rest : List Char)
    (h : Enclosed quoted body) :
    arrayBody quoted offset (body ++ ']' :: rest) = .ok body := by
  induction body generalizing quoted offset with
  | nil =>
    have hq : quoted = false := h
    simp [arrayBody, hq]
  | cons c body ih => rw [List.cons_append, arrayBody_cons _ _ h.1, ih _ h.2, Outcome.map_ok]

theorem exists_of_arrayBody {quoted : Bool} {offset : Nat} {cs body : List Char}
    (h : arrayBody quoted offset cs = .ok body) :
    ∃ rest, cs = body ++ ']' :: rest ∧ Enclosed quoted body := by
  induction cs generalizing quoted offset body with
  | nil => cases h
  | cons c cs ih =>
    by_cases hopen : quoted = false ∧ c = '['
    · obtain ⟨rfl, rfl⟩ := hopen
      cases h
    by_cases hclose : quoted = false ∧ c = ']'
    · obtain ⟨rfl, rfl⟩ := hclose
      cases h
      exact ⟨cs, rfl, rfl⟩
    have hc : quoted = false → c ≠ '[' ∧ c ≠ ']' :=
      fun hq => ⟨fun h => hopen ⟨hq, h⟩, fun h => hclose ⟨hq, h⟩⟩
    rw [arrayBody_cons _ _ hc] at h
    obtain ⟨inner, hinner, rfl⟩ := Outcome.map_eq_ok_iff.mp h
    obtain ⟨rest, rfl, henc⟩ := ih hinner
    exact ⟨rest, rfl, hc, henc⟩

/-! The check of an array's body is never asked for a body that holds an array. -/

theorem piece_check_irrelevant (check check' : List Char → Except SyntaxFault Unit)
    (last : Option TokenKind) {c : Char} (cs : List Char) (hc : c ≠ '[') :
    piece check last c cs = piece check' last c cs := by
  unfold piece
  split
  case h_13 => exact absurd rfl hc
  all_goals rfl

theorem endsQuoted_string {body : List Char} (hb : '"' ∉ body) :
    endsQuoted false ('"' :: (body ++ ['"'])) = false := by
  have happ : endsQuoted true (body ++ ['"']) = endsQuoted (endsQuoted true body) ['"'] :=
    endsQuoted_append
  show endsQuoted true (body ++ ['"']) = false
  rw [happ, endsQuoted_of_notMem true hb]
  rfl

theorem IsNumeral.notMem_quote {run : List Char} (h : IsNumeral run) : '"' ∉ run :=
  fun hmem => absurd (h.chars _ hmem) (by decide)

theorem IsName.notMem_quote {c : Char} {cs : List Char} (h : IsName c cs) : '"' ∉ c :: cs := by
  intro hmem
  obtain rfl | hmem := List.mem_cons.mp hmem
  · exact absurd h.first (by decide)
  · exact absurd (h.others _ hmem) (by decide)

theorem endsQuoted_shaped {t : Token} (h : t.Shaped) (ha : t.kind ≠ .array) :
    endsQuoted false t.lexeme.toList = false := by
  obtain ⟨kind, lexeme⟩ := t
  cases kind with
  | array => exact absurd rfl ha
  | leftParen | rightParen =>
    rw [show lexeme = _ from h]
    rfl
  | arithmetic | boolean | comparison | separator =>
    simp only [Shaped, List.mem_cons, List.not_mem_nil, or_false] at h
    obtain rfl | rfl | rfl | rfl | rfl | rfl := h <;> rfl
  | numeral =>
    obtain ⟨run, hn, rfl | rfl⟩ := h
    · simpa using endsQuoted_of_notMem false hn.notMem_quote
    · simpa [endsQuoted] using endsQuoted_of_notMem false hn.notMem_quote
  | string =>
    obtain ⟨body, hb, rfl⟩ := h
    simpa using endsQuoted_string hb
  | identifier =>
    obtain ⟨c, cs, hn, rfl⟩ := h
    simpa using endsQuoted_of_notMem false hn.notMem_quote

theorem scan_nil (check : List Char → Except SyntaxFault Unit) (offset : Nat)
    (last : Option TokenKind) : scan check offset last [] = .ok [] := by
  rw [scan]

theorem scan_gap (check : List Char → Except SyntaxFault Unit) (offset : Nat)
    (last : Option TokenKind) {c : Char} (cs : List Char) (hg : isGap c = true) :
    scan check offset last (c :: cs) = scan check (offset + 1) last cs := by
  rw [scan, if_pos hg]

theorem scan_piece (check : List Char → Except SyntaxFault Unit) (offset : Nat)
    (last : Option TokenKind) {c : Char} {cs : List Char} (hg : isGap c = false) {p : Piece}
    (hp : piece check last c cs = .ok p) :
    scan check offset last (c :: cs) =
      (scan check (offset + byteLength (c :: cs.take p.more)) (some p.kind)
        (cs.drop p.more)).map (p.token c cs :: ·) := by
  rw [scan, if_neg (by simp [hg])]
  simp only [hp]
  rfl

theorem scan_error (check : List Char → Except SyntaxFault Unit) (offset : Nat)
    (last : Option TokenKind) {c : Char} {cs : List Char} (hg : isGap c = false)
    {e : SyntaxFault} (hp : piece check last c cs = .error e) :
    scan check offset last (c :: cs) = .error (e.shift offset) := by
  rw [scan, if_neg (by simp [hg])]
  simp only [hp]

theorem unopened_drop_piece {check : List Char → Except SyntaxFault Unit}
    {last : Option TokenKind} {c : Char} {cs : List Char} {p : Piece}
    (h : Unopened false (c :: cs)) (hp : piece check last c cs = .ok p) :
    Unopened false (cs.drop p.more) := by
  obtain ⟨⟨hshaped, -⟩, hkind⟩ := admissible_piece hp (h.1 rfl)
  have hends : endsQuoted false (c :: cs.take p.more) = false := by
    simpa [Piece.token] using endsQuoted_shaped hshaped hkind
  have hcut : c :: cs = (c :: cs.take p.more) ++ cs.drop p.more := by simp
  rw [hcut, unopened_append, hends] at h
  exact h.2

/-- No piece of such a text begins with a bracket: quotes are closed wherever a piece begins. -/
theorem scan_check_irrelevant (check check' : List Char → Except SyntaxFault Unit)
    (offset : Nat) (last : Option TokenKind) {cs : List Char} (h : Unopened false cs) :
    scan check offset last cs = scan check' offset last cs := by
  induction offset, last, cs using scan.induct check with
  | case1 => rw [scan_nil, scan_nil]
  | case2 offset last c cs hg ih =>
    have hquote : (c == '"') = false := by obtain rfl | rfl | rfl | rfl := gap_cases hg <;> rfl
    have hrest : Unopened false cs := by simpa [hquote] using h.2
    rw [scan_gap check offset last cs hg, scan_gap check' offset last cs hg, ih hrest]
  | case3 offset last c cs hg e hp =>
    have hgap : isGap c = false := by simpa using hg
    have hp' := hp
    rw [piece_check_irrelevant check check' last cs (h.1 rfl)] at hp'
    rw [scan_error check offset last hgap hp, scan_error check' offset last hgap hp']
  | case4 offset last c cs hg p hp lexeme ih =>
    have hgap : isGap c = false := by simpa using hg
    have hp' := hp
    rw [piece_check_irrelevant check check' last cs (h.1 rfl)] at hp'
    rw [scan_piece check offset last hgap hp, scan_piece check' offset last hgap hp',
      ih (unopened_drop_piece h hp)]

theorem Unopened.dropWhile_isBlank {cs : List Char} (h : Unopened false cs) :
    Unopened false (cs.dropWhile Text.isBlank) := by
  induction cs with
  | nil => exact h
  | cons c cs ih =>
    by_cases hb : Text.isBlank c = true
    · have hquote : (c == '"') = false := by
        simpa using fun heq : c = '"' => absurd (heq ▸ hb) (by decide)
      rw [List.dropWhile_cons_of_pos hb]
      exact ih (by simpa [hquote] using h.2)
    · rwa [List.dropWhile_cons_of_neg hb]

theorem Unopened.trim {cs : List Char} (h : Unopened false cs) :
    Unopened false (Text.trim cs) := by
  have hstart : Unopened false (Text.trimStart cs) := h.dropWhile_isBlank
  have hsuffix := List.dropWhile_suffix Text.isBlank (l := (Text.trimStart cs).reverse)
  obtain ⟨blanks, happ⟩ := List.reverse_prefix.mpr hsuffix
  rw [List.reverse_reverse] at happ
  rw [← happ, unopened_append] at hstart
  exact hstart.1

theorem Unopened.between? {cs : List Char} (h : Unopened false cs) :
    Text.between? '[' ']' cs = none := by
  cases cs with
  | nil => rfl
  | cons c cs => simp [Text.between?, h.1 rfl]

/-- A body is judged by what its elements are read from. -/
theorem checkBody_eq {body : List Char} (h : Unopened false body) :
    checkBody body = (arrayElements (String.ofList body)).map fun _ => () := by
  have hscan := scan_check_irrelevant checkBody (fun _ => .error ⟨.unexpected '[', 0⟩) 0 none h.trim
  simp only [checkBody, arrayElements, String.toList_ofList, h.trim.between?, Option.getD_none,
    hscan]
  cases scan (fun _ => .error ⟨.unexpected '[', 0⟩) 0 none (Text.trim body) with
  | error e => rfl
  | ok ts => cases elements ts <;> rfl

theorem checkBody_eq_ok_iff {body : List Char} (h : Unopened false body) :
    checkBody body = .ok () ↔ ∃ elements, arrayElements (String.ofList body) = .ok elements := by
  rw [checkBody_eq h, Outcome.map_eq_ok_iff]
  simp

theorem shaped_arrayPiece {cs : List Char} {p : Piece} (h : arrayPiece checkBody cs = .ok p) :
    (p.token '[' cs).Shaped ∧ p.kind = .array := by
  unfold arrayPiece at h
  split at h
  · cases h
  rename_i body hbody
  split at h
  · cases h
  rename_i hcheck
  cases h
  obtain ⟨rest, rfl, henc⟩ := exists_of_arrayBody hbody
  refine ⟨⟨body, henc, (checkBody_eq_ok_iff henc.unopened).mp hcheck, ?_⟩, rfl⟩
  simp [Piece.token, List.take_append, List.take_of_length_le]

theorem arrayPiece_enclosed {body : List Char} (rest : List Char) (henc : Enclosed false body)
    (h : ∃ elements, arrayElements (String.ofList body) = .ok elements) :
    arrayPiece checkBody (body ++ ']' :: rest) = .ok ⟨.array, body.length + 1⟩ := by
  have hcheck := (checkBody_eq_ok_iff henc.unopened).mpr h
  simp only [arrayPiece, arrayBody_enclosed 1 rest henc, hcheck]

end GridRules.Token
