import GridRules.Proofs.ScanOn

/-! Separators. A text of parts with a separator and a space between them is scanned to the tokens
of the parts with the separator between them. -/
namespace GridRules.Token

def separator (c : Char) : Token := ⟨.separator, String.ofList [c]⟩

def comma : Token := ⟨.separator, ","⟩

def semicolon : Token := ⟨.separator, ";"⟩

variable {check : List Char → Except SyntaxFault Unit} {c : Char}

theorem scan_separator (hc : c = ',' ∨ c = ';') (offset : Nat) (last : Option TokenKind)
    (rest : List Char) :
    scan check offset last (c :: ' ' :: rest) =
      (scan check (offset + 2) (some .separator) rest).map (separator c :: ·) := by
  have hgap : isGap ' ' = true := by decide
  have hstart : isGap c = false := by obtain rfl | rfl := hc <;> decide
  have hsize : byteLength [c] = 1 := by obtain rfl | rfl := hc <;> rfl
  have hpiece : piece check last c (' ' :: rest) = .ok ⟨.separator, 0⟩ := by
    obtain rfl | rfl := hc <;> rfl
  rw [scan_piece check offset last hstart hpiece, List.take_zero, List.drop_zero,
    scan_gap check _ _ rest hgap, hsize]
  rfl

/-- Parts that can be scanned where a value is expected can be scanned one after the other. -/
theorem scan_intercalate {α : Type} (hc : c = ',' ∨ c = ';') {text : α → List Char}
    {tokens : α → List Token} {parts : List α}
    (h : ∀ a ∈ parts, ∀ offset last, valueExpected last = true →
      scan check offset last (text a) = .ok (tokens a))
    (offset : Nat) {last : Option TokenKind} (hlast : valueExpected last = true) :
    scan check offset last ([c, ' '].intercalate (parts.map text)) =
      .ok ([separator c].intercalate (parts.map tokens)) := by
  induction parts generalizing offset last with
  | nil => exact scan_nil check offset last
  | cons a parts ih =>
    obtain ⟨ha, hparts⟩ := List.forall_mem_cons.mp h
    have hfirst := ha offset last hlast
    cases parts with
    | nil => simpa using hfirst
    | cons b parts =>
      simp only [List.map_cons, List.intercalate_cons_cons, List.append_assoc, List.cons_append,
        List.nil_append] at ih ⊢
      have hstop : IsStop c := .inr (by obtain rfl | rfl := hc <;> simp)
      obtain ⟨last', hscan⟩ := scan_append hfirst (stops_cons hstop _)
      rw [hscan, scan_separator hc, ih hparts _ rfl, Outcome.map_ok, Outcome.map_ok]

end GridRules.Token
