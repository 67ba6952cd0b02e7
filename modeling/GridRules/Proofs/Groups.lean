import GridRules.Proofs.Infix
import GridRules.Proofs.Reordering
import GridRules.Proofs.ScanOn

/-! A text in parentheses behind an operator. Its tokens stand between the two parentheses, and
its operand-first order stands where that of one operand would. -/
namespace GridRules

namespace Token
open Expression (opening closing)

/-- Of the token before, it only matters whether a value is expected after it. -/
theorem scan_expected (check : List Char → Except SyntaxFault Unit) (offset : Nat)
    {last last' : Option TokenKind} (h : valueExpected last = valueExpected last')
    (cs : List Char) : scan check offset last cs = scan check offset last' cs := by
  induction cs generalizing offset with
  | nil => rw [scan_nil, scan_nil]
  | cons c cs ih =>
    cases hg : isGap c with
    | true => rw [scan_gap check offset last cs hg, scan_gap check offset last' cs hg, ih]
    | false =>
      have hpiece : piece check last c cs = piece check last' c cs := by
        simp only [piece, minusPiece, h]
      cases hp : piece check last c cs with
      | error e =>
        rw [scan_error check offset last hg hp, scan_error check offset last' hg (hpiece ▸ hp)]
      | ok p =>
        rw [scan_piece check offset last hg hp, scan_piece check offset last' hg (hpiece ▸ hp)]

theorem scan_opening (offset : Nat) (last : Option TokenKind) (cs : List Char) :
    scan checkBody offset last ('(' :: cs) =
      (scan checkBody (offset + 1) none cs).map (opening :: ·) := by
  have hpiece : piece checkBody last '(' cs = .ok ⟨.leftParen, 0⟩ := rfl
  rw [scan_piece checkBody offset last (by decide) hpiece, List.take_zero, List.drop_zero,
    scan_expected checkBody _ (show valueExpected (some .leftParen) = valueExpected none from rfl)]
  rfl

theorem scan_closing (offset : Nat) (last : Option TokenKind) :
    scan checkBody offset last [')'] = .ok [closing] := by
  have hpiece : piece checkBody last ')' [] = .ok ⟨.rightParen, 0⟩ := rfl
  rw [scan_piece checkBody offset last (by decide) hpiece, List.drop_nil, scan_nil]
  rfl

theorem scan_group {text : String} {ts : List Token} (h : tokenize text = .ok ts) (offset : Nat)
    (last : Option TokenKind) :
    scan checkBody offset last ('(' :: (text.toList ++ [')'])) =
      .ok (opening :: (ts ++ [closing])) := by
  have hstops : Stops [')'] := stops_cons (.inr (by simp)) []
  obtain ⟨last', hscan⟩ := scan_append (scan_offset h (offset + 1)) hstops
  rw [scan_opening, hscan, scan_closing, Outcome.map_ok, Outcome.map_ok]

end Token

namespace Expression
open Token

variable {stack base out rest : List Token}

theorem yield_opening (t : Token) (stack base : List Token) :
    yield t (stack ++ opening :: base) = (yield t stack).map id (· ++ opening :: base) := by
  induction stack with
  | nil => simp [yield, opening]
  | cons top stack ih =>
    rw [List.cons_append, yield, yield, ih]
    split <;> rfl

theorem closeGroup_append (h : closeGroup stack = some (out, rest)) (base : List Token) :
    closeGroup (stack ++ base) = some (out, rest ++ base) := by
  induction stack generalizing out with
  | nil => cases h
  | cons top stack ih =>
    rw [List.cons_append, closeGroup]
    rw [closeGroup] at h
    split
    · rename_i hk
      rw [if_pos hk] at h
      cases h
      rfl
    · rename_i hk
      rw [if_neg hk] at h
      obtain ⟨⟨out', rest'⟩, hclose, hmap⟩ := Option.map_eq_some_iff.mp h
      cases hmap
      rw [ih hclose]
      rfl

/-- What stands below an open parenthesis stays untouched until it is closed. -/
theorem toRpnFrom_group {ts : List Token} (h : toRpnFrom stack ts = .ok out) (base us : List Token) :
    toRpnFrom (stack ++ opening :: base) (ts ++ closing :: us) =
      (toRpnFrom base us).map (out ++ ·) := by
  induction ts generalizing stack out with
  | nil =>
    obtain ⟨rfl, hopen⟩ := finish_eq_ok_iff.mp h
    exact toRpnFrom_closing us fun t ht => ⟨opened_eq_zero.mp hopen t ht, Nat.zero_le _⟩
  | cons t ts ih =>
    have hoperator (h : (if t.isNot then toRpnFrom (t :: stack) ts
        else (toRpnFrom (t :: (yield t stack).2) ts).map ((yield t stack).1 ++ ·)) = .ok out) :
        (if t.isNot then toRpnFrom (t :: (stack ++ opening :: base)) (ts ++ closing :: us)
          else (toRpnFrom (t :: (yield t (stack ++ opening :: base)).2)
            (ts ++ closing :: us)).map ((yield t (stack ++ opening :: base)).1 ++ ·)) =
          (toRpnFrom base us).map (out ++ ·) := by
      split at h
      · rename_i hn
        rw [if_pos hn]
        exact ih h
      · rename_i hn
        obtain ⟨out', hout, rfl⟩ := Outcome.map_eq_ok_iff.mp h
        have hrest := ih hout
        rw [List.cons_append] at hrest
        rw [if_neg hn, yield_opening, Prod.map_fst, Prod.map_snd, id_eq, hrest, map_append]
    rw [List.cons_append, toRpnFrom]
    rw [toRpnFrom] at h
    cases hk : t.kind with
    | leftParen =>
      simp only [hk] at h ⊢
      exact ih h
    | rightParen =>
      simp only [hk] at h ⊢
      split at h
      · cases h
      · rename_i left rest hclose
        obtain ⟨out', hout, rfl⟩ := Outcome.map_eq_ok_iff.mp h
        rw [closeGroup_append hclose]
        simp only [ih hout, map_append]
    | separator =>
      simp only [hk] at h ⊢
      exact ih h
    | arithmetic | boolean | comparison =>
      simp only [hk] at h ⊢
      exact hoperator h
    | array | string | numeral | identifier =>
      simp only [hk] at h ⊢
      obtain ⟨out', hout, rfl⟩ := Outcome.map_eq_ok_iff.mp h
      rw [ih hout]
      cases toRpnFrom base us <;> rfl

namespace BinaryOp

variable {l : Token} {text : String} {ts : List Token}

theorem tokenize_between_group (op : BinaryOp) (hl : l.Shaped) (h : tokenize text = .ok ts) :
    tokenize (op.between l.lexeme ("(" ++ text ++ ")")) =
      .ok (l :: op.token :: opening :: (ts ++ [closing])) := by
  have hvalue : valueExpected (some op.token.kind) = true :=
    (valueExpected_iff op.token).mpr (.inr (.inr op.isOperator_token))
  have hbefore : tokenize (join [l, op.token]) = .ok [l, op.token] := by
    refine scan_join 0 ?_ ⟨fun _ => rfl, fun h => absurd h op.not_isSigned_token, trivial⟩
    simp [hl, op.shaped_token]
  have htext : (op.between l.lexeme ("(" ++ text ++ ")")).toList =
      (join [l, op.token]).toList ++ ' ' :: '(' :: (text.toList ++ [')']) := by
    simp [between, join, String.intercalate_cons_cons]
  have hstops : Stops (' ' :: '(' :: (text.toList ++ [')'])) := stops_cons (.inl rfl) _
  obtain ⟨last, hscan⟩ := scan_append hbefore hstops
  rw [tokenize, htext, hscan, scan_gap checkBody _ _ _ (by decide), scan_group h, Outcome.map_ok]
  rfl

/-- An operand, an operator and a group come to the same order as the operand, all of the group's
order, and the operator. -/
theorem toRpn_between_group (op : BinaryOp) (l : Operand) (h : toRpn ts = .ok out) :
    toRpn (l.token :: op.token :: opening :: (ts ++ [closing])) =
      .ok (l.token :: (out ++ [op.token])) := by
  have hgroup : toRpnFrom ([] ++ opening :: [op.token]) (ts ++ [closing]) =
      (toRpnFrom [op.token] []).map (out ++ ·) := toRpnFrom_group h [op.token] []
  have hend : toRpnFrom [op.token] [] = .ok [op.token] := by
    cases op <;> rfl
  have hnext : toRpnFrom [] (op.token :: opening :: (ts ++ [closing])) =
      (toRpnFrom [op.token] (opening :: (ts ++ [closing]))).map ([] ++ ·) :=
    op.toRpnFrom_token [] _
  rw [toRpn, toRpnFrom_operand, hnext, toRpnFrom_opening, ← List.nil_append (opening :: _), hgroup,
    hend]
  rfl

end BinaryOp

end Expression
end GridRules
