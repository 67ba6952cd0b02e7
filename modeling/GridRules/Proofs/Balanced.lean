import GridRules.Proofs.CommandGrammar
import GridRules.Proofs.Precedence

/-! Balanced parentheses. A list can be put in operand-first order exactly if its parentheses are
balanced, whatever else is in it. An argument of a command has none of them, so it always can. -/
namespace GridRules

namespace Token

/-- How many parentheses a list closes. -/
def closed (ts : List Token) : Nat := ts.countP (·.kind = .rightParen)

/-- As many parentheses are closed as are opened, and at no place more of them. -/
structure Balanced (ts : List Token) : Prop where
  fronts : ∀ front, front <+: ts → closed front ≤ opened front
  total : closed ts = opened ts

def operands (ts : List Token) : List Token := ts.filter (·.kind.isOperand)

variable {stack left stack' ts out : List Token} {t : Token} {n : Nat}

theorem closed_cons_of_eq (h : t.kind = .rightParen) (ts : List Token) :
    closed (t :: ts) = closed ts + 1 := List.countP_cons_of_pos (by simpa using h)

theorem closed_cons_of_ne (h : t.kind ≠ .rightParen) (ts : List Token) :
    closed (t :: ts) = closed ts := List.countP_cons_of_neg (by simpa using h)

theorem operands_append (ts us : List Token) : operands (ts ++ us) = operands ts ++ operands us :=
  List.filter_append ..

theorem forall_prefix_cons {α : Type} {P : List α → Prop} {x : α} {xs : List α} :
    (∀ front, front <+: x :: xs → P front) ↔ P [] ∧ ∀ front, front <+: xs → P (x :: front) := by
  constructor
  · intro h
    exact ⟨h [] List.nil_prefix, fun front hfront => h _ (List.cons_prefix_cons.mpr ⟨rfl, hfront⟩)⟩
  · rintro ⟨hnil, hcons⟩ front hfront
    obtain rfl | ⟨rest, rfl, hrest⟩ := List.prefix_cons_iff.mp hfront
    · exact hnil
    · exact hcons rest hrest

/-- With `n` parentheses open before a list, none is closed that is not open, and in the end all
are. -/
theorem closes_iff_counts : Closes n ts ↔
    (∀ front, front <+: ts → closed front ≤ n + opened front) ∧ closed ts = n + opened ts := by
  induction ts generalizing n with
  | nil => simp [Closes, closed, opened, eq_comm]
  | cons t ts ih =>
    -- the empty front asks for nothing, unless the first token closes a parenthesis and `n` is zero
    rw [forall_prefix_cons]
    have hnil : closed [] ≤ n + opened [] := Nat.zero_le _
    by_cases hl : t.kind = .leftParen
    · have hr : t.kind ≠ .rightParen := by simp [hl]
      have hcloses : Closes n (t :: ts) ↔ Closes (n + 1) ts := by simp only [Closes, hl]
      simp only [hcloses, ih, opened_cons_of_eq hl, closed_cons_of_ne hr, hnil, true_and,
        Nat.add_assoc, Nat.add_comm 1]
    by_cases hr : t.kind = .rightParen
    · simp only [opened_cons_of_ne hl, closed_cons_of_eq hr, hnil, true_and]
      cases n with
      | zero =>
        have hcloses : ¬ Closes 0 (t :: ts) := by simp only [Closes, hr, not_false_eq_true]
        have hfirst : ¬ closed [] + 1 ≤ 0 + opened [] := Nat.not_succ_le_zero 0
        exact iff_of_false hcloses fun h => hfirst (h.1 [] List.nil_prefix)
      | succ n =>
        have hcloses : Closes (n + 1) (t :: ts) ↔ Closes n ts := by simp only [Closes, hr]
        simp only [hcloses, ih, Nat.add_right_comm n 1, Nat.add_le_add_iff_right,
          Nat.add_right_cancel_iff]
    · have ht : t.isTerm = true ∨ t.kind = .separator := by
        rw [isTerm_iff]
        tauto
      have hcloses : Closes n (t :: ts) ↔ Closes n ts := by
        obtain ht | hk := ht
        · exact closes_cons_of_isTerm ht n ts
        · simp only [Closes, hk]
      simp only [hcloses, ih, opened_cons_of_ne hl, closed_cons_of_ne hr, hnil, true_and]

theorem balanced_iff : Balanced ts ↔ Closes 0 ts := by
  simp only [closes_iff_counts, Nat.zero_add]
  exact ⟨fun h => ⟨h.fronts, h.total⟩, fun h => ⟨h.1, h.2⟩⟩

theorem operands_of_stacked (hs : Stacked stack) : operands stack = [] := by
  refine List.filter_eq_nil_iff.mpr fun t ht => ?_
  obtain hop | hk := hs t ht
  · simp [TokenKind.not_isOperand hop]
  · simp [hk, TokenKind.isOperand]

/-- Only an operand that is read leaves as one. -/
theorem Moves.operands_eq (h : Moves t stack left stack') (hs : Stacked stack) :
    operands left = operands [t] := by
  have hnone (hx : t.kind.isOperand = false) : operands [t] = [] := by simp [operands, hx]
  cases h with
  | opens hk =>
    rw [hnone (by rw [hk]; rfl)]
    rfl
  | closes hk => rw [hnone (by rw [hk]; rfl), operands_of_stacked (stacked_append.mp hs).1]
  | drops hk =>
    rw [hnone (by rw [hk]; rfl)]
    rfl
  | waits hk =>
    rw [hnone (TokenKind.not_isOperand hk), operands_of_stacked (stacked_append.mp hs).1]
  | leaves => rfl

/-- Operands come out in the order in which they are read. -/
theorem operands_toRpnFrom (hs : Stacked stack) (h : toRpnFrom stack ts = .ok out) :
    operands out = operands ts := by
  induction ts generalizing stack out with
  | nil =>
    obtain ⟨rfl, -⟩ := finish_eq_ok_iff.mp h
    exact operands_of_stacked hs
  | cons t ts ih =>
    obtain ⟨left, stack', out', hmoves, hout, rfl⟩ := toRpnFrom_cons_eq_ok h
    rw [operands_append, hmoves.operands_eq hs, ih (hmoves.stacked hs) hout, ← operands_append,
      List.singleton_append]

theorem toRpn_eq_error_iff {e : SyntaxFault} :
    toRpn ts = .error e ↔ e = unbalanced ∧ ¬ Balanced ts := by
  rw [toRpn, toRpnFrom_eq_error_iff, balanced_iff]
  rfl

theorem toRpn_ok_iff : (∃ out, toRpn ts = .ok out) ↔ Balanced ts := by
  constructor
  · rintro ⟨out, hout⟩
    exact balanced_iff.mpr (closes_of_toRpnFrom hout)
  · intro hb
    cases h : toRpn ts with
    | ok out => exact ⟨out, rfl⟩
    | error e => exact absurd hb (toRpn_eq_error_iff.mp h).2

theorem closes_of_terms (h : ∀ t ∈ ts, t.isTerm = true) : Closes 0 ts := by
  induction ts with
  | nil => rfl
  | cons t ts ih =>
    obtain ⟨ht, hts⟩ := List.forall_mem_cons.mp h
    exact (closes_cons_of_isTerm ht 0 ts).mpr (ih hts)

end Token

namespace Command
open Token (Balanced terms operands unbalanced)
open Expression (opening closing)

/-- An argument has an order, and its number is what that order is evaluated to. -/
theorem exists_rpn_of_argument {c : Command} {i : Nat} {group : List Token}
    (hg : c.arguments[i]? = some group) (hgroup : IsGroup group) (s : Scope) :
    ∃ rpn, Token.toRpn group = .ok rpn ∧
      c.argument i s = (Evaluate.evaluate s rpn).mapError .evaluation := by
  have hbalanced : Balanced group := Token.balanced_iff.mpr (Token.closes_of_terms hgroup.terms)
  obtain ⟨rpn, hrpn⟩ := Token.toRpn_ok_iff.mpr hbalanced
  refine ⟨rpn, hrpn, ?_⟩
  simp only [argument, hg, Expression.ofTokens, hrpn, Outcome.mapError_ok, Outcome.bind_ok]

theorem argument_ne_syntactic {text : String} {cs : List Command} (h : parse text = .ok cs)
    {c : Command} (hc : c ∈ cs) {i : Nat} (hi : i < c.arguments.length) (s : Scope)
    (e : SyntaxFault) : c.argument i s ≠ .error (.syntactic e) := by
  obtain ⟨ts, -, hcs⟩ := Outcome.bind_eq_ok_iff.mp h
  obtain ⟨us, -, hitem⟩ := (items_of_separate hcs).exists_item hc
  have hgroup : IsGroup c.arguments[i] := hitem.isGroup _ (List.getElem_mem hi)
  obtain ⟨rpn, -, hargument⟩ := exists_rpn_of_argument (List.getElem?_eq_getElem hi) hgroup s
  rw [hargument]
  cases Evaluate.evaluate s rpn <;> simp

/-- A list comes into operand-first order exactly if its parentheses are balanced, and if it does
not, they are the fault. The order has the same operands and operators, and the operands stand in
it as they did before. So an argument of a command is never at fault by its syntax. -/
theorem toRpn_ok_iff_balanced :
    (∀ ts, ((∃ out, Token.toRpn ts = .ok out) ↔ Balanced ts) ∧
      (¬ Balanced ts → Token.toRpn ts = .error unbalanced) ∧
      ∀ out, Token.toRpn ts = .ok out → out.Perm (terms ts) ∧ operands out = operands ts) ∧
    ∀ text cs, parse text = .ok cs → ∀ c ∈ cs, ∀ i < c.arguments.length, ∀ s e,
      c.argument i s ≠ .error (.syntactic e) := by
  refine ⟨fun ts => ⟨Token.toRpn_ok_iff, fun hb => Token.toRpn_eq_error_iff.mpr ⟨rfl, hb⟩,
    fun out hout => ⟨?_, ?_⟩⟩, fun text cs h c hc i hi s e => argument_ne_syntactic h hc hi s e⟩
  · exact Token.toRpnFrom_perm Token.stacked_nil hout
  · exact Token.operands_toRpnFrom Token.stacked_nil hout

/-- Parentheses that are as many but in the wrong order, and an argument that is no expression but
has an order all the same. -/
theorem toRpn_error_of_swapped :
    let c : Command := ⟨"F", [[⟨.numeral, "1"⟩, ⟨.arithmetic, "+"⟩], [⟨.numeral, "2"⟩]]⟩
    ¬ Balanced [closing, opening] ∧ Token.toRpn [closing, opening] = .error unbalanced ∧
      parse "F(1 +, 2); G" = .ok [c, ⟨"G", []⟩] ∧ ∀ s e, c.argument 0 s ≠ .error (.syntactic e) := by
  intro c
  have hb : ¬ Balanced [closing, opening] := fun h => by
    have hfirst : Token.closed [closing] ≤ Token.opened [closing] := h.fronts _ (by simp)
    exact absurd hfirst (by decide)
  have hparse : parse "F(1 +, 2); G" = .ok [c, ⟨"G", []⟩] := by decide +kernel
  obtain ⟨horder, hargument⟩ := toRpn_ok_iff_balanced
  exact ⟨hb, (horder [closing, opening]).2.1 hb, hparse,
    hargument _ _ hparse c (by simp) 0 (by decide)⟩

end Command
end GridRules
