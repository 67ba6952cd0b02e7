import GridRules.Proofs.Precedence
import GridRules.Proofs.Rejoin
import GridRules.Proofs.Reordering
import GridRules.Proofs.StackMachine

/-! The grammar of expressions. A list of tokens that has a value derives from it exactly if no
value begins in the list where another one has just ended: all other faults in the arrangement,
such as a missing operand or an empty pair of parentheses, leave the machine without a value. -/
namespace GridRules

namespace Token

/-- A part of an expression that has a value may begin with the token. -/
def beginsValue (t : Token) : Bool := t.kind.isOperand || t.isNot || t.kind = .leftParen

/-- A part of an expression that has a value may end with the token. -/
def endsValue (t : Token) : Bool := t.kind.isOperand || t.kind = .rightParen

/-- Between two values there is an operator. If `ended`, a value ends before the list. -/
def Spaced : Bool → List Token → Prop
  | _, [] => True
  | ended, t :: ts => (ended = true → t.beginsValue = false) ∧ Spaced t.endsValue ts

theorem spaced_endsValue_iff (t : Token) (ts : List Token) :
    Spaced t.endsValue ts ↔
      (t :: ts).IsChain fun t u => ¬ (t.endsValue ∧ u.beginsValue) := by
  induction ts generalizing t with
  | nil => simp [Spaced]
  | cons u ts ih => simp [Spaced, ih u]

theorem spaced_false_iff (ts : List Token) :
    Spaced false ts ↔ ts.IsChain fun t u => ¬ (t.endsValue ∧ u.beginsValue) := by
  cases ts with
  | nil => simp [Spaced]
  | cons t ts => simp [Spaced, spaced_endsValue_iff]

/-- How many values more a token leaves than it takes. -/
def weight (t : Token) : Int :=
  if t.kind.isOperand then 1 else if t.kind.isOperator && !t.isNot then -1 else 0

end Token

namespace Expression
open Token

/-- The lists of tokens that the grammar derives. -/
inductive Derives : List Token → Prop where
  | operand (x : Operand) : Derives [x.token]
  | negation {ts : List Token} (h : Derives ts) : Derives (Token.negation :: ts)
  | binary {ls rs : List Token} (op : BinaryOp) (hl : Derives ls) (hr : Derives rs) :
      Derives (ls ++ op.token :: rs)
  | group {ts : List Token} (h : Derives ts) : Derives (opening :: (ts ++ [closing]))

/-- What a token of a text is to an expression. -/
inductive Role : Token → Prop where
  | operand (x : Operand) : Role x.token
  | negation : Role Token.negation
  | binary (op : BinaryOp) : Role op.token
  | opening : Role opening
  | closing : Role closing

theorem Role.of_shaped {t : Token} (h : t.Shaped) (hsep : t.kind ≠ .separator) : Role t := by
  obtain ⟨kind, lexeme⟩ := t
  cases kind with
  | leftParen =>
    have hl : lexeme = "(" := h
    exact hl ▸ .opening
  | rightParen =>
    have hl : lexeme = ")" := h
    exact hl ▸ .closing
  | array => exact .operand ⟨⟨.array, lexeme⟩, rfl⟩
  | string => exact .operand ⟨⟨.string, lexeme⟩, rfl⟩
  | numeral => exact .operand ⟨⟨.numeral, lexeme⟩, rfl⟩
  | identifier => exact .operand ⟨⟨.identifier, lexeme⟩, rfl⟩
  | separator => exact absurd rfl hsep
  | arithmetic =>
    simp only [Shaped, List.mem_cons, List.not_mem_nil, or_false] at h
    rcases h with rfl | rfl | rfl | rfl | rfl | rfl
    exacts [.binary .add, .binary .sub, .binary .mul, .binary .div, .binary .pow, .binary .mod]
  | boolean =>
    simp only [Shaped, List.mem_cons, List.not_mem_nil, or_false] at h
    rcases h with rfl | rfl | rfl
    exacts [.binary .and, .binary .or, .negation]
  | comparison =>
    simp only [Shaped, List.mem_cons, List.not_mem_nil, or_false] at h
    rcases h with rfl | rfl | rfl | rfl | rfl | rfl
    exacts [.binary .lt, .binary .le, .binary .gt, .binary .ge, .binary .eq, .binary .ne]

/-! The place of each role: whether a value begins and ends with it, and its weight. -/

theorem place_operand (x : Operand) :
    x.token.beginsValue = true ∧ x.token.endsValue = true ∧ x.token.weight = 1 := by
  simp [Token.beginsValue, Token.endsValue, Token.weight, x.isOperand]

theorem place_binary (op : BinaryOp) :
    op.token.beginsValue = false ∧ op.token.endsValue = false ∧ op.token.weight = -1 := by
  cases op <;> decide

theorem place_negation : Token.negation.beginsValue = true ∧ Token.negation.endsValue = false ∧
    Token.negation.weight = 0 := by decide

theorem place_closing :
    closing.beginsValue = false ∧ closing.endsValue = true ∧ closing.weight = 0 := by decide

/-- The weight of a token follows from whether a value begins and whether one ends with it. -/
theorem Role.weight_eq {t : Token} (h : Role t) :
    t.weight = t.beginsValue.toNat + t.endsValue.toNat - 1 := by
  cases h with
  | operand x =>
    obtain ⟨hb, he, hw⟩ := place_operand x
    simp [hb, he, hw]
  | binary op =>
    obtain ⟨hb, he, hw⟩ := place_binary op
    simp [hb, he, hw]
  | negation | opening | closing => decide

/-! What a list leaves, counted in values. -/

def balance : List Token → Int
  | [] => 0
  | t :: ts => t.weight + balance ts

theorem balance_append (ts us : List Token) : balance (ts ++ us) = balance ts + balance us := by
  induction ts with
  | nil => simp [balance]
  | cons t ts ih =>
    rw [List.cons_append, balance, balance, ih, Int.add_assoc]

theorem balance_perm {ts us : List Token} (h : ts.Perm us) : balance ts = balance us := by
  induction h with
  | nil => rfl
  | cons t _ ih => rw [balance, balance, ih]
  | swap t u ts =>
    simp only [balance]
    omega
  | trans _ _ ih₁ ih₂ => exact ih₁.trans ih₂

theorem balance_terms (ts : List Token) : balance (terms ts) = balance ts := by
  induction ts with
  | nil => rfl
  | cons t ts ih =>
    cases ht : t.isTerm with
    | true => rw [terms_cons_of_isTerm ht, balance, balance, ih]
    | false =>
      have hw : t.weight = 0 := by
        simp only [isTerm, Bool.or_eq_false_iff] at ht
        simp [Token.weight, ht]
      rw [terms_cons_of_not_isTerm ht, balance, hw, ih, Int.zero_add]

theorem weight_operator (op : Operator) : op.token.weight = -1 := by
  simp [Token.weight, op.not_isOperand, op.isOperator, op.isBinary]

theorem balance_rpn (t : Tree) : balance t.rpn = 1 := by
  induction t with
  | operand x => simp [Tree.rpn, balance, place_operand x]
  | negation t ih =>
    simp [Tree.rpn, balance_append, balance, ih, place_negation]
  | binary op l r ihl ihr =>
    simp [Tree.rpn, balance_append, balance, ihl, ihr, weight_operator]

/-- Infix tokens with a value leave that one value. -/
theorem balance_of_evaluate {s : Scope} {ts rpn : List Token} {v : Float}
    (hrpn : toRpn ts = .ok rpn) (hv : Evaluate.evaluate s rpn = .ok v) : balance ts = 1 := by
  obtain ⟨t, rfl⟩ := StackMachine.exists_tree_of_evaluate s hv
  have hperm : t.rpn.Perm (terms ts) := toRpnFrom_perm stacked_nil hrpn
  rw [← balance_terms, ← balance_perm hperm, balance_rpn]

/-! Derivations. -/

/-- Whatever derives may stand in front of what may follow a value. -/
theorem Derives.spaced_append {ts : List Token} (h : Derives ts) {rest : List Token}
    (hrest : Spaced true rest) : Spaced false (ts ++ rest) := by
  induction h generalizing rest with
  | operand x =>
    refine ⟨by simp, ?_⟩
    rwa [(place_operand x).2.1]
  | negation h ih => exact ⟨by simp, ih hrest⟩
  | binary op hl hr ihl ihr =>
    obtain ⟨hbegins, hends, -⟩ := place_binary op
    rw [List.append_assoc]
    refine ihl ⟨fun _ => hbegins, ?_⟩
    rw [hends]
    exact ihr hrest
  | group h ih =>
    rw [List.cons_append, List.append_assoc]
    exact ⟨by simp, ih ⟨fun _ => place_closing.1, hrest⟩⟩

theorem Derives.spaced {ts : List Token} (h : Derives ts) : Spaced false ts := by
  have hempty : Spaced true [] := trivial
  simpa using h.spaced_append hempty

theorem toNat_begins_le {t : Token} {ended : Bool} (h : ended = true → t.beginsValue = false) :
    t.beginsValue.toNat + ended.toNat ≤ 1 := by
  cases ended with
  | true => simp [h rfl]
  | false => exact t.beginsValue.toNat_le

/-- A list with spaced values leaves at most one value, counting one that ends before it. -/
theorem balance_le_of_spaced {ts : List Token} (hroles : ∀ t ∈ ts, Role t) {ended : Bool}
    (h : Spaced ended ts) : balance ts + ended.toNat ≤ 1 := by
  induction ts generalizing ended with
  | nil => cases ended <;> decide
  | cons t ts ih =>
    obtain ⟨ht, hts⟩ := List.forall_mem_cons.mp hroles
    obtain ⟨hbegins, hspaced⟩ := h
    have hrest := ih hts hspaced
    have hfirst := toNat_begins_le hbegins
    rw [balance, ht.weight_eq]
    omega

/-- If it leaves one, a value begins with its first token exactly where none has ended. -/
theorem begins_of_balance {t : Token} {ts : List Token} (ht : Role t) (hts : ∀ t ∈ ts, Role t)
    {ended : Bool} (h : Spaced ended (t :: ts)) (hone : balance (t :: ts) + ended.toNat = 1) :
    ended = !t.beginsValue ∧ balance ts + t.endsValue.toNat = 1 := by
  have hrest := balance_le_of_spaced hts h.2
  have hfirst := toNat_begins_le h.1
  rw [balance, ht.weight_eq] at hone
  refine ⟨?_, by omega⟩
  cases ended with
  | true => rw [h.1 rfl, Bool.not_false]
  | false =>
    cases hb : t.beginsValue with
    | true => rfl
    | false =>
      rw [hb, Bool.toNat_false] at hone
      omega

/-- The start of an expression: a value, or what makes a value of every value behind it. -/
def Begun (ended : Bool) (front : List Token) : Prop :=
  if ended then Derives front else ∀ ts, Derives ts → Derives (front ++ ts)

/-- The tokens of groups that are open, with what stands in front of each of them, up to the end of
`front`. -/
def within : List (List Token) → List Token → List Token
  | [], front => front
  | before :: outer, front => within outer (before ++ opening :: front)

theorem Begun.value {front ts : List Token} (h : Begun false front) (hts : Derives ts) :
    Begun true (front ++ ts) := h ts hts

theorem Begun.negation {front : List Token} (h : Begun false front) :
    Begun false (front ++ [Token.negation]) := fun ts hts => by
  rw [List.append_assoc]
  exact h _ hts.negation

theorem Begun.binary {front : List Token} (h : Begun true front) (op : BinaryOp) :
    Begun false (front ++ [op.token]) := fun ts hts => by
  rw [List.append_assoc]
  exact Derives.binary op h hts

theorem begun_nil : Begun false [] := fun _ h => h

/-- With spaced values, closed groups and one value in the end a begun expression is complete. -/
theorem derives_within {ts : List Token} (hroles : ∀ t ∈ ts, Role t) {ended : Bool}
    (hspaced : Spaced ended ts) (hone : balance ts + ended.toNat = 1) {front : List Token}
    {outer : List (List Token)} (hfront : Begun ended front)
    (houter : ∀ before ∈ outer, Begun false before) (hcloses : Closes outer.length ts) :
    Derives (within outer (front ++ ts)) := by
  induction ts generalizing ended front outer with
  | nil =>
    obtain rfl : outer = [] := List.length_eq_zero_iff.mp hcloses
    cases ended with
    | true => simpa [Begun, within] using hfront
    | false => simp [balance] at hone
  | cons t ts ih =>
    obtain ⟨ht, hts⟩ := List.forall_mem_cons.mp hroles
    obtain ⟨hended, hnext⟩ := begins_of_balance ht hts hspaced hone
    replace hspaced := hspaced.2
    cases ht with
    | operand x =>
      obtain ⟨hb, he, -⟩ := place_operand x
      rw [hb] at hended
      rw [he] at hspaced hnext
      subst hended
      rw [List.append_cons]
      exact ih hts hspaced hnext (hfront.value (.operand x)) houter
        ((closes_cons_of_isTerm (isTerm_of_isOperand x.isOperand) _ _).mp hcloses)
    | negation =>
      subst hended
      rw [List.append_cons]
      exact ih hts hspaced hnext hfront.negation houter hcloses
    | binary op =>
      obtain ⟨hb, he, -⟩ := place_binary op
      rw [hb] at hended
      rw [he] at hspaced hnext
      subst hended
      rw [List.append_cons]
      refine ih hts hspaced hnext (hfront.binary op) houter ?_
      cases op <;> exact hcloses
    | opening =>
      subst hended
      have hgroup : Derives (within (front :: outer) ([] ++ ts)) :=
        ih hts hspaced hnext begun_nil (List.forall_mem_cons.mpr ⟨hfront, houter⟩) hcloses
      simpa [within] using hgroup
    | closing =>
      subst hended
      cases outer with
      | nil => exact hcloses.elim
      | cons before outer =>
        obtain ⟨hbefore, houter⟩ := List.forall_mem_cons.mp houter
        have hvalue : Begun true (before ++ opening :: (front ++ [closing])) :=
          hbefore.value (.group hfront)
        simpa [within] using ih hts hspaced hnext hvalue houter hcloses

/-- A text without separators that has a value derives from the grammar exactly if no value begins
in it where another one has just ended. -/
theorem derives_iff_of_evaluate {text : String} {ts rpn : List Token} {s : Scope} {v : Float}
    (htokens : tokenize text = .ok ts) (hseparators : ∀ t ∈ ts, t.kind ≠ .separator)
    (hcompile : compile text = .ok rpn) (hvalue : Evaluate.evaluate s rpn = .ok v) :
    Derives ts ↔ ts.IsChain fun t u => ¬ (t.endsValue ∧ u.beginsValue) := by
  rw [compile, htokens, Outcome.bind_ok] at hcompile
  rw [← spaced_false_iff]
  refine ⟨Derives.spaced, fun hspaced => ?_⟩
  have hroles : ∀ t ∈ ts, Role t := fun t ht =>
    .of_shaped ((shaped_of_scan htokens).1 t ht) (hseparators t ht)
  have hone : balance ts + false.toNat = 1 := by
    simpa using balance_of_evaluate hcompile hvalue
  have hcloses : Closes 0 ts := closes_of_toRpnFrom hcompile
  have hderives : Derives (within [] ([] ++ ts)) :=
    derives_within hroles hspaced hone begun_nil nofun hcloses
  simpa [within] using hderives

/-- Both ways for `!(A - 1 < 2) || B`. -/
theorem derives_iff_of_evaluate_mixed :
    let text := "!(A - 1 < 2) || B"
    let a : Token := ⟨.identifier, "A"⟩
    let b : Token := ⟨.identifier, "B"⟩
    let one : Token := ⟨.numeral, "1"⟩
    let two : Token := ⟨.numeral, "2"⟩
    let ts := [Token.negation, opening, a, BinaryOp.sub.token, one, BinaryOp.lt.token, two, closing,
      BinaryOp.or.token, b]
    let rpn := [a, one, BinaryOp.sub.token, two, BinaryOp.lt.token, Token.negation, b,
      BinaryOp.or.token]
    let s := (Variables.bindConstant Table.empty "A" (.int 7)).scope ()
    tokenize text = .ok ts ∧ (∀ t ∈ ts, t.kind ≠ .separator) ∧ compile text = .ok rpn ∧
      Evaluate.evaluate s rpn = .ok 1 ∧
      (Derives ts ↔ ts.IsChain fun t u => ¬ (t.endsValue ∧ u.beginsValue)) := by
  intro text a b one two ts rpn s
  have htokens : tokenize text = .ok ts := by decide +kernel
  have hseparators : ∀ t ∈ ts, t.kind ≠ .separator := by decide
  have hcompile : compile text = .ok rpn := by decide +kernel
  have hvalue : Evaluate.evaluate s rpn = .ok 1 := by decide +kernel
  exact ⟨htokens, hseparators, hcompile, hvalue,
    derives_iff_of_evaluate htokens hseparators hcompile hvalue⟩

/-- `1 2 +` has a value, but its second number begins where the first has just ended. -/
theorem evaluate_of_no_derivation :
    let ts : List Token := [⟨.numeral, "1"⟩, ⟨.numeral, "2"⟩, ⟨.arithmetic, "+"⟩]
    tokenize "1 2 +" = .ok ts ∧ (∀ t ∈ ts, t.kind ≠ .separator) ∧ compile "1 2 +" = .ok ts ∧
      Evaluate.evaluate (Variables.scope Table.empty ()) ts = .ok 3 ∧ ¬ Derives ts := by
  intro ts
  refine ⟨by decide +kernel, by decide, by decide +kernel, by decide +kernel, fun h => ?_⟩
  exact absurd (h.spaced.2.1 rfl) (by decide)

end Expression
end GridRules
