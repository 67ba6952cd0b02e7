import GridRules.Proofs.Outcome
import GridRules.Token.Rpn

/-! What the change of order keeps. All operands and operators of an infix list come through, each
as often as it stands there, and parentheses and separators do not; and the change goes through
exactly if every parenthesis has its partner. -/
namespace GridRules.Token

/-- Stands for a value or acts on values. -/
def isTerm (t : Token) : Bool := t.kind.isOperand || t.kind.isOperator

theorem isTerm_iff {t : Token} :
    t.isTerm = true ↔ t.kind ≠ .leftParen ∧ t.kind ≠ .rightParen ∧ t.kind ≠ .separator := by
  cases hk : t.kind <;> simp [isTerm, hk, TokenKind.isOperand, TokenKind.isOperator]

def terms (ts : List Token) : List Token := ts.filter isTerm

/-- What waits on a stack: operators and opening parentheses. -/
def Stacked (stack : List Token) : Prop :=
  ∀ t ∈ stack, t.kind.isOperator = true ∨ t.kind = .leftParen

theorem stacked_nil : Stacked [] := by simp [Stacked]

theorem Stacked.cons {t : Token} {stack : List Token} (h : Stacked stack)
    (ht : t.kind.isOperator = true ∨ t.kind = .leftParen) : Stacked (t :: stack) :=
  List.forall_mem_cons.mpr ⟨ht, h⟩

theorem stacked_append {out rest : List Token} :
    Stacked (out ++ rest) ↔ Stacked out ∧ Stacked rest := List.forall_mem_append

theorem terms_append (ts us : List Token) : terms (ts ++ us) = terms ts ++ terms us :=
  List.filter_append ..

theorem terms_cons_of_isTerm {t : Token} (h : t.isTerm = true) (ts : List Token) :
    terms (t :: ts) = t :: terms ts := List.filter_cons_of_pos h

theorem terms_cons_of_not_isTerm {t : Token} (h : t.isTerm = false) (ts : List Token) :
    terms (t :: ts) = terms ts := List.filter_cons_of_neg (by simp [h])

theorem isTerm_of_isOperator {t : Token} (h : t.kind.isOperator = true) : t.isTerm = true := by
  simp [isTerm, h]

theorem isTerm_of_isOperand {t : Token} (h : t.kind.isOperand = true) : t.isTerm = true := by
  simp [isTerm, h]

theorem not_isTerm {t : Token}
    (h : t.kind = .leftParen ∨ t.kind = .rightParen ∨ t.kind = .separator) :
    t.isTerm = false := by
  rcases h with h | h | h <;> simp [isTerm, h, TokenKind.isOperand, TokenKind.isOperator]

theorem terms_of_stacked {stack : List Token} (h : Stacked stack)
    (hopen : ∀ t ∈ stack, t.kind ≠ .leftParen) : terms stack = stack := by
  refine List.filter_eq_self.mpr fun t ht => ?_
  exact isTerm_of_isOperator ((h t ht).resolve_right (hopen t ht))

/-- How many parentheses a list opens; those on a stack are still open. -/
def opened (stack : List Token) : Nat := stack.countP (·.kind = .leftParen)

theorem opened_append (out rest : List Token) : opened (out ++ rest) = opened out + opened rest :=
  List.countP_append ..

theorem opened_cons_of_eq {t : Token} (h : t.kind = .leftParen) (stack : List Token) :
    opened (t :: stack) = opened stack + 1 := List.countP_cons_of_pos (by simpa using h)

theorem opened_cons_of_ne {t : Token} (h : t.kind ≠ .leftParen) (stack : List Token) :
    opened (t :: stack) = opened stack := List.countP_cons_of_neg (by simpa using h)

theorem opened_eq_zero {stack : List Token} :
    opened stack = 0 ↔ ∀ t ∈ stack, t.kind ≠ .leftParen := by
  simp [opened]

/-- Closing parentheses close those that are open, `n` before the list, and in the end none is
open. -/
def Closes : Nat → List Token → Prop
  | n, [] => n = 0
  | n, t :: ts => match t.kind, n with
    | .leftParen, n => Closes (n + 1) ts
    | .rightParen, 0 => False
    | .rightParen, n + 1 => Closes n ts
    | _, n => Closes n ts

theorem closes_cons_of_isTerm {t : Token} (h : t.isTerm = true) (n : Nat) (ts : List Token) :
    Closes n (t :: ts) ↔ Closes n ts := by
  obtain ⟨kind, lexeme⟩ := t
  cases kind with
  | leftParen => cases h
  | rightParen => cases h
  | _ => exact Iff.rfl

theorem yield_append (incoming : Token) (stack : List Token) :
    (yield incoming stack).1 ++ (yield incoming stack).2 = stack ∧
      opened (yield incoming stack).1 = 0 := by
  induction stack with
  | nil => exact ⟨rfl, rfl⟩
  | cons top stack ih =>
    rw [yield]
    split
    · exact ⟨rfl, rfl⟩
    · rename_i h
      have htop : top.kind ≠ .leftParen := fun hk => h (.inl hk)
      exact ⟨congrArg (top :: ·) ih.1, (opened_cons_of_ne htop _).trans ih.2⟩

theorem opened_of_closeGroup {stack : List Token} (h : closeGroup stack = none) :
    opened stack = 0 := by
  induction stack with
  | nil => rfl
  | cons top stack ih =>
    rw [closeGroup] at h
    split at h
    · cases h
    · rename_i htop
      rw [opened_cons_of_ne htop]
      exact ih (Option.map_eq_none_iff.mp h)

theorem closeGroup_eq_some {stack out rest : List Token}
    (h : closeGroup stack = some (out, rest)) :
    opened out = 0 ∧ ∃ top, top.kind = .leftParen ∧ stack = out ++ top :: rest := by
  induction stack generalizing out with
  | nil => cases h
  | cons top stack ih =>
    rw [closeGroup] at h
    split at h
    · rename_i htop
      cases h
      exact ⟨rfl, top, htop, rfl⟩
    · rename_i htop
      obtain ⟨⟨out', rest'⟩, hclose, heq⟩ := Option.map_eq_some_iff.mp h
      cases heq
      obtain ⟨hout, opening, hkind, rfl⟩ := ih hclose
      exact ⟨(opened_cons_of_ne htop _).trans hout, opening, hkind, rfl⟩

theorem finish_eq_ok_iff {stack out : List Token} :
    finish stack = .ok out ↔ stack = out ∧ opened stack = 0 := by
  have hany : stack.any (·.kind = .leftParen) = false ↔ opened stack = 0 := by
    rw [opened_eq_zero]
    simp
  rw [finish]
  cases h : stack.any (·.kind = .leftParen) with
  | true => simp [← hany, h]
  | false => simp [← hany, h]

/-- What reading a token does to the stack, with the tokens that it lets out. -/
inductive Moves (t : Token) : List Token → List Token → List Token → Prop where
  | opens {stack : List Token} (hk : t.kind = .leftParen) : Moves t stack [] (t :: stack)
  | closes {left rest : List Token} {opening : Token} (hk : t.kind = .rightParen)
      (ho : opening.kind = .leftParen) (hl : opened left = 0) :
      Moves t (left ++ opening :: rest) left rest
  | drops {stack : List Token} (hk : t.kind = .separator) : Moves t stack [] stack
  | waits {left rest : List Token} (hk : t.kind.isOperator = true) (hl : opened left = 0) :
      Moves t (left ++ rest) left (t :: rest)
  | leaves {stack : List Token} (hk : t.kind.isOperand = true) : Moves t stack [t] stack

variable {stack left stack' ts out : List Token} {t : Token}

theorem map_nil_append (r : Except SyntaxFault (List Token)) : r.map ([] ++ ·) = r := by
  cases r <;> rfl

/-- A token moves the stack, unless it closes a parenthesis and none is open. -/
theorem toRpnFrom_cons (stack : List Token) (t : Token) :
    (t.kind = .rightParen ∧ opened stack = 0 ∧
      ∀ ts, toRpnFrom stack (t :: ts) = .error unbalanced) ∨
    ∃ left stack', Moves t stack left stack' ∧
      ∀ ts, toRpnFrom stack (t :: ts) = (toRpnFrom stack' ts).map (left ++ ·) := by
  have hoperator (hop : t.kind.isOperator = true) : ∃ left stack', Moves t stack left stack' ∧
      ∀ ts, (if t.isNot then toRpnFrom (t :: stack) ts
        else (toRpnFrom (t :: (yield t stack).2) ts).map ((yield t stack).1 ++ ·)) =
          (toRpnFrom stack' ts).map (left ++ ·) := by
    split
    · have hmoves : Moves t ([] ++ stack) [] (t :: stack) := .waits hop rfl
      exact ⟨[], t :: stack, hmoves, fun ts => (map_nil_append _).symm⟩
    · obtain ⟨hstack, hleft⟩ := yield_append t stack
      have hmoves : Moves t ((yield t stack).1 ++ (yield t stack).2) (yield t stack).1
          (t :: (yield t stack).2) := .waits hop hleft
      rw [hstack] at hmoves
      exact ⟨_, _, hmoves, fun ts => rfl⟩
  have hoperand (hx : t.kind.isOperand = true) : Moves t stack [t] stack := .leaves hx
  simp only [toRpnFrom]
  cases hk : t.kind with
  | leftParen => exact .inr ⟨[], t :: stack, .opens hk, fun ts => (map_nil_append _).symm⟩
  | rightParen =>
    cases hclose : closeGroup stack with
    | none => exact .inl ⟨rfl, opened_of_closeGroup hclose, fun ts => rfl⟩
    | some group =>
      obtain ⟨left, rest⟩ := group
      obtain ⟨hleft, opening, hopening, rfl⟩ := closeGroup_eq_some hclose
      exact .inr ⟨left, rest, .closes hk hopening hleft, fun ts => rfl⟩
  | separator => exact .inr ⟨[], stack, .drops hk, fun ts => (map_nil_append _).symm⟩
  | arithmetic | boolean | comparison =>
    rw [hk] at hoperator
    exact .inr (hoperator rfl)
  | array | string | numeral | identifier =>
    rw [hk] at hoperand
    exact .inr ⟨[t], stack, hoperand rfl, fun ts => rfl⟩

theorem toRpnFrom_cons_eq_ok (h : toRpnFrom stack (t :: ts) = .ok out) :
    ∃ left stack' out', Moves t stack left stack' ∧ toRpnFrom stack' ts = .ok out' ∧
      out = left ++ out' := by
  obtain ⟨-, -, herror⟩ | ⟨left, stack', hmoves, hstep⟩ := toRpnFrom_cons stack t
  · cases h.symm.trans (herror ts)
  · rw [hstep] at h
    obtain ⟨out', hout, rfl⟩ := Outcome.map_eq_ok_iff.mp h
    exact ⟨left, stack', out', hmoves, hout, rfl⟩

/-! What every move keeps. -/

theorem Moves.stacked (h : Moves t stack left stack') (hs : Stacked stack) : Stacked stack' := by
  cases h with
  | opens hk => exact hs.cons (.inr hk)
  | closes => exact (List.forall_mem_cons.mp (stacked_append.mp hs).2).2
  | drops => exact hs
  | waits hk => exact (stacked_append.mp hs).2.cons (.inl hk)
  | leaves => exact hs

/-- What stands above the nearest opening parenthesis is operators. -/
theorem terms_left {rest : List Token} (hs : Stacked (left ++ rest)) (hl : opened left = 0) :
    terms left = left :=
  terms_of_stacked (stacked_append.mp hs).1 (opened_eq_zero.mp hl)

/-- No operand or operator is lost, and none is put in. -/
theorem Moves.perm (h : Moves t stack left stack') (hs : Stacked stack) :
    (left ++ terms stack').Perm (terms stack ++ terms [t]) := by
  cases h with
  | opens hk =>
    have ht := not_isTerm (.inl hk)
    rw [terms_cons_of_not_isTerm ht, terms_cons_of_not_isTerm ht]
    simp [terms]
  | @closes left rest opening hk ho hl =>
    rw [terms_append, terms_left hs hl, terms_cons_of_not_isTerm (not_isTerm (.inl ho)),
      terms_cons_of_not_isTerm (not_isTerm (.inr (.inl hk)))]
    simp [terms]
  | drops hk =>
    rw [terms_cons_of_not_isTerm (not_isTerm (.inr (.inr hk)))]
    simp [terms]
  | @waits left rest hk hl =>
    have ht := isTerm_of_isOperator hk
    rw [terms_append, terms_left hs hl, terms_cons_of_isTerm ht, terms_cons_of_isTerm ht,
      List.append_assoc]
    exact (List.perm_append_singleton t (terms rest)).symm.append_left left
  | leaves hk =>
    rw [terms_cons_of_isTerm (isTerm_of_isOperand hk)]
    exact (List.perm_append_singleton t (terms stack)).symm

theorem Moves.closes_iff (h : Moves t stack left stack') (ts : List Token) :
    Closes (opened stack) (t :: ts) ↔ Closes (opened stack') ts := by
  cases h with
  | opens hk =>
    rw [opened_cons_of_eq hk]
    simp only [Closes, hk]
  | closes hk ho hl =>
    rw [opened_append, hl, Nat.zero_add, opened_cons_of_eq ho]
    simp only [Closes, hk]
  | drops hk => simp only [Closes, hk]
  | waits hk hl =>
    have hne : t.kind ≠ .leftParen := fun h => by simp [h, TokenKind.isOperator] at hk
    rw [opened_append, hl, Nat.zero_add, opened_cons_of_ne hne,
      closes_cons_of_isTerm (isTerm_of_isOperator hk)]
  | leaves hk => exact closes_cons_of_isTerm (isTerm_of_isOperand hk) _ ts

/-- The operands and operators that are read, and those on the stack, are what comes out. -/
theorem toRpnFrom_perm (hs : Stacked stack) (h : toRpnFrom stack ts = .ok out) :
    out.Perm (terms (stack ++ ts)) := by
  induction ts generalizing stack out with
  | nil =>
    obtain ⟨rfl, hopen⟩ := finish_eq_ok_iff.mp h
    rw [List.append_nil, terms_of_stacked hs (opened_eq_zero.mp hopen)]
  | cons t ts ih =>
    obtain ⟨left, stack', out', hmoves, hout, rfl⟩ := toRpnFrom_cons_eq_ok h
    have hrest := ih (hmoves.stacked hs) hout
    rw [terms_append] at hrest
    have hmoved := (hmoves.perm hs).append_right (terms ts)
    have hterms : terms (stack ++ t :: ts) = terms stack ++ terms [t] ++ terms ts := by
      rw [← List.singleton_append, terms_append, terms_append [t], List.append_assoc]
    rw [List.append_assoc, ← hterms] at hmoved
    exact (hrest.append_left left).trans hmoved

/-- The change fails exactly if the parentheses of the list do not close those on the stack, and
always with the same fault. -/
theorem toRpnFrom_eq_error_iff {e : SyntaxFault} :
    toRpnFrom stack ts = .error e ↔ e = unbalanced ∧ ¬ Closes (opened stack) ts := by
  induction ts generalizing stack with
  | nil =>
    have hfinish : finish stack = .ok stack ↔ opened stack = 0 := by simp [finish_eq_ok_iff]
    rw [toRpnFrom, Closes, ← hfinish, finish]
    split <;> simp [eq_comm]
  | cons t ts ih =>
    obtain ⟨hk, hopened, herror⟩ | ⟨left, stack', hmoves, hstep⟩ := toRpnFrom_cons stack t
    · have hcloses : ¬ Closes (opened stack) (t :: ts) := by
        simp only [hopened, Closes, hk, not_false_eq_true]
      simp [herror, hcloses, eq_comm]
    · rw [hstep, Outcome.map_eq_error_iff, ih, hmoves.closes_iff]

/-- Every closing parenthesis meets an open one, and none stays open. -/
theorem closes_of_toRpnFrom (h : toRpnFrom stack ts = .ok out) : Closes (opened stack) ts := by
  refine Classical.byContradiction fun hcloses => ?_
  cases h.symm.trans (toRpnFrom_eq_error_iff.mpr ⟨rfl, hcloses⟩)

end GridRules.Token
