import GridRules.Evaluate
import GridRules.Proofs.Outcome
import GridRules.Proofs.Tree
import Mathlib.Logic.ExistsUnique

/-! The stack machine against the recursive meaning of trees. A machine that ends with one
operand has read exactly one tree, and its result or fault is that of the tree. -/
namespace GridRules.Expression

/-- Operands from left to right, both of them always, then the operator; the result is a token
again. -/
def Tree.eval (s : Scope) : Tree → Except EvalFault Token
  | .operand x => .ok x.token
  | .negation t => do
    let x ← t.eval s
    Evaluate.notOp s x
  | .binary op l r => do
    let a ← l.eval s
    let b ← r.eval s
    Evaluate.binaryOp s op.token a b

namespace StackMachine
open Evaluate

variable (s : Scope)

theorem step_operand (x : Operand) (stack : List Token) :
    step s x.token stack = .ok (x.token :: stack) := by
  simp [step, x.isOperand]

theorem step_negation (x : Token) (stack : List Token) :
    step s Token.negation (x :: stack) = (notOp s x).map (· :: stack) := rfl

theorem step_binary (op : Operator) (a b : Token) (stack : List Token) :
    step s op.token (b :: a :: stack) = (binaryOp s op.token a b).map (· :: stack) := by
  simp [step, op.not_isOperand, op.isOperator, op.isBinary]

/-- Reading a tree puts its result on the stack, whatever lies below and whatever follows. -/
theorem run_rpn (t : Tree) (ts stack : List Token) :
    run s (t.rpn ++ ts) stack = t.eval s >>= fun x => run s ts (x :: stack) := by
  induction t generalizing ts stack with
  | operand x => simp [Tree.rpn, Tree.eval, run, step_operand]
  | negation t ih =>
    rw [Tree.rpn, List.append_assoc, ih, Tree.eval]
    cases ht : t.eval s with
    | error e => rfl
    | ok x =>
      change step s Token.negation (x :: stack) >>= run s ts = _
      rw [step_negation]
      cases hx : notOp s x <;> simp [hx]
  | binary op l r ihl ihr =>
    rw [Tree.rpn, List.append_assoc, List.append_assoc, ihl, Tree.eval]
    cases hl : l.eval s with
    | error e => rfl
    | ok a =>
      change run s (r.rpn ++ ([op.token] ++ ts)) (a :: stack) = _
      rw [ihr]
      cases hr : r.eval s with
      | error e => rfl
      | ok b =>
        change step s op.token (b :: a :: stack) >>= run s ts = _
        rw [step_binary]
        cases hop : binaryOp s op.token a b <;> simp [hop]

theorem evaluate_rpn (t : Tree) : evaluate s t.rpn = t.eval s >>= final s := by
  have h := run_rpn s t [] []
  rw [List.append_nil] at h
  rw [evaluate, h]
  cases t.eval s <;> rfl

/-- The machine and the forest need the same number of operands at each token. -/
theorem grow_of_step {t : Token} {stack stack' : List Token} {forest : List Tree}
    (h : step s t stack = .ok stack') (hlen : forest.length = stack.length) :
    ∃ forest', Tree.grow t forest = some forest' ∧ forest'.length = stack'.length := by
  unfold step at h
  by_cases hx : t.kind.isOperand = true
  · rw [if_pos hx] at h
    cases h
    exact ⟨.operand ⟨t, hx⟩ :: forest, by simp [Tree.grow, hx], by simp [hlen]⟩
  by_cases ho : t.kind.isOperator = true
  · rw [if_neg hx, if_neg (by simp [ho])] at h
    by_cases hn : t.isNot = true
    · rw [if_pos hn] at h
      split at h
      · rename_i x rest
        obtain ⟨y, lower, rfl⟩ := List.exists_cons_of_length_eq_add_one hlen
        obtain ⟨z, -, rfl⟩ := Outcome.map_eq_ok_iff.mp h
        exact ⟨.negation y :: lower, by simp [Tree.grow, hx, ho, hn], hlen⟩
      · cases h
    · rw [if_neg hn] at h
      split at h
      · rename_i b a rest
        obtain ⟨r, lower, rfl⟩ := List.exists_cons_of_length_eq_add_one hlen
        have hlower : lower.length = rest.length + 1 := Nat.succ.inj hlen
        obtain ⟨l, lowest, rfl⟩ := List.exists_cons_of_length_eq_add_one hlower
        obtain ⟨z, -, rfl⟩ := Outcome.map_eq_ok_iff.mp h
        have hb : t.isNot = false := Bool.not_eq_true _ ▸ hn
        exact ⟨.binary ⟨t, ho, hb⟩ l r :: lowest, by simp [Tree.grow, hx, ho, hb], hlower⟩
      · cases h
  · rw [if_neg hx, if_pos (by simp [ho])] at h
    cases h

theorem growAll_of_run {ts stack stack' : List Token} {forest : List Tree}
    (h : run s ts stack = .ok stack') (hlen : forest.length = stack.length) :
    ∃ forest', Tree.growAll ts forest = some forest' ∧ forest'.length = stack'.length := by
  induction ts generalizing stack forest with
  | nil =>
    cases h
    exact ⟨forest, rfl, hlen⟩
  | cons t ts ih =>
    obtain ⟨middle, hm, hrest⟩ := Outcome.bind_eq_ok_iff.mp h
    obtain ⟨grown, hg, hglen⟩ := grow_of_step s hm hlen
    obtain ⟨forest', hf, hflen⟩ := ih hrest hglen
    exact ⟨forest', by simp [Tree.growAll, hg, hf], hflen⟩

/-- A machine that ends well has read a tree. -/
theorem exists_tree_of_evaluate {ts : List Token} {v : Float} (h : evaluate s ts = .ok v) :
    ∃ t : Tree, t.rpn = ts := by
  obtain ⟨stack, hs, hfinal⟩ := Outcome.bind_eq_ok_iff.mp h
  have hempty : ([] : List Tree).length = ([] : List Token).length := rfl
  obtain ⟨forest, hf, hlen⟩ := growAll_of_run s hs hempty
  split at hfinal
  · obtain ⟨t, rfl⟩ := List.length_eq_one_iff.mp hlen
    exact ⟨t, Tree.ofRpn?_eq_some_iff.mp (by simp [Tree.ofRpn?, hf])⟩
  · cases hfinal

/-- The machine computes what the tree means, and every other list of tokens is a fault. -/
theorem evaluate_eq_eval :
    (∀ t : Tree, evaluate s t.rpn = t.eval s >>= final s) ∧
      ∀ ts : List Token, (∃! t : Tree, t.rpn = ts) ∨ ∃ e, evaluate s ts = .error e := by
  refine ⟨evaluate_rpn s, fun ts => ?_⟩
  cases h : evaluate s ts with
  | error e => exact .inr ⟨e, rfl⟩
  | ok v =>
    obtain ⟨t, ht⟩ := exists_tree_of_evaluate s h
    exact .inl ⟨t, ht, fun u hu => Tree.rpn_injective (hu.trans ht.symm)⟩

end StackMachine
end GridRules.Expression
