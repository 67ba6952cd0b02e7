import GridRules.Token
import Mathlib.Logic.Function.Defs

/-! Expression trees and their operand-first order. The order can be undone: a stack of trees
that reads the tokens one by one ends with the tree alone, and with nothing else. -/
namespace GridRules

theorem TokenKind.not_isOperand {kind : TokenKind} (h : kind.isOperator = true) :
    kind.isOperand = false := by
  cases kind with
  | arithmetic | boolean | comparison => rfl
  | _ => cases h

namespace Token

def negation : Token := ⟨.boolean, "!"⟩

theorem isNot_iff {t : Token} : t.isNot = true ↔ t = negation := by
  obtain ⟨kind, lexeme⟩ := t
  simp [isNot, negation]

end Token

namespace Expression

/-- A token that stands for a value. -/
structure Operand where
  token : Token
  isOperand : token.kind.isOperand = true

/-- An operator between two operands: any operator token but the negation. -/
structure Operator where
  token : Token
  isOperator : token.kind.isOperator = true
  isBinary : token.isNot = false

theorem Operator.not_isOperand (op : Operator) : op.token.kind.isOperand = false :=
  TokenKind.not_isOperand op.isOperator

inductive Tree where
  | operand (x : Operand)
  | negation (t : Tree)
  | binary (op : Operator) (l r : Tree)

namespace Tree

/-- Operands before their operator, the left one first. -/
def rpn : Tree → List Token
  | .operand x => [x.token]
  | .negation t => t.rpn ++ [Token.negation]
  | .binary op l r => l.rpn ++ r.rpn ++ [op.token]

/-- The trees after one token more; an operator takes its operands from the top. -/
def grow (t : Token) (forest : List Tree) : Option (List Tree) :=
  if hx : t.kind.isOperand = true then some (.operand ⟨t, hx⟩ :: forest)
  else if ho : t.kind.isOperator = true then
    if hn : t.isNot = false then match forest with
      | r :: l :: rest => some (.binary ⟨t, ho, hn⟩ l r :: rest)
      | _ => none
    else match forest with
      | x :: rest => some (.negation x :: rest)
      | [] => none
  else none

def growAll : List Token → List Tree → Option (List Tree)
  | [], forest => some forest
  | t :: ts, forest => grow t forest >>= growAll ts

/-- The tree that tokens in operand-first order stand for. -/
def ofRpn? (ts : List Token) : Option Tree :=
  match growAll ts [] with
  | some [t] => some t
  | _ => none

theorem grow_operand (x : Operand) (forest : List Tree) :
    grow x.token forest = some (.operand x :: forest) := by
  simp [grow, x.isOperand]

theorem grow_negation (t : Tree) (forest : List Tree) :
    grow Token.negation (t :: forest) = some (.negation t :: forest) := rfl

theorem grow_binary (op : Operator) (l r : Tree) (forest : List Tree) :
    grow op.token (r :: l :: forest) = some (.binary op l r :: forest) := by
  simp [grow, op.not_isOperand, op.isOperator, op.isBinary]

theorem growAll_rpn (t : Tree) (ts : List Token) (forest : List Tree) :
    growAll (t.rpn ++ ts) forest = growAll ts (t :: forest) := by
  induction t generalizing ts forest with
  | operand x => simp [rpn, growAll, grow_operand]
  | negation t ih => simp [rpn, List.append_assoc, ih, growAll, grow_negation]
  | binary op l r ihl ihr => simp [rpn, List.append_assoc, ihl, ihr, growAll, grow_binary]

/-- What a forest has read, the lowest tree first. -/
def read (forest : List Tree) : List Token := forest.reverse.flatMap rpn

theorem read_cons (t : Tree) (forest : List Tree) : read (t :: forest) = read forest ++ t.rpn := by
  simp [read]

theorem read_grow {t : Token} {forest forest' : List Tree} (h : grow t forest = some forest') :
    read forest' = read forest ++ [t] := by
  unfold grow at h
  split at h
  · cases h
    simp [read_cons, rpn]
  · split at h
    · split at h
      · split at h
        · cases h
          simp [read_cons, rpn]
        · cases h
      · rename_i hn
        have ht : t = Token.negation := Token.isNot_iff.mp (by simpa using hn)
        split at h
        · cases h
          simp [read_cons, rpn, ht]
        · cases h
    · cases h

theorem read_growAll {ts : List Token} {forest forest' : List Tree}
    (h : growAll ts forest = some forest') : read forest' = read forest ++ ts := by
  induction ts generalizing forest with
  | nil =>
    cases h
    simp
  | cons t ts ih =>
    obtain ⟨middle, hm, hrest⟩ := Option.bind_eq_some_iff.mp h
    rw [ih hrest, read_grow hm, List.append_assoc, List.singleton_append]

theorem ofRpn?_eq_some_iff {ts : List Token} {t : Tree} : ofRpn? ts = some t ↔ t.rpn = ts := by
  constructor
  · intro h
    unfold ofRpn? at h
    split at h
    · rename_i u hu
      cases h
      simpa [read] using read_growAll hu
    · cases h
  · intro h
    have hg := growAll_rpn t [] []
    rw [List.append_nil, h] at hg
    simp [ofRpn?, hg, growAll]

theorem rpn_injective : Function.Injective rpn := by
  intro t u h
  have ht : ofRpn? u.rpn = some t := ofRpn?_eq_some_iff.mpr h
  rw [ofRpn?_eq_some_iff.mpr rfl] at ht
  exact (Option.some.inj ht).symm

end Tree
end Expression
end GridRules
