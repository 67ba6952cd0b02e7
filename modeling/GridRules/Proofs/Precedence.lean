import GridRules.Proofs.Outcome
import GridRules.Proofs.Tree
import GridRules.Token.Rpn

/-! The operator table and the ways to write a tree with it. A tree may be written with any
parentheses that the table asks for and any more; all of them come to its operand-first order. -/
namespace GridRules.Expression
open Token

/-- The operators between two operands. -/
inductive BinaryOp where
  | or | and
  | eq | ne
  | lt | le | gt | ge
  | add | sub
  | mul | div | mod
  | pow
  deriving DecidableEq, Repr

namespace BinaryOp

def token : BinaryOp → Token
  | .or => ⟨.boolean, "||"⟩
  | .and => ⟨.boolean, "&&"⟩
  | .eq => ⟨.comparison, "=="⟩
  | .ne => ⟨.comparison, "!="⟩
  | .lt => ⟨.comparison, "<"⟩
  | .le => ⟨.comparison, "<="⟩
  | .gt => ⟨.comparison, ">"⟩
  | .ge => ⟨.comparison, ">="⟩
  | .add => ⟨.arithmetic, "+"⟩
  | .sub => ⟨.arithmetic, "-"⟩
  | .mul => ⟨.arithmetic, "*"⟩
  | .div => ⟨.arithmetic, "/"⟩
  | .mod => ⟨.arithmetic, "%"⟩
  | .pow => ⟨.arithmetic, "^"⟩

/-- How tightly an operator binds. -/
def level : BinaryOp → Nat
  | .or => 1
  | .and => 2
  | .eq | .ne => 3
  | .lt | .le | .gt | .ge => 4
  | .add | .sub => 5
  | .mul | .div | .mod => 6
  | .pow => 7

/-- What the left operand must bind at least to stand without parentheses. Only powers may not
follow one another on the left. -/
def leftLevel (op : BinaryOp) : Nat := if op = .pow then op.level + 1 else op.level

/-- What the right operand must bind at least to stand without parentheses. -/
def rightLevel (op : BinaryOp) : Nat := if op = .pow then op.level else op.level + 1

def operator (op : BinaryOp) : Operator :=
  ⟨op.token, by cases op <;> rfl, by cases op <;> decide⟩

end BinaryOp

/-- The negation binds more tightly than every operator between two operands. -/
def negationLevel : Nat := 8

def opening : Token := ⟨.leftParen, "("⟩

def closing : Token := ⟨.rightParen, ")"⟩

/-- `Written k t ts` says that the tokens are a way to write the tree where all that binds less
than `k` needs parentheses. More parentheses may stand around any part. -/
inductive Written : Nat → Tree → List Token → Prop where
  | operand {k : Nat} (x : Operand) : Written k (.operand x) [x.token]
  | negation {k : Nat} {t : Tree} {ts : List Token} (hk : k ≤ negationLevel)
      (h : Written negationLevel t ts) : Written k (.negation t) (Token.negation :: ts)
  | binary {k : Nat} {l r : Tree} {ls rs : List Token} (op : BinaryOp) (hk : k ≤ op.level)
      (hl : Written op.leftLevel l ls) (hr : Written op.rightLevel r rs) :
      Written k (.binary op.operator l r) (ls ++ op.token :: rs)
  | group {k : Nat} {t : Tree} {ts : List Token} (h : Written 0 t ts) :
      Written k t (opening :: (ts ++ [closing]))

namespace BinaryOp

theorem level_le_leftLevel (op : BinaryOp) : op.level ≤ op.leftLevel := by
  unfold leftLevel
  split <;> omega

theorem level_le_rightLevel (op : BinaryOp) : op.level ≤ op.rightLevel := by
  unfold rightLevel
  split <;> omega

theorem level_lt_negationLevel (op : BinaryOp) : op.level < negationLevel := by
  cases op <;> decide

theorem precedence_token (op : BinaryOp) : op.token.precedence = op.level := by
  cases op <;> rfl

theorem leavesBefore_token (op : BinaryOp) (top : Token) :
    leavesBefore op.token top = decide (op.leftLevel ≤ top.precedence) := by
  by_cases h : op = .pow
  · subst h
    rfl
  · have hr : op.token.isRightAssociative = false := by
      cases op <;> simp_all [isRightAssociative, isNot, token]
    simp [leavesBefore, hr, leftLevel, h, precedence_token]

/-- An operator that may stand in the right operand of another one does not drive that one
out. -/
theorem level_lt_leftLevel {op next : BinaryOp} (h : op.rightLevel ≤ next.level) :
    op.level < next.leftLevel := by
  have hnext := level_le_leftLevel next
  unfold rightLevel at h
  split at h
  · rename_i hpow
    subst hpow
    cases next <;> simp_all [level, leftLevel]
  · omega

theorem toRpnFrom_token (op : BinaryOp) (stack ts : List Token) :
    toRpnFrom stack (op.token :: ts) =
      (toRpnFrom (op.token :: (yield op.token stack).2) ts).map
        ((yield op.token stack).1 ++ ·) := by
  cases op <;> rfl

end BinaryOp

/-- Operators that bind at least `k` and come next leave this stack as it is. -/
def Still (k : Nat) (stack : List Token) : Prop :=
  ∀ op : BinaryOp, k ≤ op.level → yield op.token stack = ([], stack)

/-- Stacked operators that bind at least `k`. -/
def Waiting (k : Nat) (pending : List Token) : Prop :=
  ∀ t ∈ pending, t.kind ≠ .leftParen ∧ k ≤ t.precedence

theorem Still.mono {k k' : Nat} {stack : List Token} (h : Still k stack) (hk : k ≤ k') :
    Still k' stack := fun op hop => h op (Nat.le_trans hk hop)

theorem still_nil (k : Nat) : Still k [] := fun _ _ => rfl

theorem still_opening (k : Nat) (stack : List Token) : Still k (opening :: stack) := by
  intro op _
  simp [yield, opening]

/-- No operator between two operands binds as tightly as a negation. -/
theorem still_negation (stack : List Token) : Still negationLevel stack := by
  intro op hop
  exact absurd hop (Nat.not_le.mpr op.level_lt_negationLevel)

theorem still_binary (op : BinaryOp) (stack : List Token) :
    Still op.rightLevel (op.token :: stack) := by
  intro next hnext
  have hlt := BinaryOp.level_lt_leftLevel hnext
  have hstay : leavesBefore next.token op.token = false := by
    rw [BinaryOp.leavesBefore_token, BinaryOp.precedence_token]
    exact decide_eq_false (Nat.not_le.mpr hlt)
  simp [yield, hstay]

theorem Waiting.mono {k k' : Nat} {pending : List Token} (h : Waiting k' pending) (hk : k ≤ k') :
    Waiting k pending := fun t ht => ⟨(h t ht).1, Nat.le_trans hk (h t ht).2⟩

theorem Waiting.concat {k k' : Nat} {pending : List Token} {t : Token} (h : Waiting k' pending)
    (hk : k ≤ k') (hkind : t.kind ≠ .leftParen) (ht : k ≤ t.precedence) :
    Waiting k (pending ++ [t]) := by
  intro u hu
  obtain hu | hu := List.mem_append.mp hu
  · exact h.mono hk u hu
  · rw [List.mem_singleton.mp hu]
    exact ⟨hkind, ht⟩

/-- An operator drives out all that binds at least as its left operand must. -/
theorem yield_waiting {op : BinaryOp} {pending stack : List Token}
    (h : Waiting op.leftLevel pending) (hs : yield op.token stack = ([], stack)) :
    yield op.token (pending ++ stack) = (pending, stack) := by
  induction pending with
  | nil => exact hs
  | cons t pending ih =>
    obtain ⟨hkind, hlevel⟩ := h t (by simp)
    have hout : leavesBefore op.token t = true := by
      rw [BinaryOp.leavesBefore_token]
      exact decide_eq_true hlevel
    have hrest := ih fun u hu => h u (List.mem_cons_of_mem t hu)
    simp [yield, hkind, hout, hrest]

theorem closeGroup_waiting {k : Nat} {pending stack : List Token} (h : Waiting k pending) :
    closeGroup (pending ++ opening :: stack) = some (pending, stack) := by
  induction pending with
  | nil => rfl
  | cons t pending ih =>
    have hkind := (h t (by simp)).1
    have hrest := ih fun u hu => h u (List.mem_cons_of_mem t hu)
    simp [closeGroup, hkind, hrest]

theorem finish_waiting {k : Nat} {pending : List Token} (h : Waiting k pending) :
    finish pending = .ok pending := by
  have hnone : pending.any (·.kind = .leftParen) = false := by
    simpa using fun t ht => (h t ht).1
  simp [finish, hnone]

theorem toRpnFrom_operand (x : Operand) (stack ts : List Token) :
    toRpnFrom stack (x.token :: ts) = (toRpnFrom stack ts).map (x.token :: ·) := by
  have hx := x.isOperand
  cases hk : x.token.kind <;> simp_all [toRpnFrom, TokenKind.isOperand]

theorem toRpnFrom_negation (stack ts : List Token) :
    toRpnFrom stack (Token.negation :: ts) = toRpnFrom (Token.negation :: stack) ts := rfl

theorem toRpnFrom_opening (stack ts : List Token) :
    toRpnFrom stack (opening :: ts) = toRpnFrom (opening :: stack) ts := rfl

theorem toRpnFrom_closing {k : Nat} {pending stack : List Token} (ts : List Token)
    (h : Waiting k pending) :
    toRpnFrom (pending ++ opening :: stack) (closing :: ts) =
      (toRpnFrom stack ts).map (pending ++ ·) := by
  simp [toRpnFrom, closing, closeGroup_waiting h]

theorem map_append (out out' : List Token) (r : Except SyntaxFault (List Token)) :
    (r.map (out' ++ ·)).map (out ++ ·) = r.map ((out ++ out') ++ ·) := by
  cases r <;> simp

/-- Reading a written tree sends out a part of its operand-first order and leaves the rest, all
of it operators, on top of a stack that nothing in the tree has touched. -/
theorem toRpnFrom_written {k : Nat} {t : Tree} {ts : List Token} (h : Written k t ts)
    (stack : List Token) (hs : Still k stack) :
    ∃ out pending, out ++ pending = t.rpn ∧ Waiting k pending ∧
      ∀ rest, toRpnFrom stack (ts ++ rest) =
        (toRpnFrom (pending ++ stack) rest).map (out ++ ·) := by
  induction h generalizing stack with
  | operand x => exact ⟨[x.token], [], rfl, by simp [Waiting], toRpnFrom_operand x stack⟩
  | negation hk _ ih =>
    obtain ⟨out, pending, hrpn, hw, hread⟩ := ih (Token.negation :: stack) (still_negation _)
    refine ⟨out, pending ++ [Token.negation], ?_, ?_, fun rest => ?_⟩
    · rw [← List.append_assoc, hrpn, Tree.rpn]
    · exact hw.concat hk (by decide) hk
    · rw [List.cons_append, toRpnFrom_negation, hread]
      simp
  | binary op hk _ _ ihl ihr =>
    have hl := Nat.le_trans hk op.level_le_leftLevel
    have hr := Nat.le_trans hk op.level_le_rightLevel
    obtain ⟨outl, pendl, hrpnl, hwl, hreadl⟩ := ihl stack (hs.mono hl)
    obtain ⟨outr, pendr, hrpnr, hwr, hreadr⟩ := ihr (op.token :: stack) (still_binary op stack)
    -- the left operand is complete when the operator comes: all that it has left behind leaves
    refine ⟨outl ++ pendl ++ outr, pendr ++ [op.token], ?_, ?_, fun rest => ?_⟩
    · rw [Tree.rpn, ← hrpnl, ← hrpnr]
      simp [BinaryOp.operator]
    · exact hwr.concat hr (by cases op <;> decide) (op.precedence_token ▸ hk)
    · rw [List.append_assoc, hreadl, List.cons_append, BinaryOp.toRpnFrom_token,
        yield_waiting hwl (hs op hk), hreadr, map_append, map_append]
      simp
  | group _ ih =>
    obtain ⟨out, pending, hrpn, hw, hread⟩ := ih (opening :: stack) (still_opening 0 stack)
    refine ⟨out ++ pending, [], by simp [hrpn], by simp [Waiting], fun rest => ?_⟩
    rw [List.cons_append, List.append_assoc, toRpnFrom_opening, hread, List.singleton_append,
      toRpnFrom_closing rest hw, map_append, List.nil_append]

/-- Every way to write a tree comes to the same order, that of the tree. -/
theorem toRpn_written {t : Tree} {ts : List Token} (h : Written 0 t ts) :
    toRpn ts = .ok t.rpn := by
  obtain ⟨out, pending, hrpn, hw, hread⟩ := toRpnFrom_written h [] (still_nil 0)
  have hend := hread []
  rw [List.append_nil, List.append_nil] at hend
  rw [toRpn, hend, toRpnFrom, finish_waiting hw, Outcome.map_ok, hrpn]

/-- `!A - 1 - 2 ^ 3 ^ (B)` groups to the left around the differences and to the right around the
powers. -/
theorem toRpn_written_mixed :
    toRpn [Token.negation, ⟨.identifier, "A"⟩, ⟨.arithmetic, "-"⟩, ⟨.numeral, "1"⟩,
      ⟨.arithmetic, "-"⟩, ⟨.numeral, "2"⟩, ⟨.arithmetic, "^"⟩, ⟨.numeral, "3"⟩,
      ⟨.arithmetic, "^"⟩, opening, ⟨.identifier, "B"⟩, closing] =
    .ok [⟨.identifier, "A"⟩, Token.negation, ⟨.numeral, "1"⟩, ⟨.arithmetic, "-"⟩,
      ⟨.numeral, "2"⟩, ⟨.numeral, "3"⟩, ⟨.identifier, "B"⟩, ⟨.arithmetic, "^"⟩,
      ⟨.arithmetic, "^"⟩, ⟨.arithmetic, "-"⟩] := by
  have number (k : Nat) (s : String) := Written.operand (k := k) ⟨⟨.numeral, s⟩, rfl⟩
  have name (k : Nat) (s : String) := Written.operand (k := k) ⟨⟨.identifier, s⟩, rfl⟩
  have left := Written.binary (k := 5) .sub (by decide)
    (.negation (by decide) (name 8 "A")) (number 6 "1")
  have inner := Written.binary (k := 7) .pow (by decide) (number 8 "3") (.group (name 0 "B"))
  have right := Written.binary (k := 6) .pow (by decide) (number 8 "2") inner
  exact toRpn_written (.binary .sub (by decide) left right)

end GridRules.Expression
