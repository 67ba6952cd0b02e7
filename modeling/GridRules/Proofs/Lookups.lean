import GridRules.Proofs.Computed

/-! Which names an evaluation looks up: those of its operands, and the numerals of the results on
its way, for a result is an operand of what comes next. Scopes that agree on these names give the
same number or the same fault, whatever else they bind. -/
namespace GridRules

/-- In both scopes the name is bound with the same type and the same value, or in neither. -/
structure Scope.Agree (s s' : Scope) (name : String) : Prop where
  isBound : s.isBound name = s'.isBound name
  typeOf : s.typeOf name = s'.typeOf name
  value? : s.value? name = s'.value? name

namespace Scope.Agree
variable {s s' : Scope} {name : String}

theorem read? (h : s.Agree s' name) {α : Type} (r : Reading α) :
    s.read? r name = s'.read? r name := by
  simp only [Scope.read?, h.isBound, h.value?]

theorem read (h : s.Agree s' name) {α : Type} (r : Reading α) : s.read r name = s'.read r name := by
  rw [Scope.read, Scope.read, h.read?]

theorem of_eq (h : s name = s' name) : s.Agree s' name :=
  ⟨by rw [Scope.isBound, Scope.isBound, h], by rw [Scope.typeOf, Scope.typeOf, h],
    by rw [Scope.value?, Scope.value?, h]⟩

theorem of_not_isBound (h : s.isBound name = false) (h' : s'.isBound name = false) :
    s.Agree s' name := by
  have hnone : s name = none := by simpa [Scope.isBound] using h
  have hnone' : s' name = none := by simpa [Scope.isBound] using h'
  exact .of_eq (hnone.trans hnone'.symm)

end Scope.Agree

namespace Evaluate

/-- Both scopes agree on the lexemes of the tokens. -/
def Alike (s s' : Scope) (ts : List Token) : Prop := ∀ t ∈ ts, s.Agree s' t.lexeme

/-- What the operators of a list leave on the stack, one result after another. -/
def results (s : Scope) : List Token → List Token → List Token
  | [], _ => []
  | t :: ts, stack => match step s t stack with
    | .error _ => []
    | .ok stack' => (if t.kind.isOperator then stack'.take 1 else []) ++ results s ts stack'

variable {s s' : Scope}

/-! One operator: all that it asks of a scope is asked at the lexemes of its operands. -/

section
variable {t l r : Token} (ht : s.Agree s' t.lexeme) (hl : s.Agree s' l.lexeme)
  (hr : s.Agree s' r.lexeme)
include ht

theorem classify_alike : classify s t = classify s' t := by
  unfold classify
  rw [ht.typeOf]

theorem number_alike : number s t = number s' t := ht.read .double

theorem truthy_alike : truthy s t = truthy s' t := ht.read .bool

theorem asWord?_alike : asWord? s t = asWord? s' t := by
  unfold asWord?
  rw [ht.value?]

theorem elementsOf_alike : elementsOf s t = elementsOf s' t := by
  unfold elementsOf
  rw [ht.read?]

theorem notOp_alike : notOp s t = notOp s' t := by
  rw [notOp, notOp, classify_alike ht, truthy_alike ht]

omit ht
include hl hr

theorem stringOp_alike (op : String) : stringOp s op l r = stringOp s' op l r := by
  simp only [stringOp, hl.read, hr.read]

theorem arrayOp_alike (op : String) : arrayOp s op l r = arrayOp s' op l r := by
  simp only [arrayOp, elementsOf_alike hl, elementsOf_alike hr]

theorem comparisonOp_alike (op : String) : comparisonOp s op l r = comparisonOp s' op l r := by
  simp only [comparisonOp, classify_alike hl, classify_alike hr, asWord?_alike hl,
    asWord?_alike hr, number_alike hl, number_alike hr]

theorem binaryOp_alike (op : Token) : binaryOp s op l r = binaryOp s' op l r := by
  simp only [binaryOp, classify_alike hl, classify_alike hr, stringOp_alike hl hr,
    arrayOp_alike hl hr, comparisonOp_alike hl hr, truthy_alike hl, truthy_alike hr,
    number_alike hl, number_alike hr]

end

/-! One step, then a run. Everything on the stack is an operand of the list or a result. -/

theorem step_alike {stack : List Token} (h : Alike s s' stack) (t : Token) :
    step s t stack = step s' t stack := by
  unfold step
  split
  · rfl
  split
  · rfl
  split
  · match stack, h with
    | [], _ => rfl
    | x :: rest, h =>
      have hx : notOp s x = notOp s' x := notOp_alike (h x (by simp))
      simp only [hx]
  · match stack, h with
    | [], _ => rfl
    | [_], _ => rfl
    | r :: l :: rest, h =>
      have hlr : binaryOp s t l r = binaryOp s' t l r :=
        binaryOp_alike (h l (by simp)) (h r (by simp)) t
      simp only [hlr]

/-- An operand goes on the stack, and an operator puts the numeral of a number in place of its
operands. -/
theorem step_eq_ok {t : Token} {stack stack' : List Token} (h : step s t stack = .ok stack') :
    (t.kind.isOperand = true ∧ stack' = t :: stack) ∨
    (t.kind.isOperator = true ∧ ∃ v rest, stack' = ofNumber v :: rest ∧ rest ⊆ stack) := by
  unfold step at h
  split at h
  · rename_i hx
    cases h
    exact .inl ⟨hx, rfl⟩
  split at h
  · cases h
  rename_i ho
  have hop : t.kind.isOperator = true := by simpa using ho
  refine .inr ⟨hop, ?_⟩
  split at h
  · split at h
    · rename_i x rest
      obtain ⟨y, hy, rfl⟩ := Outcome.map_eq_ok_iff.mp h
      obtain ⟨v, rfl⟩ := exists_ofNumber_of_notOp hy
      exact ⟨v, rest, rfl, List.subset_cons_self x rest⟩
    · cases h
  · split at h
    · rename_i r l rest
      obtain ⟨y, hy, rfl⟩ := Outcome.map_eq_ok_iff.mp h
      obtain ⟨v, rfl⟩ := exists_ofNumber_of_binaryOp hy
      exact ⟨v, rest, rfl, fun z hz => List.mem_cons_of_mem r (List.mem_cons_of_mem l hz)⟩
    · cases h

/-- Every result is the numeral of a number. -/
theorem exists_ofNumber_of_mem_results {ts stack : List Token} {x : Token}
    (h : x ∈ results s ts stack) : ∃ v, x = ofNumber v := by
  induction ts generalizing stack with
  | nil => cases h
  | cons t ts ih =>
    rw [results] at h
    split at h
    · cases h
    · rename_i stack' hstep
      obtain h | h := List.mem_append.mp h
      · split at h
        · rename_i hop
          obtain ⟨hx, -⟩ | ⟨-, v, rest, rfl, -⟩ := step_eq_ok hstep
          · rw [TokenKind.not_isOperand hop] at hx
            cases hx
          · exact ⟨v, List.mem_singleton.mp h⟩
        · cases h
      · exact ih h

/-- After a step that both scopes take alike, they agree on the whole stack again. -/
theorem Alike.step {t : Token} {stack stack' : List Token} (h : Alike s s' stack)
    (hstep : step s t stack = .ok stack') (ht : t.kind.isOperand = true → s.Agree s' t.lexeme)
    (hresult : t.kind.isOperator = true → Alike s s' (stack'.take 1)) : Alike s s' stack' := by
  obtain ⟨hx, rfl⟩ | ⟨hop, v, rest, rfl, hrest⟩ := step_eq_ok hstep
  · exact List.forall_mem_cons.mpr ⟨ht hx, h⟩
  · refine List.forall_mem_cons.mpr ⟨hresult hop _ (by simp), fun z hz => h z (hrest hz)⟩

theorem run_alike {ts stack : List Token} (hstack : Alike s s' stack)
    (hts : ∀ t ∈ ts, t.kind.isOperand = true → s.Agree s' t.lexeme)
    (hresults : Alike s s' (results s ts stack)) :
    run s ts stack = run s' ts stack ∧
      ∀ stack', run s ts stack = .ok stack' → Alike s s' stack' := by
  induction ts generalizing stack with
  | nil =>
    refine ⟨rfl, fun stack' h => ?_⟩
    cases h
    exact hstack
  | cons t ts ih =>
    obtain ⟨ht, hts⟩ := List.forall_mem_cons.mp hts
    have hstep := step_alike hstack t
    rw [run, run, ← hstep]
    rw [results] at hresults
    cases h : step s t stack with
    | error e => simp
    | ok stack' =>
      simp only [h] at hresults
      obtain ⟨hfirst, hrest⟩ := List.forall_mem_append.mp hresults
      refine ih (hstack.step h ht fun hop => ?_) hts hrest
      rwa [if_pos hop] at hfirst

theorem final_alike {t : Token} (h : s.Agree s' t.lexeme) : final s t = final s' t := by
  simp only [final, classify_alike h, number_alike h]

/-- The last operand is looked up like all others. -/
theorem evaluate_alike {rpn : List Token}
    (hrpn : ∀ t ∈ rpn, t.kind.isOperand = true → s.Agree s' t.lexeme)
    (hresults : Alike s s' (results s rpn [])) : evaluate s rpn = evaluate s' rpn := by
  have hempty : Alike s s' [] := fun _ h => nomatch h
  obtain ⟨hrun, hstack⟩ := run_alike hempty hrpn hresults
  rw [evaluate, evaluate, ← hrun]
  cases h : run s rpn [] with
  | error e => rfl
  | ok stack =>
    have halike := hstack stack h
    cases stack with
    | nil => rfl
    | cons only rest =>
      cases rest with
      | nil => exact final_alike (halike only (by simp))
      | cons => rfl

open Expression (NumbersFree)

/-- An evaluation depends on the names of its operands and on the numerals of its results only; if
no variable has the numeral of a number for its name, it depends on its operands alone. -/
theorem evaluate_eq_of_agree {rpn : List Token}
    (hrpn : ∀ t ∈ rpn, t.kind.isOperand = true → s.Agree s' t.lexeme) :
    ((∀ x ∈ results s rpn [], s.Agree s' x.lexeme) → evaluate s rpn = evaluate s' rpn) ∧
      (NumbersFree s → NumbersFree s' → evaluate s rpn = evaluate s' rpn) := by
  refine ⟨evaluate_alike hrpn, fun hfree hfree' => evaluate_alike hrpn fun x hx => ?_⟩
  obtain ⟨v, rfl⟩ := exists_ofNumber_of_mem_results hx
  exact .of_not_isBound (hfree v) (hfree' v)

/-- `U * 2 < 11` comes to the same where a number that it does not come across has become a name,
and where another variable has another value. -/
theorem evaluate_eq_of_agree_of_product :
    let vars := Variables.bindConstant Table.empty "U" (.uint64 5)
    let s := (vars.bindConstant "D" (.double 1)).scope ()
    let s₁ := (vars.bindConstant "7" (.string "x")).scope ()
    let s₂ := (vars.bindConstant "D" (.double 2)).scope ()
    let rpn : List Token := [⟨.identifier, "U"⟩, ⟨.numeral, "2"⟩, ⟨.arithmetic, "*"⟩,
      ⟨.numeral, "11"⟩, ⟨.comparison, "<"⟩]
    (∀ t ∈ rpn, t.kind.isOperand = true → s.Agree s₁ t.lexeme) ∧
      (∀ t ∈ rpn, t.kind.isOperand = true → s.Agree s₂ t.lexeme) ∧
      results s rpn [] = [⟨.numeral, "10"⟩, ⟨.numeral, "1"⟩] ∧
      (∀ x ∈ results s rpn [], s.Agree s₁ x.lexeme) ∧ NumbersFree s ∧ NumbersFree s₂ ∧
      evaluate s rpn = evaluate s₁ rpn ∧ evaluate s rpn = evaluate s₂ rpn := by
  intro vars s s₁ s₂ rpn
  have hU : s "U" = some ⟨.uint64, .uint64 5⟩ := rfl
  have hU₁ : s₁ "U" = some ⟨.uint64, .uint64 5⟩ := rfl
  have hU₂ : s₂ "U" = some ⟨.uint64, .uint64 5⟩ := rfl
  have hrpn₁ : ∀ t ∈ rpn, t.kind.isOperand = true → s.Agree s₁ t.lexeme := by
    simp only [rpn, List.forall_mem_cons]
    exact ⟨fun _ => .of_eq (hU.trans hU₁.symm), fun _ => .of_not_isBound rfl rfl, nofun,
      fun _ => .of_not_isBound rfl rfl, nofun, nofun⟩
  have hrpn₂ : ∀ t ∈ rpn, t.kind.isOperand = true → s.Agree s₂ t.lexeme := by
    simp only [rpn, List.forall_mem_cons]
    exact ⟨fun _ => .of_eq (hU.trans hU₂.symm), fun _ => .of_not_isBound rfl rfl, nofun,
      fun _ => .of_not_isBound rfl rfl, nofun, nofun⟩
  have hresults : results s rpn [] = [⟨.numeral, "10"⟩, ⟨.numeral, "1"⟩] := by decide +kernel
  have halike : ∀ x ∈ results s rpn [], s.Agree s₁ x.lexeme := by
    simp only [hresults, List.forall_mem_cons]
    exact ⟨.of_not_isBound rfl rfl, .of_not_isBound rfl rfl, nofun⟩
  have hfree : NumbersFree s := Expression.numbersFree_of_two _ _
  have hfree₂ : NumbersFree s₂ := Expression.numbersFree_of_two _ _
  exact ⟨hrpn₁, hrpn₂, hresults, halike, hfree, hfree₂, (evaluate_eq_of_agree hrpn₁).1 halike,
    (evaluate_eq_of_agree hrpn₂).2 hfree hfree₂⟩

/-- Scopes that agree on all operands but not on the result of the comparison. -/
theorem evaluate_ne_of_bound_result :
    let rpn : List Token := [⟨.numeral, "2"⟩, ⟨.numeral, "3"⟩, ⟨.comparison, "<"⟩]
    let s := Variables.scope Table.empty ()
    let s' := (Variables.bindConstant Table.empty "1" (.double 0)).scope ()
    Token.compile "2 < 3" = .ok rpn ∧
      (∀ t ∈ rpn, t.kind.isOperand = true → s.Agree s' t.lexeme) ∧
      evaluate s rpn = .ok 1 ∧ evaluate s' rpn = .ok 0 := by
  intro rpn s s'
  have hrpn : ∀ t ∈ rpn, t.kind.isOperand = true → s.Agree s' t.lexeme := by
    simp only [rpn, List.forall_mem_cons]
    exact ⟨fun _ => .of_not_isBound rfl rfl, fun _ => .of_not_isBound rfl rfl, nofun, nofun⟩
  exact ⟨by decide +kernel, hrpn, by decide +kernel, by decide +kernel⟩

end Evaluate
end GridRules
