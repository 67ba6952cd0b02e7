import Mathlib.Data.List.Count
import GridRules.Proofs.Balanced
import GridRules.Proofs.Patches

/-! Warnings of the rules that are loaded. A rule that cannot be read is warned of with the fault,
and one that can be read with the names in its condition that stand for nothing. A name is told of
each time it stands there, and a rule for which there is no room is not warned of at all. -/
namespace GridRules

/-- The names in a list, from left to right. -/
def Token.names (ts : List Token) : List String :=
  (ts.filter (·.kind = .identifier)).map (·.lexeme)

/-- Names come out in the order in which they are read. -/
theorem Token.names_toRpn {ts out : List Token} (h : toRpn ts = .ok out) :
    names out = names ts := by
  have hnames (us : List Token) :
      names us = ((operands us).filter (·.kind = .identifier)).map (·.lexeme) := by
    rw [names, operands, List.filter_filter]
    congr 1
    refine List.filter_congr fun t _ => ?_
    cases t.kind <;> rfl
  rw [hnames, hnames, operands_toRpnFrom stacked_nil h]

theorem Rule.unboundNames_eq (r : Rule) (bound : String → Bool) {ts : List Token}
    (hts : Token.tokenize r.source.expression = .ok ts) :
    r.unboundNames bound = (Token.names ts).filter (!bound ·) := by
  have hcondition := r.condition_eq
  rw [Token.compile, hts, Outcome.bind_ok] at hcondition
  rw [← Token.names_toRpn hcondition, unboundNames, Token.names, List.filter_map,
    List.filter_filter]
  congr 1
  refine List.filter_congr fun t _ => ?_
  simp [and_comm]

/-- The fault of a rule that a warning says is rejected. -/
def Warning.rejection? : Warning → Option SyntaxFault
  | .ruleRejected _ _ f => some f
  | _ => none

def Fault.syntax? : Fault → Option SyntaxFault
  | .syntactic f => some f
  | _ => none

namespace Engine
variable {σ : Type} {e : Engine σ} {t : RuleText}

/-- The names in a condition that stand for nothing, once for each time that the text has them. -/
def unboundNames (e : Engine σ) (expression : String) : List String :=
  match Token.tokenize expression with
  | .ok ts => (Token.names ts).filter (!e.vars.contains ·)
  | .error _ => []

/-- What is said of a rule when it is to be added. -/
def remarks (e : Engine σ) (t : RuleText) : List Warning :=
  match refusal e.maxRules e.rules.length t with
  | some (.syntactic f) => [.ruleRejected e.name t.expression f]
  | some _ => []
  | none => (e.unboundNames t.expression).map (.unboundName e.name t.expression)

theorem warnings_addRule (e : Engine σ) (t : RuleText) : (e.addRule t).warnings = e.remarks t := by
  rw [addRule, remarks]
  by_cases hfull : e.maxRules ≤ e.rules.length
  · simp [hfull, refusal]
  · have hroom := Nat.lt_of_not_le hfull
    rw [if_neg hfull]
    cases hp : Rule.parse t with
    | error f => simp [refusal_eq_some_of_parse hp hroom]
    | ok r =>
      obtain rfl := Rule.parse_eq_ok_iff.mp hp
      obtain ⟨ts, hts, -⟩ := Outcome.bind_eq_ok_iff.mp r.condition_eq
      simp [refusal_eq_none r hroom, unboundNames, hts, r.unboundNames_eq _ hts]

theorem refusal_cases {limit count : Nat} {f : Fault} (h : refusal limit count t = some f) :
    f = .ruleLimit limit ∨ ∃ f', f = .syntactic f' := by
  unfold refusal at h
  split at h
  · exact .inl (Option.some.inj h).symm
  · right
    split at h
    · exact ⟨_, (Option.some.inj h).symm⟩
    · split at h
      · exact ⟨_, (Option.some.inj h).symm⟩
      · cases h

/-- A rule is refused for want of room, which is not warned of, or for a fault in its texts. -/
theorem addRule_error_cases {f : Fault} (h : (e.addRule t).value = .error f) :
    (f = .ruleLimit e.maxRules ∧ (e.addRule t).warnings = []) ∨
      ∃ f', f = .syntactic f' ∧
        (e.addRule t).warnings = [.ruleRejected e.name t.expression f'] := by
  have hrefusal := addRule_eq_error_iff.mp h
  rw [warnings_addRule, remarks, hrefusal]
  obtain rfl | ⟨f', rfl⟩ := refusal_cases hrefusal
  · exact .inl ⟨rfl, rfl⟩
  · exact .inr ⟨f', rfl, rfl⟩

theorem warnings_of_added {e' : Engine σ} (h : (e.addRule t).value = .ok e') :
    (e.addRule t).warnings =
      (e.unboundNames t.expression).map (.unboundName e.name t.expression) := by
  obtain ⟨hroom, r, hr, -⟩ := addRule_eq_ok_iff.mp h
  obtain rfl := Rule.parse_eq_ok_iff.mp hr
  rw [warnings_addRule, remarks, refusal_eq_none r hroom]

theorem count_warnings_of_added {e' : Engine σ} (h : (e.addRule t).value = .ok e')
    (name : String) :
    (e.addRule t).warnings.count (.unboundName e.name t.expression name) =
      (e.unboundNames t.expression).count name := by
  have hinjective : Function.Injective (Warning.unboundName e.name t.expression) :=
    fun _ _ heq => (Warning.unboundName.inj heq).2.2
  rw [warnings_of_added h, List.count_map_of_injective _ _ hinjective]

/-- Each rule that is refused is warned of once. Of a rule that is added each name that stands for
nothing is told once, and nothing else is. -/
structure WarnsOnce (e : Engine σ) (t : RuleText) : Prop where
  refused {f : Fault} (h : (e.addRule t).value = .error f) : (e.addRule t).warnings.length = 1
  added {e' : Engine σ} (h : (e.addRule t).value = .ok e') :
    (∀ name ∈ e.unboundNames t.expression,
      (e.addRule t).warnings.count (.unboundName e.name t.expression name) = 1) ∧
    ∀ w ∈ (e.addRule t).warnings,
      ∃ name ∈ e.unboundNames t.expression, w = .unboundName e.name t.expression name

theorem warnsOnce_iff : e.WarnsOnce t ↔ e.rules.length < e.maxRules ∧
    ∀ e', (e.addRule t).value = .ok e' → (e.unboundNames t.expression).Nodup := by
  constructor
  · intro h
    refine ⟨?_, fun e' hadded => List.nodup_iff_count_eq_one.mpr fun name hname => ?_⟩
    · by_contra hfull
      have hlimit : (e.addRule t).value = .error (.ruleLimit e.maxRules) :=
        addRule_eq_ruleLimit_iff.mpr ⟨Nat.le_of_not_lt hfull, rfl⟩
      have hone := h.refused hlimit
      obtain ⟨-, hnone⟩ | ⟨f, hf, -⟩ := addRule_error_cases hlimit
      · rw [hnone] at hone
        cases hone
      · cases hf
    · rw [← count_warnings_of_added hadded]
      exact (h.added hadded).1 name hname
  · rintro ⟨hroom, hnodup⟩
    refine ⟨fun {f} hrefused => ?_, fun {e'} hadded => ⟨fun name hname => ?_, fun w hw => ?_⟩⟩
    · obtain ⟨rfl, -⟩ | ⟨f', -, hone⟩ := addRule_error_cases hrefused
      · exact absurd (addRule_eq_ruleLimit_iff.mp hrefused).1 (Nat.not_le.mpr hroom)
      · rw [hone]
        rfl
    · rw [count_warnings_of_added hadded]
      exact List.nodup_iff_count_eq_one.mp (hnodup e' hadded) name hname
    · rw [warnings_of_added hadded] at hw
      obtain ⟨name, hname, rfl⟩ := List.mem_map.mp hw
      exact ⟨name, hname, rfl⟩

theorem warnings_load_cons (e : Engine σ) (index : Nat) (t : RuleText) (ts : List RuleText) :
    (e.load index (t :: ts)).warnings =
      (e.addRule t).warnings ++ ((e.offered t).load (index + 1) ts).warnings := by
  simp only [load, Logged.warnings_bind, offered]
  cases (e.addRule t).value <;> simp

/-- The faults that are warned of are those that are reported, except for want of room. -/
theorem rejections_load (e : Engine σ) (index : Nat) (ts : List RuleText) :
    (e.load index ts).warnings.filterMap Warning.rejection? =
      (e.load index ts).value.1.rejected.filterMap (·.2.syntax?) := by
  induction ts generalizing e index with
  | nil => rfl
  | cons t ts ih =>
    rw [warnings_load_cons, List.filterMap_append, ih]
    cases ha : (e.addRule t).value with
    | ok e' =>
      have hnone : ((e.addRule t).warnings.filterMap Warning.rejection?) = [] := by
        simp [warnings_of_added ha, Warning.rejection?]
      rw [load_cons_of_ok ha, hnone, offered, ha]
      rfl
    | error f =>
      rw [load_cons_of_error ha, offered, ha]
      obtain ⟨rfl, hw⟩ | ⟨f', rfl, hw⟩ := addRule_error_cases ha <;> rw [hw] <;> rfl

theorem isSome_syntax?_iff {f : Fault} (h : (e.addRule t).value = .error f) :
    f.syntax?.isSome ↔ f ≠ .ruleLimit e.maxRules := by
  obtain ⟨rfl, -⟩ | ⟨f', rfl, -⟩ := addRule_error_cases h <;> simp [Fault.syntax?]

/-- What is warned of when rules are added one by one and in patches. -/
structure Diagnosed (e : Engine σ) : Prop where
  told (t : RuleText) : (e.addRule t).warnings = e.remarks t
  /-- It is as much as should be told unless there is no room or a name stands there again. -/
  once (t : RuleText) : e.WarnsOnce t ↔ e.rules.length < e.maxRules ∧
    ∀ e', (e.addRule t).value = .ok e' → (e.unboundNames t.expression).Nodup
  rejections (p : RulePatch) : (e.applyPatch p).warnings.filterMap Warning.rejection? =
    (e.applyPatch p).value.1.rejected.filterMap (·.2.syntax?)
  /-- There are as many of these as there are rejected records unless there was no room. -/
  counted (p : RulePatch) : ((e.applyPatch p).warnings.filterMap Warning.rejection?).length =
      (e.applyPatch p).value.1.rejected.length ↔
    ∀ r ∈ (e.applyPatch p).value.1.rejected, r.2 ≠ .ruleLimit e.maxRules

theorem diagnosed (e : Engine σ) : e.Diagnosed := by
  have hrejections (p : RulePatch) : (e.applyPatch p).warnings.filterMap Warning.rejection? =
      (e.applyPatch p).value.1.rejected.filterMap (·.2.syntax?) := by
    rw [applyPatch_eq]
    exact rejections_load _ 0 p.rules
  refine ⟨e.warnings_addRule, fun _ => warnsOnce_iff, hrejections, fun p => ?_⟩
  rw [hrejections, List.filterMap_length_eq_length]
  refine forall_congr' fun r => forall_congr' fun hr => ?_
  obtain ⟨t, -, hf⟩ := mem_rejected_applyPatch.mp hr
  rw [← e.maxRules_atTurn p r.1]
  exact isSome_syntax?_iff hf

/-- A name that stands twice in a condition is told twice. Of a rule that finds no room nothing is
told, by itself or in a patch. -/
theorem not_warnsOnce_of_repeated :
    let e : Engine Unit := .new "e" (fun _ => 0) 1
    let t : RuleText := ⟨0, "A && A", "RESTART"⟩
    let full := e.offered t
    let p : RulePatch := ⟨.append, [t, restartText]⟩
    (e.addRule t).warnings = [.unboundName "e" "A && A" "A", .unboundName "e" "A && A" "A"] ∧
      ¬ e.WarnsOnce t ∧
      (full.addRule restartText).value = .error (.ruleLimit 1) ∧
      (full.addRule restartText).warnings = [] ∧ ¬ full.WarnsOnce restartText ∧
      (e.applyPatch p).value.1 = ⟨1, [(1, .ruleLimit 1)]⟩ ∧
      (e.applyPatch p).warnings.filterMap Warning.rejection? = [] := by
  intro e t full p
  obtain ⟨e', hadded⟩ : ∃ e', (e.addRule t).value = .ok e' :=
    Outcome.isOk_iff.mp (by decide +kernel)
  refine ⟨by decide +kernel, fun h => ?_, addRule_eq_ruleLimit_iff.mpr (by decide +kernel),
    by decide +kernel, fun h => ?_, by decide +kernel, by decide +kernel⟩
  · exact absurd ((warnsOnce_iff.mp h).2 e' hadded) (by decide +kernel)
  · exact absurd (warnsOnce_iff.mp h).1 (by decide +kernel)

end Engine
end GridRules
