import GridRules.Proofs.Limits

/-! Patches as a whole. What a patch leaves is what it started from and those of its records that
are not told of as rejected, in their order; and each record is told of as rejected exactly for
what stands against it when it has its turn. -/
namespace GridRules

namespace PatchReport

/-- Whether the record at this place is told of as rejected. -/
def rejects (r : PatchReport) (i : Nat) : Bool := r.rejected.any (·.1 = i)

/-- The records that are not told of as rejected; the first is the record at place `index`. -/
def acceptedFrom (r : PatchReport) (index : Nat) (ts : List RuleText) : List RuleText :=
  ((ts.zipIdx index).filter fun (_, i) => !r.rejects i).map (·.1)

def accepted (r : PatchReport) (ts : List RuleText) : List RuleText := r.acceptedFrom 0 ts

theorem rejects_iff {r : PatchReport} {i : Nat} : r.rejects i ↔ ∃ f, (i, f) ∈ r.rejected := by
  simp [rejects]

theorem acceptedFrom_cons_of_rejects {r : PatchReport} {index : Nat} (h : r.rejects index = true)
    (t : RuleText) (ts : List RuleText) :
    r.acceptedFrom index (t :: ts) = r.acceptedFrom (index + 1) ts := by
  simp [acceptedFrom, h]

theorem acceptedFrom_cons_of_not_rejects {r : PatchReport} {index : Nat}
    (h : r.rejects index = false) (t : RuleText) (ts : List RuleText) :
    r.acceptedFrom index (t :: ts) = t :: r.acceptedFrom (index + 1) ts := by
  simp [acceptedFrom, h]

/-- Only what a report says about the places of the records matters. -/
theorem acceptedFrom_congr {r r' : PatchReport} {index : Nat} {ts : List RuleText}
    (h : ∀ i, index ≤ i → i < index + ts.length → r.rejects i = r'.rejects i) :
    r.acceptedFrom index ts = r'.acceptedFrom index ts := by
  unfold acceptedFrom
  congr 1
  refine List.filter_congr fun ⟨t, i⟩ hmem => ?_
  obtain ⟨hle, hlt, -⟩ := List.mem_zipIdx hmem
  exact congrArg (!·) (h i hle hlt)

end PatchReport

namespace Engine
variable {σ : Type}

/-- What stands against a record where there are `count` rules already: there is no room, or else
its expression cannot be read, or else its command cannot. -/
def refusal (limit count : Nat) (t : RuleText) : Option Fault :=
  if limit ≤ count then some (.ruleLimit limit)
  else match Token.compile t.expression with
    | .error f => some (.syntactic f)
    | .ok _ => match Command.parse t.command with
      | .error f => some (.syntactic f)
      | .ok _ => none

theorem refusal_eq_some_of_parse {t : RuleText} {f : SyntaxFault} (h : Rule.parse t = .error f)
    {limit count : Nat} (hroom : count < limit) :
    refusal limit count t = some (.syntactic f) := by
  rw [refusal, if_neg (Nat.not_le.mpr hroom)]
  unfold Rule.parse at h
  split at h
  · rename_i f' hexpression
    cases h
    simp only [hexpression]
  · rename_i condition hexpression
    simp only [hexpression]
    split at h
    · rename_i f' hcommand
      cases h
      simp [Command.parse, hcommand]
    · rename_i ts htokens
      split at h
      · rename_i f' hcommand
        cases h
        simp [Command.parse, htokens, hcommand]
      · cases h

theorem refusal_eq_none (r : Rule) {limit count : Nat} (hroom : count < limit) :
    refusal limit count r.source = none := by
  simp only [refusal, if_neg (Nat.not_le.mpr hroom), r.condition_eq, r.commands_source]

theorem addRule_eq_error_iff {e : Engine σ} {t : RuleText} {f : Fault} :
    (e.addRule t).value = .error f ↔ refusal e.maxRules e.rules.length t = some f := by
  rw [addRule]
  by_cases hfull : e.maxRules ≤ e.rules.length
  · simp [hfull, refusal]
  · have hroom := Nat.lt_of_not_le hfull
    rw [if_neg hfull]
    cases hp : Rule.parse t with
    | error f' => simp [refusal_eq_some_of_parse hp hroom]
    | ok r =>
      obtain rfl := Rule.parse_eq_ok_iff.mp hp
      simp [refusal_eq_none r hroom]

/-! Loading, record by record. -/

theorem load_cons_of_ok {e e' : Engine σ} {t : RuleText} (h : (e.addRule t).value = .ok e')
    (index : Nat) (ts : List RuleText) :
    (e.load index (t :: ts)).value =
      (⟨(e'.load (index + 1) ts).value.1.loaded + 1, (e'.load (index + 1) ts).value.1.rejected⟩,
        (e'.load (index + 1) ts).value.2) := by
  simp only [load, Logged.value_bind, h]
  rfl

theorem load_cons_of_error {e : Engine σ} {t : RuleText} {f : Fault}
    (h : (e.addRule t).value = .error f) (index : Nat) (ts : List RuleText) :
    (e.load index (t :: ts)).value =
      (⟨(e.load (index + 1) ts).value.1.loaded,
        (index, f) :: (e.load (index + 1) ts).value.1.rejected⟩,
        (e.load (index + 1) ts).value.2) := by
  simp only [load, Logged.value_bind, h]
  rfl

theorem le_of_mem_rejected_load {e : Engine σ} {index i : Nat} {ts : List RuleText} {f : Fault}
    (h : (i, f) ∈ (e.load index ts).value.1.rejected) : index ≤ i := by
  obtain ⟨j, rfl, -⟩ := mem_rejected_load.mp h
  exact Nat.le_add_right index j

theorem not_rejects_load {e : Engine σ} {index i : Nat} (h : i < index) (ts : List RuleText) :
    (e.load index ts).value.1.rejects i = false := by
  rw [Bool.eq_false_iff]
  intro hrejects
  obtain ⟨f, hf⟩ := PatchReport.rejects_iff.mp hrejects
  exact Nat.not_le.mpr h (le_of_mem_rejected_load hf)

/-- Records are loaded behind the rules that are there. -/
theorem sources_load (e : Engine σ) (index : Nat) (ts : List RuleText) :
    (e.load index ts).value.2.sources =
      e.sources ++ (e.load index ts).value.1.acceptedFrom index ts := by
  induction ts generalizing e index with
  | nil => exact (List.append_nil _).symm
  | cons t ts ih =>
    cases ha : (e.addRule t).value with
    | ok e' =>
      obtain ⟨-, r, hr, he'⟩ := addRule_eq_ok_iff.mp ha
      obtain rfl := Rule.parse_eq_ok_iff.mp hr
      have hnew : (e.load index (r.source :: ts)).value.1.rejects index = false := by
        rw [load_cons_of_ok ha]
        exact not_rejects_load (Nat.lt_succ_self index) ts
      rw [PatchReport.acceptedFrom_cons_of_not_rejects hnew, load_cons_of_ok ha]
      calc (e'.load (index + 1) ts).value.2.sources
          = e'.sources ++ (e'.load (index + 1) ts).value.1.acceptedFrom (index + 1) ts := ih ..
        _ = _ := by simp [he', sources, PatchReport.acceptedFrom, PatchReport.rejects]
    | error f =>
      have hrejected : (e.load index (t :: ts)).value.1.rejects index = true := by
        rw [load_cons_of_error ha]
        simp [PatchReport.rejects]
      rw [PatchReport.acceptedFrom_cons_of_rejects hrejected, load_cons_of_error ha, ih]
      congr 1
      -- the places behind the head are others than its own
      refine PatchReport.acceptedFrom_congr fun i hi _ => ?_
      have hne : index ≠ i := Nat.ne_of_lt hi
      simp [PatchReport.rejects, hne]

theorem count_load (e : Engine σ) (index : Nat) (ts : List RuleText) :
    (e.load index ts).value.1.loaded + (e.load index ts).value.1.rejected.length = ts.length := by
  induction ts generalizing e index with
  | nil => rfl
  | cons t ts ih =>
    cases ha : (e.addRule t).value with
    | ok e' =>
      have hrest := ih e' (index + 1)
      simp only [load_cons_of_ok ha, List.length_cons]
      omega
    | error f =>
      have hrest := ih e (index + 1)
      simp only [load_cons_of_error ha, List.length_cons]
      omega

theorem increasing_load (e : Engine σ) (index : Nat) (ts : List RuleText) :
    ((e.load index ts).value.1.rejected.map (·.1)).Pairwise (· < ·) := by
  induction ts generalizing e index with
  | nil => exact List.Pairwise.nil
  | cons t ts ih =>
    cases ha : (e.addRule t).value with
    | ok e' =>
      rw [load_cons_of_ok ha]
      exact ih e' (index + 1)
    | error f =>
      rw [load_cons_of_error ha, List.map_cons]
      refine List.Pairwise.cons (fun i hi => ?_) (ih e (index + 1))
      obtain ⟨⟨j, f'⟩, hmem, rfl⟩ := List.mem_map.mp hi
      exact le_of_mem_rejected_load hmem

/-! Whole patches. -/

/-- The records of the rules that a patch leaves in place. -/
def kept (e : Engine σ) : PatchMode → List RuleText
  | .replace => []
  | .append => e.sources

theorem sources_base (e : Engine σ) (mode : PatchMode) : (e.base mode).sources = e.kept mode := by
  cases mode <;> rfl

theorem sources_applyPatch (e : Engine σ) (p : RulePatch) :
    (e.applyPatch p).value.2.sources =
      e.kept p.mode ++ (e.applyPatch p).value.1.accepted p.rules := by
  rw [applyPatch_eq, sources_load, sources_base, PatchReport.accepted]

theorem atTurn_take (e : Engine σ) (p : RulePatch) {i j : Nat} (h : j ≤ i) :
    e.atTurn ⟨p.mode, p.rules.take i⟩ j = e.atTurn p j := by
  simp only [atTurn, List.take_take, Nat.min_eq_left h]

/-- A report tells the same of the first records whether others follow them or not. -/
theorem rejects_take (e : Engine σ) (p : RulePatch) {i j : Nat} (h : j < i) :
    (e.applyPatch ⟨p.mode, p.rules.take i⟩).value.1.rejects j =
      (e.applyPatch p).value.1.rejects j := by
  rw [Bool.eq_iff_iff, PatchReport.rejects_iff, PatchReport.rejects_iff]
  simp only [mem_rejected_applyPatch, e.atTurn_take p h.le, List.getElem?_take_of_lt h]

/-- When a record has its turn, the rules are those that the patch started from and the records
before it that are not rejected. -/
theorem sources_atTurn (e : Engine σ) (p : RulePatch) (i : Nat) :
    (e.atTurn p i).sources =
      e.kept p.mode ++ (e.applyPatch p).value.1.accepted (p.rules.take i) := by
  rw [atTurn, sources_applyPatch]
  congr 1
  refine PatchReport.acceptedFrom_congr fun j _ hj => e.rejects_take p ?_
  rw [Nat.zero_add, List.length_take] at hj
  exact Nat.lt_of_lt_of_le hj (Nat.min_le_left ..)

theorem length_atTurn (e : Engine σ) (p : RulePatch) (i : Nat) :
    (e.atTurn p i).rules.length = (e.kept p.mode).length +
      ((e.applyPatch p).value.1.accepted (p.rules.take i)).length := by
  rw [← List.length_append, ← sources_atTurn, sources, List.length_map]

/-- What a patch does to an engine, and what it tells of it. -/
structure Patched (e : Engine σ) (p : RulePatch) (report : PatchReport) (e' : Engine σ) :
    Prop where
  /-- The accepted records stand behind what was kept, in their order. -/
  sources : e'.sources = e.kept p.mode ++ report.accepted p.rules
  /-- Every record is either counted as loaded or told of. -/
  counted : report.loaded + report.rejected.length = p.rules.length
  increasing : (report.rejected.map (·.1)).Pairwise (· < ·)
  /-- A record is refused exactly for what stands against it at its turn. -/
  mem_rejected {i : Nat} {f : Fault} : (i, f) ∈ report.rejected ↔ ∃ t, p.rules[i]? = some t ∧
    refusal e.maxRules ((e.kept p.mode).length + (report.accepted (p.rules.take i)).length) t =
      some f
  /-- There is never a rule more than the limit allows. -/
  within (i : Nat) : (e.kept p.mode).length + (report.accepted (p.rules.take i)).length ≤ e.maxRules
  /-- Nothing but the rules has changed. -/
  frame : e' = { e with rules := e'.rules }

/-- A patch loses none of the records that it accepts, changes nothing in their order and gives
the reason for each of the others. -/
theorem patched_applyPatch {e : Engine σ} (h : e.rules.length ≤ e.maxRules) (p : RulePatch) :
    e.Patched p (e.applyPatch p).value.1 (e.applyPatch p).value.2 where
  sources := e.sources_applyPatch p
  counted := by
    rw [applyPatch_eq]
    exact count_load _ 0 p.rules
  increasing := by
    rw [applyPatch_eq]
    exact increasing_load _ 0 p.rules
  mem_rejected {i f} := by
    rw [mem_rejected_applyPatch]
    simp only [addRule_eq_error_iff, maxRules_atTurn, length_atTurn]
  within i := by
    obtain ⟨rs, hrs, hle⟩ := e.applyPatch_frame ⟨p.mode, p.rules.take i⟩
    rw [← length_atTurn, atTurn, hrs]
    exact hle h
  frame := by
    obtain ⟨rs, hrs, -⟩ := e.applyPatch_frame p
    rw [hrs]

/-- Of three records the first cannot be read and the last finds no room. -/
theorem patched_applyPatch_of_three :
    let e : Engine Unit := .new "" (fun _ => 0) 1
    let p : RulePatch := ⟨.append, [⟨0, "(", "RESTART"⟩, restartText, restartText]⟩
    e.rules.length ≤ e.maxRules ∧
      (e.applyPatch p).value.1 = ⟨1, [(0, .syntactic Token.unbalanced), (2, .ruleLimit 1)]⟩ ∧
      e.Patched p (e.applyPatch p).value.1 (e.applyPatch p).value.2 := by
  intro e p
  have hroom : e.rules.length ≤ e.maxRules := Nat.zero_le _
  exact ⟨hroom, by decide +kernel, patched_applyPatch hroom p⟩

end Engine
end GridRules
