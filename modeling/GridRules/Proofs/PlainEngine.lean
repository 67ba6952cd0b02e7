import GridRules.Engine
import GridRules.Proofs.Outcome
import Mathlib.Data.List.Basic

/-! A plain engine keeps the texts of its rules and nothing that was made of them. Each tick
reads every text anew, asks every condition in one state and only then calls functions. The
engine that parses once ticks in the same way, whatever was done to its rules before. -/
namespace GridRules
variable {σ : Type}

structure PlainEngine (σ : Type) where
  texts : List RuleText
  vars : Variables σ
  library : Library σ
  clock : σ → UInt64
  maxRules : Nat

/-- What may be done to an engine between two ticks. -/
inductive Change (σ : Type) where
  | add (t : RuleText)
  | clear
  | patch (p : RulePatch)
  | vars (vs : Variables σ)
  | library (lib : Library σ)

/-- One call of a command: the state in which it was made, what came of it, and the state that
it left. -/
structure Call (σ : Type) where
  command : Command
  before : σ
  outcome : Except Fault Bool
  after : σ

namespace Call

def succeeded (c : Call σ) : Bool := c.outcome matches .ok true

/-- Every command is called once, in the state that the call before it left. -/
def sequence (lib : Library σ) (vars : Variables σ) : σ → List Command → List (Call σ)
  | _, [] => []
  | state, c :: cs =>
    let (outcome, after) := (lib.call c (vars.scope state) state).value
    ⟨c, state, outcome, after⟩ :: sequence lib vars after cs

/-- The state after some calls that began in `state`. -/
def final (state : σ) (calls : List (Call σ)) : σ := (calls.getLast?.map after).getD state

theorem final_cons (state : σ) (c : Call σ) (cs : List (Call σ)) :
    final state (c :: cs) = final c.after cs := by
  cases cs <;> simp [final, List.getLast?_cons]

theorem command_sequence (lib : Library σ) (vars : Variables σ) (state : σ)
    (cs : List Command) : (sequence lib vars state cs).map (·.command) = cs := by
  induction cs generalizing state with
  | nil => rfl
  | cons c cs ih => simp [sequence, ih]

theorem isSuccess_outcome (c : Call σ) : Library.isSuccess c.outcome = c.succeeded := by
  obtain ⟨_, _, e | (_ | _), _⟩ := c <;> rfl

theorem runAll_eq_sequence (lib : Library σ) (vars : Variables σ) (cs : List Command)
    (state : σ) :
    (lib.runAll vars cs state).value =
      ((sequence lib vars state cs).all (·.succeeded),
        final state (sequence lib vars state cs)) := by
  induction cs generalizing state with
  | nil => rfl
  | cons c cs ih =>
    simp only [Library.runAll, Logged.value_bind, Logged.value_pure, sequence, ih, final_cons,
      List.all_cons, ← isSuccess_outcome]

end Call

instance leftLeaningMaxInt32 : Std.LawfulOrderLeftLeaningMax Int32 where
  max_eq_left a b h := by
    change (if a ≤ b then b else a) = a
    split
    · exact Std.le_antisymm h ‹a ≤ b›
    · rfl
  max_eq_right a b h := by
    change (if a ≤ b then b else a) = b
    exact if_pos (Std.le_of_not_ge h)

namespace PlainEngine

def new (clock : σ → UInt64) (maxRules : Nat) : PlainEngine σ :=
  ⟨[], Engine.initialVars clock, Table.empty, clock, maxRules⟩

/-- A text is taken in while there is room and if both of its parts can be read. -/
def admits (p : PlainEngine σ) (t : RuleText) : Bool :=
  p.texts.length < p.maxRules && (Token.compile t.expression).isOk &&
    (Command.parse t.command).isOk

def add (p : PlainEngine σ) (t : RuleText) : PlainEngine σ :=
  if p.admits t then { p with texts := p.texts ++ [t] } else p

def clear (p : PlainEngine σ) : PlainEngine σ := { p with texts := [] }

def patch (p : PlainEngine σ) (u : RulePatch) : PlainEngine σ :=
  match u.mode with
  | .replace => u.rules.foldl add p.clear
  | .append => u.rules.foldl add p

def change (p : PlainEngine σ) : Change σ → PlainEngine σ
  | .add t => p.add t
  | .clear => p.clear
  | .patch u => p.patch u
  | .vars vs => { p with vars := vs }
  | .library lib => { p with library := lib }

/-! One tick. Rules are named by their place. -/

def holds (s : Scope) (t : RuleText) : Bool := Expression.holds t.expression s matches .ok true

def fails (s : Scope) (t : RuleText) : Bool := Expression.holds t.expression s matches .error _

def commands (t : RuleText) : List Command := (Command.parse t.command).toOption.getD []

def matched (p : PlainEngine σ) (s : Scope) : List Nat := p.texts.findIdxs (holds s)

def priorityAt (p : PlainEngine σ) (i : Nat) : Option Int32 := p.texts[i]?.map (·.priority)

/-- The highest priority of a rule that holds. -/
def tier (p : PlainEngine σ) (s : Scope) : Option Int32 :=
  ((p.matched s).filterMap p.priorityAt).max?

def executed (p : PlainEngine σ) (s : Scope) : List Nat :=
  (p.matched s).filter fun i => p.priorityAt i = p.tier s

/-- The commands that a tick calls. -/
def due (p : PlainEngine σ) (s : Scope) : List Command :=
  (p.executed s).flatMap fun i => (p.texts[i]?.map commands).getD []

def tick (p : PlainEngine σ) (state : σ) : TickReport × PlainEngine σ × σ :=
  let s := p.vars.scope state
  let calls := Call.sequence p.library p.vars state (p.due s)
  let report := ⟨p.matched s, p.executed s, p.tier s, p.texts.countP (fails s),
    calls.all (·.succeeded)⟩
  let stamped := p.vars.bindConstant Engine.lastExecutionTime (.uint64 (p.clock state))
  (report, { p with vars := if p.executed s = [] then p.vars else stamped },
    Call.final state calls)

theorem mem_matched {p : PlainEngine σ} {s : Scope} {i : Nat} :
    i ∈ p.matched s ↔
      ∃ t, p.texts[i]? = some t ∧ Expression.holds t.expression s = .ok true := by
  rw [matched, List.mem_findIdxs_iff_exists_getElem_pos]
  constructor
  · rintro ⟨hi, h⟩
    refine ⟨p.texts[i], List.getElem?_eq_getElem hi, ?_⟩
    unfold holds at h
    split at h
    · assumption
    · cases h
  · rintro ⟨t, ht, h⟩
    obtain ⟨hi, rfl⟩ := List.getElem?_eq_some_iff.mp ht
    exact ⟨hi, by simp [holds, h]⟩

/-- The tier is a priority that is reached, and no rule that holds is above it. -/
theorem tier_eq_some_iff {p : PlainEngine σ} {s : Scope} {top : Int32} :
    p.tier s = some top ↔ (∃ i ∈ p.matched s, p.priorityAt i = some top) ∧
      ∀ i ∈ p.matched s, ∀ q, p.priorityAt i = some q → q ≤ top := by
  rw [tier, List.max?_eq_some_iff]
  simp only [List.mem_filterMap]
  constructor
  · rintro ⟨hm, hle⟩
    exact ⟨hm, fun i hi q hq => hle q ⟨i, hi, hq⟩⟩
  · rintro ⟨hm, hle⟩
    refine ⟨hm, ?_⟩
    rintro q ⟨i, hi, hq⟩
    exact hle i hi q hq

theorem executed_eq_nil_iff {p : PlainEngine σ} {s : Scope} :
    p.executed s = [] ↔ p.tier s = none := by
  constructor
  · intro h
    by_contra hne
    obtain ⟨top, htop⟩ := Option.ne_none_iff_exists'.mp hne
    obtain ⟨i, hi, hp⟩ := (tier_eq_some_iff.mp htop).1
    have hx : i ∈ p.executed s := List.mem_filter.mpr ⟨hi, by simp [hp, htop]⟩
    rw [h] at hx
    cases hx
  · intro h
    refine List.filter_eq_nil_iff.mpr fun i hi hp => ?_
    obtain ⟨t, ht, -⟩ := mem_matched.mp hi
    simp [priorityAt, ht, h] at hp

end PlainEngine

/-! Reading a rule's texts again gives what the rule has kept of them. -/
namespace Rule

theorem parse_eq_ok_iff {t : RuleText} {r : Rule} : parse t = .ok r ↔ r.source = t := by
  constructor
  · intro h
    unfold parse at h
    split at h
    · cases h
    · split at h
      · cases h
      · split at h
        · cases h
        · cases h
          rfl
  · intro h
    subst h
    unfold parse
    split
    · rename_i e he
      cases r.condition_eq.symm.trans he
    · split
      · rename_i e he
        cases r.tokens_eq.symm.trans he
      · rename_i ts hts
        cases r.tokens_eq.symm.trans hts
        split
        · rename_i e he
          cases r.commands_eq.symm.trans he
        · exact congrArg Except.ok (eq_of_source_eq rfl)

theorem commands_source (r : Rule) : Command.parse r.source.command = .ok r.commands := by
  simp [Command.parse, r.tokens_eq, r.commands_eq]

theorem holds_source (r : Rule) (s : Scope) :
    Expression.holds r.source.expression s = (r.holds s).mapError .evaluation := by
  have hc := r.condition_eq
  unfold Token.compile at hc
  cases ht : Token.tokenize r.source.expression with
  | error e => simp [ht] at hc
  | ok ts =>
    have hr : Token.toRpn ts = .ok r.condition := by simpa [ht] using hc
    cases he : Evaluate.evaluate s r.condition <;>
      simp [Expression.holds, Expression.value, Expression.ofTokens, ht, hr, he, holds,
        Evaluate.holds]

theorem isOk_parse (t : RuleText) :
    (parse t).isOk = ((Token.compile t.expression).isOk && (Command.parse t.command).isOk) := by
  unfold parse
  split
  · rename_i e he
    simp [he]
  · rename_i rpn hrpn
    split
    · rename_i e he
      simp [Command.parse, he, hrpn]
    · rename_i ts hts
      split
      · rename_i e he
        simp [Command.parse, hts, he, hrpn]
      · rename_i cs hcs
        simp [Command.parse, hts, hcs, hrpn]

end Rule

namespace Engine

/-- The engine without anything that was made of its texts. -/
def plain (e : Engine σ) : PlainEngine σ := ⟨e.sources, e.vars, e.library, e.clock, e.maxRules⟩

/-- The engine after an attempt to add a rule. -/
def added (e : Engine σ) (t : RuleText) : Engine σ :=
  match (e.addRule t).value with
  | .ok e => e
  | .error _ => e

def change (e : Engine σ) : Change σ → Engine σ
  | .add t => e.added t
  | .clear => e.clearRules
  | .patch p => (e.applyPatch p).value.2
  | .vars vs => { e with vars := vs }
  | .library lib => { e with library := lib }

theorem admits_plain (e : Engine σ) (t : RuleText) :
    e.plain.admits t = (decide (e.rules.length < e.maxRules) && (Rule.parse t).isOk) := by
  rw [PlainEngine.admits, Bool.and_assoc, ← Rule.isOk_parse]
  simp [plain, sources]

theorem plain_added (e : Engine σ) (t : RuleText) : (e.added t).plain = e.plain.add t := by
  rw [PlainEngine.add, admits_plain]
  by_cases hroom : e.maxRules ≤ e.rules.length
  · have hfull : ¬ e.rules.length < e.maxRules := Nat.not_lt.mpr hroom
    simp [added, addRule, hroom, hfull]
  · have hfree : e.rules.length < e.maxRules := Nat.lt_of_not_le hroom
    cases hp : Rule.parse t with
    | error f => simp [added, addRule, hroom, hp]
    | ok r =>
      have hr : r.source = t := Rule.parse_eq_ok_iff.mp hp
      simp [added, addRule, hroom, hp, hfree, plain, sources, hr]

theorem load_eq_added (e : Engine σ) (index : Nat) (ts : List RuleText) :
    (e.load index ts).value.2 = ts.foldl added e := by
  induction ts generalizing e index with
  | nil => rfl
  | cons t ts ih =>
    simp only [load, Logged.value_bind, List.foldl_cons]
    cases h : (e.addRule t).value with
    | error f => simpa [added, h] using ih e (index + 1)
    | ok e' => simpa [added, h] using ih e' (index + 1)

theorem plain_foldl_added (e : Engine σ) (ts : List RuleText) :
    (ts.foldl added e).plain = ts.foldl PlainEngine.add e.plain := by
  induction ts generalizing e with
  | nil => rfl
  | cons t ts ih => rw [List.foldl_cons, ih, plain_added, List.foldl_cons]

theorem plain_change (e : Engine σ) (c : Change σ) : (e.change c).plain = e.plain.change c := by
  cases c with
  | add t => exact plain_added e t
  | clear => rfl
  | patch p =>
    obtain ⟨mode, rules⟩ := p
    cases mode with
    | replace =>
      simp only [change, applyPatch, load_eq_added, plain_foldl_added, PlainEngine.change,
        PlainEngine.patch]
      rfl
    | append =>
      simp only [change, applyPatch, load_eq_added, plain_foldl_added, PlainEngine.change,
        PlainEngine.patch]
  | vars vs => rfl
  | library lib => rfl

theorem plain_changes (e : Engine σ) (cs : List (Change σ)) :
    (cs.foldl change e).plain = cs.foldl PlainEngine.change e.plain := by
  induction cs generalizing e with
  | nil => rfl
  | cons c cs ih => rw [List.foldl_cons, ih, plain_change, List.foldl_cons]

/-! The tick. -/

theorem holds_text (r : Rule) (s : Scope) :
    PlainEngine.holds s r.source = (r.holds s matches .ok true) := by
  rw [PlainEngine.holds, Rule.holds_source]
  cases r.holds s with
  | error e => rfl
  | ok b => cases b <;> rfl

theorem fails_text (r : Rule) (s : Scope) :
    PlainEngine.fails s r.source = (r.holds s matches .error _) := by
  rw [PlainEngine.fails, Rule.holds_source]
  cases r.holds s <;> rfl

theorem commands_text (r : Rule) : PlainEngine.commands r.source = r.commands := by
  simp [PlainEngine.commands, Rule.commands_source, Except.toOption]

theorem mem_holding {e : Engine σ} {s : Scope} {x : Rule × Nat} (h : x ∈ e.holding s) :
    e.rules[x.2]? = some x.1 := by
  have hm := (List.mem_filter.mp h).1
  simpa [List.mem_zipIdx_iff_getElem?] using hm

theorem matched_plain (e : Engine σ) (s : Scope) :
    e.plain.matched s = (e.holding s).map (·.2) := by
  have hf : PlainEngine.holds s ∘ Rule.source = fun r : Rule => (r.holds s matches .ok true) := by
    funext r
    exact holds_text r s
  rw [PlainEngine.matched, plain, sources, List.findIdxs_map, hf,
    List.findIdxs_eq_filterMap_zipIdx, holding, ← List.filterMap_eq_filter, List.map_filterMap]
  congr 1
  funext ⟨r, i⟩
  rcases h : r.holds s with e | (_ | _) <;> simp [Option.guard, h]

theorem errors_plain (e : Engine σ) (s : Scope) :
    e.plain.texts.countP (PlainEngine.fails s) = (e.evalWarnings s).length := by
  have hf : PlainEngine.fails s ∘ Rule.source = fun r : Rule => (r.holds s matches .error _) := by
    funext r
    exact fails_text r s
  rw [plain, sources, List.countP_map, hf, evalWarnings, List.length_filterMap_eq_countP]
  conv_lhs => rw [← List.zipIdx_map_fst 0 e.rules, List.countP_map]
  congr 1
  funext ⟨r, i⟩
  cases h : r.holds s <;> simp [h]

theorem priorityAt_plain {e : Engine σ} {s : Scope} {x : Rule × Nat} (h : x ∈ e.holding s) :
    e.plain.priorityAt x.2 = some x.1.priority := by
  simp [PlainEngine.priorityAt, plain, sources, mem_holding h, Rule.priority]

theorem tier_plain (e : Engine σ) (s : Scope) :
    e.plain.tier s = ((e.holding s).map (·.1.priority)).max? := by
  have hp : (e.holding s).filterMap (fun x => e.plain.priorityAt x.2) =
      (e.holding s).filterMap (fun x => some x.1.priority) :=
    List.filterMap_congr fun x hx => priorityAt_plain hx
  rw [PlainEngine.tier, matched_plain, List.filterMap_map]
  exact congrArg List.max? (hp.trans (congrFun List.filterMap_eq_map' _))

/-- The rules of the highest priority among those that hold. -/
def winners (e : Engine σ) (s : Scope) : List (Rule × Nat) :=
  (e.holding s).filter fun x => some x.1.priority = e.plain.tier s

theorem executed_plain (e : Engine σ) (s : Scope) :
    e.plain.executed s = (e.winners s).map (·.2) := by
  rw [PlainEngine.executed, matched_plain, List.filter_map, winners]
  refine congrArg _ (List.filter_congr fun x hx => ?_)
  simp [priorityAt_plain hx]

theorem due_plain (e : Engine σ) (s : Scope) :
    e.plain.due s = (e.winners s).flatMap (·.1.commands) := by
  rw [PlainEngine.due, executed_plain, List.flatMap_map]
  refine List.flatMap_congr fun x hx => ?_
  have hx := mem_holding (List.mem_of_mem_filter hx)
  simp [plain, sources, hx, commands_text]

theorem reason_plain (e : Engine σ) (state : σ) :
    ((e.reason state).value.1, (e.reason state).value.2.1.plain, (e.reason state).value.2.2) =
      e.plain.tick state := by
  have hs : e.plain.vars.scope state = e.scope state := rfl
  have htier := tier_plain e (e.scope state)
  have hdue := due_plain e (e.scope state)
  have hexecuted := executed_plain e (e.scope state)
  have hnil := PlainEngine.executed_eq_nil_iff (p := e.plain) (s := e.scope state)
  rw [PlainEngine.tick, hs, matched_plain, errors_plain]
  cases hmax : ((e.holding (e.scope state)).map (·.1.priority)).max? with
  | none =>
    have hx : e.plain.executed (e.scope state) = [] := hnil.mpr (htier.trans hmax)
    have hm : e.holding (e.scope state) = [] := by simpa using hmax
    simp [reason, hx, hm, PlainEngine.due, htier, Call.sequence, Call.final]
  | some top =>
    have hx : e.plain.executed (e.scope state) ≠ [] := by
      intro h
      rw [hnil, htier, hmax] at h
      cases h
    have hw : (e.holding (e.scope state)).filter (·.1.priority = top) =
        e.winners (e.scope state) := by
      rw [winners, htier, hmax]
      simp
    rw [hexecuted] at hx
    simp only [reason, Logged.value_bind, Logged.value_pure, hmax, hw, hdue, hexecuted, htier,
      Call.runAll_eq_sequence, if_neg hx]
    rfl

theorem rules_reason (e : Engine σ) (state : σ) :
    (e.reason state).value.2.1.rules = e.rules := by
  simp only [reason, Logged.value_bind]
  split <;> rfl

/-- However its rules, variables and functions came about, an engine ticks as the plain engine
does that has seen the same changes. -/
theorem reason_eq_plain_tick (name : String) (clock : σ → UInt64) (maxRules : Nat)
    (changes : List (Change σ)) (state : σ) :
    let e := changes.foldl change (new name clock maxRules)
    let p := changes.foldl PlainEngine.change (PlainEngine.new clock maxRules)
    let s := p.vars.scope state
    let (report, e', after) := (e.reason state).value
    (report, e'.plain, after) = p.tick state ∧ e'.rules = e.rules ∧
      report.matched.Pairwise (· < ·) ∧
      (∀ i, i ∈ report.matched ↔
        ∃ t, p.texts[i]? = some t ∧ Expression.holds t.expression s = .ok true) ∧
      (∀ top, report.tier = some top ↔ (∃ i ∈ report.matched, p.priorityAt i = some top) ∧
        ∀ i ∈ report.matched, ∀ q, p.priorityAt i = some q → q ≤ top) ∧
      (Call.sequence p.library p.vars state (p.due s)).map (·.command) = p.due s := by
  intro e p s
  have hp : e.plain = p := plain_changes (new name clock maxRules) changes
  have htick := reason_plain e state
  rw [hp] at htick
  have hreport : (e.reason state).value.1 = (p.tick state).1 := congrArg (·.1) htick
  have hmatched : (e.reason state).value.1.matched = p.matched s := by
    rw [hreport]
    rfl
  have htier : (e.reason state).value.1.tier = p.tier s := by
    rw [hreport]
    rfl
  refine ⟨htick, rules_reason e state, ?_, fun i => ?_, fun top => ?_, ?_⟩
  · rw [hmatched]
    exact List.pairwise_findIdxs
  · rw [hmatched]
    exact PlainEngine.mem_matched
  · rw [hmatched, htier]
    exact PlainEngine.tier_eq_some_iff
  · exact Call.command_sequence ..

end Engine
end GridRules
