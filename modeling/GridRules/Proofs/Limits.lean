import GridRules.Proofs.Addressed
import Mathlib.Data.Set.List

/-! The limit on an owner's rules. It is set once, when the owner comes into being, so that settings
which are changed later limit the rules of later owners only. -/
namespace GridRules
variable {S : Type}

/-! Updates, record by record. -/
namespace Engine
variable {σ : Type}

/-- The engine after a rule was offered to it, whether it took the rule or not. -/
def offered (e : Engine σ) (t : RuleText) : Engine σ :=
  match (e.addRule t).value with
  | .ok e' => e'
  | .error _ => e

theorem load_snd (e : Engine σ) (index : Nat) (ts : List RuleText) :
    (e.load index ts).value.2 = ts.foldl offered e := by
  induction ts generalizing e index with
  | nil => rfl
  | cons t ts ih =>
    simp only [load, Logged.value_bind, List.foldl_cons, offered]
    cases (e.addRule t).value with
    | ok e' => exact ih e' (index + 1)
    | error f => exact ih e (index + 1)

theorem mem_rejected_load {e : Engine σ} {index j : Nat} {ts : List RuleText} {f : Fault} :
    (j, f) ∈ (e.load index ts).value.1.rejected ↔ ∃ i, j = index + i ∧
      ∃ t, ts[i]? = some t ∧ (((ts.take i).foldl offered e).addRule t).value = .error f := by
  induction ts generalizing e index with
  | nil => simp [load]
  | cons t ts ih =>
    rw [← Nat.or_exists_add_one]
    simp only [load, Logged.value_bind, List.getElem?_cons_zero, List.getElem?_cons_succ,
      List.take_zero, List.take_succ_cons, List.foldl_nil, List.foldl_cons, offered, Nat.add_zero,
      Option.some.injEq, exists_eq_left', ← Nat.add_assoc, Nat.add_right_comm index _ 1]
    cases ha : (e.addRule t).value with
    | ok e' => simpa using ih
    | error f' =>
      simp only [Logged.value_bind, Logged.value_pure, List.mem_cons, ih, Prod.mk.injEq,
        Except.error.injEq, eq_comm (a := f)]

/-- What a patch starts from. -/
def base (e : Engine σ) : PatchMode → Engine σ
  | .replace => e.clearRules
  | .append => e

theorem applyPatch_eq (e : Engine σ) (p : RulePatch) :
    e.applyPatch p = (e.base p.mode).load 0 p.rules := by
  rw [applyPatch]
  cases p.mode <;> rfl

/-- The engine when record `i` of a patch has its turn. -/
def atTurn (e : Engine σ) (p : RulePatch) (i : Nat) : Engine σ :=
  (e.applyPatch ⟨p.mode, p.rules.take i⟩).value.2

/-- A record is refused if the engine refuses it as it is when the record has its turn. -/
theorem mem_rejected_applyPatch {e : Engine σ} {p : RulePatch} {i : Nat} {f : Fault} :
    (i, f) ∈ (e.applyPatch p).value.1.rejected ↔
      ∃ t, p.rules[i]? = some t ∧ ((e.atTurn p i).addRule t).value = .error f := by
  simp only [atTurn, applyPatch_eq, load_snd, mem_rejected_load, Nat.zero_add, exists_eq_left']

theorem maxRules_atTurn (e : Engine σ) (p : RulePatch) (i : Nat) :
    (e.atTurn p i).maxRules = e.maxRules := by
  obtain ⟨rs, hrs, -⟩ := e.applyPatch_frame ⟨p.mode, p.rules.take i⟩
  rw [atTurn, hrs]

theorem addRule_eq_ruleLimit_iff {e : Engine σ} {t : RuleText} {n : Nat} :
    (e.addRule t).value = .error (.ruleLimit n) ↔ e.maxRules ≤ e.rules.length ∧ n = e.maxRules := by
  rw [addRule]
  by_cases hfull : e.maxRules ≤ e.rules.length
  · simp [hfull, eq_comm]
  · cases hp : Rule.parse t <;> simp [hfull]

/-- Rules without fault, no more of them than there is room for, take the place of the old ones. -/
theorem sources_applyPatch_replace {e : Engine σ} {ts : List RuleText}
    (hparse : ∀ t ∈ ts, ∃ r, Rule.parse t = .ok r) (hroom : ts.length ≤ e.maxRules) :
    (e.applyPatch ⟨.replace, ts⟩).value.2.sources = ts := by
  have hrange : ts ∈ Set.range (List.map Rule.source) := by
    rw [Set.range_list_map]
    intro t ht
    obtain ⟨r, hr⟩ := hparse t ht
    exact ⟨r, Rule.parse_eq_ok_iff.mp hr⟩
  obtain ⟨rs, rfl⟩ := hrange
  have hload := load_sources (e := e.clearRules) (by simpa [clearRules] using hroom) 0
  rw [applyPatch_eq, base, hload]
  simp [sources, clearRules]

/-- A rule that every engine with room for it takes. -/
def restartText : RuleText := ⟨0, "1", "RESTART"⟩

theorem parse_restartText : ∃ r, Rule.parse restartText = .ok r :=
  Outcome.isOk_iff.mp (by decide +kernel)

/-- A patch of one rule more than there is room for, all of them without fault. -/
def overfull (e : Engine σ) : RulePatch :=
  ⟨.replace, List.replicate (e.maxRules + 1) restartText⟩

theorem getElem?_overfull {e : Engine σ} {i : Nat} (hi : i ≤ e.maxRules) :
    e.overfull.rules[i]? = some restartText := by
  simp [overfull, Nat.lt_succ_of_le hi]

theorem length_atTurn_overfull {e : Engine σ} {i : Nat} (hi : i ≤ e.maxRules) :
    (e.atTurn e.overfull i).rules.length = i := by
  have htake : e.overfull.rules.take i = List.replicate i restartText := by
    rw [overfull, List.take_replicate, Nat.min_eq_left (Nat.le_succ_of_le hi)]
  have hparse : ∀ t ∈ List.replicate i restartText, ∃ r, Rule.parse t = .ok r := fun t ht =>
    List.eq_of_mem_replicate ht ▸ parse_restartText
  have hsources := sources_applyPatch_replace (e := e) hparse (by simpa using hi)
  rw [atTurn, htake, ← List.length_map (f := Rule.source)]
  exact (congrArg List.length hsources).trans (List.length_replicate ..)

end Engine

/-! Owners that a controller has. -/
namespace Controller
variable [BlobStore S]

/-- The owner behind a target. -/
inductive Owns (c : Controller) : Target → {R : Type} → Owner R → Prop
  | unit : c.Owns .unit c.unit
  | module {id : UInt8} {m : Module} (h : c.module? id = some m) : c.Owns (.module id) m

variable {c : Controller} {t : Target} {R : Type} {o : Owner R}

theorem exists_owns (h : c.hasOwner t) : ∃ R, ∃ o : Owner R, c.Owns t o := by
  cases t with
  | unit => exact ⟨_, _, .unit⟩
  | module id =>
    obtain ⟨m, hm⟩ := Option.isSome_iff_exists.mp h
    exact ⟨_, m, .module hm⟩

theorem Owns.hasOwner (h : c.Owns t o) : c.hasOwner t := by
  cases h with
  | unit => rfl
  | module hm => simp [Controller.hasOwner, hm]

theorem Every.of_owns {P : Target → {R : Type} → Owner R → Prop} (h : c.Every P)
    (ho : c.Owns t o) : P t o := by
  cases ho with
  | unit => exact h.1
  | module hm =>
    obtain ⟨hmem, rfl⟩ := mem_of_module?_eq_some hm
    exact h.2 _ hmem

theorem Owns.withOwner_fst {α : Type} (h : c.Owns t o)
    (f : {R : Type} → Owner R → Logged (α × Owner R)) :
    (c.withOwner t f).value.1 = some (f o).value.1 := by
  cases h with
  | unit => rfl
  | module hm => simp [withOwner, hm]

theorem Owns.withOwner {α : Type} (h : c.Owns t o)
    {f : {R : Type} → Owner R → Logged (α × Owner R)}
    (hf : ∀ {R : Type} (o : Owner R), (f o).value.2.readings = o.readings) :
    (c.withOwner t f).value.2.Owns t (f o).value.2 := by
  cases h with
  | unit => exact .unit
  | @module id m hm =>
    refine .module ?_
    rw [module?_withOwner c _ hf id, if_pos rfl, hm]
    rfl

theorem Owns.markDirty (h : c.Owns t o) : c.markDirty.Owns t o := by
  cases h with
  | unit =>
    rw [markDirty_eq]
    exact .unit
  | @module id m hm => exact .module ((module?_markDirty c id).trans hm)

/-- An update tells of what the owner's engine did with it. -/
theorem Owns.updateRules (h : c.Owns t o) (p : RulePatch) :
    (c.updateRules t p).value.2 = patchEvents t (o.engine.applyPatch p).value.1 ∧
      (c.updateRules t p).value.1.Owns t (o.applyPatch p).value.2 := by
  have hfst := h.withOwner_fst (·.applyPatch p)
  have hsnd := h.withOwner (f := (·.applyPatch p)) fun _ => rfl
  rw [Controller.updateRules, Logged.value_bind]
  rcases hvalue : (c.withOwner t (·.applyPatch p)).value with ⟨report, c'⟩
  rw [hvalue] at hfst hsnd
  subst hfst
  exact ⟨rfl, hsnd.markDirty⟩

/-- The number of rules of an owner. -/
def ruleCount (c : Controller) (t : Target) : Nat :=
  (c.withOwner t fun o => pure (o.engine.rules.length, o)).value.1.getD 0

theorem Owns.ruleCount (h : c.Owns t o) : c.ruleCount t = o.engine.rules.length := by
  rw [Controller.ruleCount, h.withOwner_fst]
  rfl

theorem ruleRejected_mem_patchEvents {r : PatchReport} {i : Nat} {f : Fault} :
    .ruleRejected t i f ∈ patchEvents t r ↔ (i, f) ∈ r.rejected := by
  simp [patchEvents]

end Controller

namespace Site
variable [BlobStore S]

/-- The number of rules that an owner has when record `i` of an update has its turn: those that
the records before it, if they are all there is to the update, leave it with. -/
def countAt (w : Site S) (t : Target) (p : RulePatch) (i : Nat) : Nat :=
  (w.step (.request (.updateRules t ⟨p.mode, p.rules.take i⟩))).1.controller.ruleCount t

/-- A limit that every update keeps to. A record that is not told of as rejected has been loaded,
which needs room, and a rule without fault is rejected for the limit only where there is none. -/
structure LimitsRules (w : Site S) (t : Target) (limit : Nat) : Prop where
  loaded {p : RulePatch} {i : Nat} (hi : i < p.rules.length)
    (htold : ∀ f, .ruleRejected t i f ∉ (w.step (.request (.updateRules t p))).2) :
    w.countAt t p i < limit
  refused {p : RulePatch} {i n : Nat} {text : RuleText} (htext : p.rules[i]? = some text)
    (hparse : ∃ r, Rule.parse text = .ok r)
    (htold : .ruleRejected t i (.ruleLimit n) ∈ (w.step (.request (.updateRules t p))).2) :
    limit ≤ w.countAt t p i

variable {w : Site S} {t : Target} {R : Type} {o : Owner R}

theorem owns_updateRules (h : w.controller.Owns t o) (p : RulePatch) :
    (w.step (.request (.updateRules t p))).1.controller.Owns t (o.applyPatch p).value.2 :=
  (h.updateRules p).2

theorem countAt_of_owns (h : w.controller.Owns t o) (p : RulePatch) (i : Nat) :
    w.countAt t p i = (o.engine.atTurn p i).rules.length :=
  (owns_updateRules h ⟨p.mode, p.rules.take i⟩).ruleCount

theorem told_iff_of_owns (h : w.controller.Owns t o) {p : RulePatch} {i : Nat} {f : Fault} :
    .ruleRejected t i f ∈ (w.step (.request (.updateRules t p))).2 ↔
      ∃ text, p.rules[i]? = some text ∧ ((o.engine.atTurn p i).addRule text).value = .error f := by
  have hevents : (w.step (.request (.updateRules t p))).2 =
      Controller.patchEvents t (o.engine.applyPatch p).value.1 := (h.updateRules p).1
  rw [hevents, Controller.ruleRejected_mem_patchEvents, Engine.mem_rejected_applyPatch]

theorem not_told_iff_of_owns (h : w.controller.Owns t o) {p : RulePatch} {i : Nat}
    {text : RuleText} (htext : p.rules[i]? = some text) :
    (∀ f, .ruleRejected t i f ∉ (w.step (.request (.updateRules t p))).2) ↔
      w.countAt t p i < o.engine.maxRules ∧ ∃ r, Rule.parse text = .ok r := by
  simp only [told_iff_of_owns h, htext, Option.some.injEq, exists_eq_left', countAt_of_owns h]
  cases hadd : ((o.engine.atTurn p i).addRule text).value with
  | error f =>
    have hno : ¬ ∃ e', ((o.engine.atTurn p i).addRule text).value = .ok e' := by simp [hadd]
    simp only [Engine.addRule_eq_ok_iff, Engine.maxRules_atTurn] at hno
    refine iff_of_false (fun hall => hall f rfl) fun ⟨hroom, r, hr⟩ => hno ⟨_, hroom, r, hr, rfl⟩
  | ok e' =>
    obtain ⟨hroom, r, hr, -⟩ := Engine.addRule_eq_ok_iff.mp hadd
    rw [Engine.maxRules_atTurn] at hroom
    exact iff_of_true nofun ⟨hroom, r, hr⟩

theorem LimitsRules.le_maxRules {limit : Nat} (hlimits : w.LimitsRules t limit)
    (h : w.controller.Owns t o) : limit ≤ o.engine.maxRules := by
  have hturn := o.engine.length_atTurn_overfull le_rfl
  have hfull : ((o.engine.atTurn o.engine.overfull o.engine.maxRules).addRule
      Engine.restartText).value = .error (.ruleLimit o.engine.maxRules) := by
    rw [Engine.addRule_eq_ruleLimit_iff, Engine.maxRules_atTurn, hturn]
    exact ⟨le_rfl, rfl⟩
  have hrecord := o.engine.getElem?_overfull le_rfl
  have hlast := hlimits.refused hrecord Engine.parse_restartText
    ((told_iff_of_owns h).mpr ⟨_, hrecord, hfull⟩)
  rwa [countAt_of_owns h, hturn] at hlast

theorem LimitsRules.maxRules_le {limit : Nat} (hlimits : w.LimitsRules t limit)
    (h : w.controller.Owns t o) : o.engine.maxRules ≤ limit := by
  refine Nat.le_of_not_lt fun hlt => ?_
  have hcount : w.countAt t o.engine.overfull limit = limit :=
    (countAt_of_owns h _ _).trans (o.engine.length_atTurn_overfull hlt.le)
  obtain ⟨hi, -⟩ := List.getElem?_eq_some_iff.mp (o.engine.getElem?_overfull hlt.le)
  have hloaded := hlimits.loaded hi
    ((not_told_iff_of_owns h (o.engine.getElem?_overfull hlt.le)).mpr
      ⟨by rwa [hcount], Engine.parse_restartText⟩)
  rw [hcount] at hloaded
  exact Nat.lt_irrefl _ hloaded

theorem limitsRules_maxRules (h : w.controller.Owns t o) :
    w.LimitsRules t o.engine.maxRules where
  loaded {p i} hi htold :=
    ((not_told_iff_of_owns h (List.getElem?_eq_getElem hi)).mp htold).1
  refused {p i n text} htext _ htold := by
    obtain ⟨text', htext', hadd⟩ := (told_iff_of_owns h).mp htold
    rw [countAt_of_owns h, ← o.engine.maxRules_atTurn p i]
    exact (Engine.addRule_eq_ruleLimit_iff.mp hadd).1

/-- Updates keep to the limit of the owner's engine and to no other. -/
theorem limitsRules_iff_of_owns (h : w.controller.Owns t o) (limit : Nat) :
    w.LimitsRules t limit ↔ limit = o.engine.maxRules := by
  constructor
  · intro hlimits
    exact le_antisymm (hlimits.le_maxRules h) (hlimits.maxRules_le h)
  · rintro rfl
    exact limitsRules_maxRules h

end Site

/-! The limit of an owner along a run. -/

/-- Of the owners, only the one behind this target has to have this limit. -/
def Owner.Limited (t : Target) (limit : Nat) (t' : Target) {R : Type} (o : Owner R) : Prop :=
  t' = t → o.engine.maxRules = limit

theorem Owner.limited_lasting (t : Target) (limit : Nat) :
    Owner.Lasting (Owner.Limited t limit) :=
  .of_frame (fun _ h => h) (fun _ h => h) (fun _ _ h => h) fun _ h => h

theorem Controller.hasOwner_module_iff {c : Controller} {id : UInt8} :
    c.hasOwner (.module id) ↔ id ∈ c.ids := by
  rw [← not_iff_not, ← module?_eq_none_iff]
  simp [hasOwner]

/-- Without the owner any limit will do. -/
theorem Controller.every_limited_of_not_hasOwner {c : Controller} {t : Target}
    (h : ¬ c.hasOwner t) (limit : Nat) : c.Every (Owner.Limited t limit) := by
  refine ⟨fun ht => (h (ht ▸ rfl)).elim, fun m hm ht => (h ?_).elim⟩
  rw [← ht, Module.target, hasOwner_module_iff]
  exact List.mem_map_of_mem hm

namespace Site
variable [BlobStore S] {w : Site S} {t : Target} {limit : Nat}

theorem hasOwner_step (h : w.controller.hasOwner t) (a : Step S) :
    (w.step a).1.controller.hasOwner t := by
  cases t with
  | unit => rfl
  | module id =>
    rw [Controller.hasOwner_module_iff] at h ⊢
    rcases w.ids_step_cases a with heq | ⟨new, -, heq⟩ <;> rw [heq]
    · exact h
    · exact List.mem_append_left _ h

theorem every_limited_step (h : w.controller.Every (Owner.Limited t limit)) (a : Step S)
    (hnew : ¬ w.controller.hasOwner t → w.controller.settings.maxRules.toNat = limit) :
    (w.step a).1.controller.Every (Owner.Limited t limit) := by
  refine every_step (Owner.limited_lasting t limit) h a fun id _ hid ht => hnew ?_
  rw [← ht, Controller.hasOwner_module_iff]
  exact Controller.module?_eq_none_iff.mp hid

theorem every_limited_run_of_hasOwner (h : w.controller.Every (Owner.Limited t limit))
    (howner : w.controller.hasOwner t) (steps : List (Step S)) :
    (w.run steps).controller.Every (Owner.Limited t limit) := by
  induction steps generalizing w with
  | nil => exact h
  | cons a steps ih =>
    exact ih (every_limited_step h a fun hno => (hno howner).elim) (hasOwner_step howner a)

/-- The settings under which an owner came into being: those of the step of a run that brought it,
or those that the run started with if it was there from the start. -/
def settingsFor (w : Site S) (t : Target) : List (Step S) → Settings
  | [] => w.controller.settings
  | a :: steps =>
    if (w.step a).1.controller.hasOwner t then w.controller.settings
    else (w.step a).1.settingsFor t steps

/-- Along a run an owner keeps the limit of the settings under which it came into being. -/
theorem every_limited_run
    (h : w.controller.Every (Owner.Limited t w.controller.settings.maxRules.toNat))
    (steps : List (Step S)) :
    (w.run steps).controller.Every
      (Owner.Limited t (w.settingsFor t steps).maxRules.toNat) := by
  induction steps generalizing w with
  | nil => exact h
  | cons a steps ih =>
    rw [run_cons, settingsFor]
    split
    · rename_i howner
      exact every_limited_run_of_hasOwner (every_limited_step h a fun _ => rfl) howner steps
    · rename_i hno
      exact ih (Controller.every_limited_of_not_hasOwner hno _)

omit [BlobStore S] in
theorem every_limited_start (settings : Settings) (now : UInt64) (store : S) :
    (start settings now store).controller.Every (Owner.Limited t settings.maxRules.toNat) :=
  ⟨fun _ => rfl, fun _ hm => (List.not_mem_nil hm).elim⟩

/-- After any run, the updates of an owner keep to the limit of the settings under which the owner
came into being, and to no other limit. They keep to that of the settings in force exactly if it is
the same. -/
theorem limitsRules_iff (settings : Settings) (now : UInt64) (store : S) (steps : List (Step S))
    (t : Target) (h : ((start settings now store).run steps).controller.hasOwner t) (limit : Nat) :
    ((start settings now store).run steps).LimitsRules t limit ↔
      limit = ((start settings now store).settingsFor t steps).maxRules.toNat := by
  obtain ⟨R, o, ho⟩ := Controller.exists_owns h
  rw [limitsRules_iff_of_owns ho]
  have hlimit := (every_limited_run (every_limited_start settings now store) steps).of_owns ho rfl
  rw [hlimit]

/-- Of two modules the second comes after new settings, which limit its rules only. -/
theorem limitsRules_of_two_modules :
    let steps : List (Step Store) :=
      [.addModule 1, .request (.updateSettings ⟨1000, 1, 8, 60⟩), .addModule 2]
    let w := (start .initial 0 Store.empty).run steps
    (w.controller.hasOwner (.module 1) ∧ w.controller.hasOwner (.module 2)) ∧
      w.LimitsRules (.module 1) 32 ∧ w.LimitsRules (.module 2) 1 := by
  intro steps w
  have hfirst : w.controller.hasOwner (.module 1) := by decide
  have hsecond : w.controller.hasOwner (.module 2) := by decide
  exact ⟨⟨hfirst, hsecond⟩, (limitsRules_iff .initial 0 Store.empty steps _ hfirst 32).mpr rfl,
    (limitsRules_iff .initial 0 Store.empty steps _ hsecond 1).mpr rfl⟩

/-- New settings with room for one rule are accepted, and then an update loads a second one. -/
theorem not_limitsRules_of_updateSettings :
    let w := (start .initial 0 Store.empty).run [.request (.updateSettings ⟨1000, 1, 8, 60⟩)]
    w.controller.settings.maxRules = 1 ∧
      ¬ w.LimitsRules .unit w.controller.settings.maxRules.toNat := by
  intro w
  have hsettings : w.controller.settings.maxRules = 1 := by decide
  let p : RulePatch := ⟨.replace, [Engine.restartText, Engine.restartText]⟩
  have hcount : w.countAt .unit p 1 = 1 := by decide +kernel
  have htold := (not_told_iff_of_owns (w := w) .unit (p := p) (i := 1) rfl).mpr
    ⟨by decide +kernel, Engine.parse_restartText⟩
  refine ⟨hsettings, fun h => ?_⟩
  have hloaded := h.loaded (by decide) htold
  rw [hcount, hsettings] at hloaded
  exact absurd hloaded (by decide)

end Site
end GridRules
