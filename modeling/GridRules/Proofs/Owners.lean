import GridRules.Proofs.Site

/-! Owners one by one: what no change undoes in a single owner stays true of all owners of a
controller, whatever its site goes through. -/
namespace GridRules
variable {S : Type}

namespace Engine
variable {σ : Type}

theorem addRule_eq_ok_iff {e e' : Engine σ} {t : RuleText} :
    (e.addRule t).value = .ok e' ↔ e.rules.length < e.maxRules ∧
      ∃ r, Rule.parse t = .ok r ∧ e' = { e with rules := e.rules ++ [r] } := by
  rw [addRule]
  by_cases hfull : e.maxRules ≤ e.rules.length
  · simp [hfull, Nat.not_lt.mpr hfull]
  · have hroom : e.rules.length < e.maxRules := Nat.lt_of_not_le hfull
    cases hp : Rule.parse t with
    | error f => simp [hfull]
    | ok r => simp [hfull, hroom, eq_comm]

/-- Nothing but the rules changes, and rules within the limit stay within it. -/
theorem load_frame (e : Engine σ) (index : Nat) (ts : List RuleText) :
    ∃ rs, (e.load index ts).value.2 = { e with rules := rs } ∧
      (e.rules.length ≤ e.maxRules → rs.length ≤ e.maxRules) := by
  induction ts generalizing e index with
  | nil => exact ⟨e.rules, rfl, id⟩
  | cons t ts ih =>
    simp only [load, Logged.value_bind]
    cases ha : (e.addRule t).value with
    | error f => exact ih e (index + 1)
    | ok e' =>
      obtain ⟨hroom, r, -, rfl⟩ := addRule_eq_ok_iff.mp ha
      obtain ⟨rs, hrs, hle⟩ := ih { e with rules := e.rules ++ [r] } (index + 1)
      refine ⟨rs, hrs, fun _ => hle ?_⟩
      simpa using Nat.succ_le_of_lt hroom

theorem applyPatch_frame (e : Engine σ) (p : RulePatch) :
    ∃ rs, (e.applyPatch p).value.2 = { e with rules := rs } ∧
      (e.rules.length ≤ e.maxRules → rs.length ≤ e.maxRules) := by
  rw [applyPatch]
  split
  · obtain ⟨rs, hrs, hle⟩ := load_frame e.clearRules 0 p.rules
    exact ⟨rs, hrs, fun _ => hle (Nat.zero_le _)⟩
  · exact load_frame e 0 p.rules

theorem reason_frame (e : Engine σ) (state : σ) :
    ∃ vars, (e.reason state).value.2.1 = { e with vars := vars } := by
  simp only [reason, Logged.value_bind]
  split
  · exact ⟨e.vars, rfl⟩
  · exact ⟨_, rfl⟩

end Engine

namespace Owner

theorem applyPatch_frame {R : Type} (o : Owner R) (p : RulePatch) :
    ∃ rs, (o.applyPatch p).value.2 = { o with engine := { o.engine with rules := rs } } ∧
      (o.engine.rules.length ≤ o.engine.maxRules → rs.length ≤ o.engine.maxRules) := by
  obtain ⟨rs, hrs, hle⟩ := o.engine.applyPatch_frame p
  exact ⟨rs, congrArg (fun e => { o with engine := e }) hrs, hle⟩

theorem reason_frame {R : Type} (o : Owner R) (now : UInt64) (outbox : Outbox) :
    ∃ vars, (o.reason now outbox).value.2.1 =
      { o with engine := { o.engine with vars := vars } } := by
  obtain ⟨vars, hvars⟩ := o.engine.reason_frame (o.host now outbox)
  exact ⟨vars, congrArg (fun e => { o with engine := e }) hvars⟩

end Owner

/-- A property of owners that new readings, ticks, patches and new tags keep. -/
structure Owner.Lasting (P : Target → {R : Type} → Owner R → Prop) : Prop where
  readings {t : Target} {R : Type} {o : Owner R} (r : R) : P t o → P t { o with readings := r }
  reason {t : Target} {R : Type} {o : Owner R} (now : UInt64) (outbox : Outbox) :
    P t o → P t (o.reason now outbox).value.2.1
  applyPatch {t : Target} {R : Type} {o : Owner R} (p : RulePatch) :
    P t o → P t (o.applyPatch p).value.2
  setTags {t : Target} {R : Type} {o : Owner R} (tags : List String) :
    P t o → P t (o.setTags tags)

/-- A property lasts if it looks neither at the readings nor at the names that are bound, and of the
rules only at their number. -/
theorem Owner.Lasting.of_frame {P : Target → {R : Type} → Owner R → Prop}
    (hreadings : ∀ {t : Target} {R : Type} {o : Owner R} (r : R),
      P t o → P t { o with readings := r })
    (hvars : ∀ {t : Target} {R : Type} {o : Owner R} (vars : Variables (Host R)),
      P t o → P t { o with engine := { o.engine with vars := vars } })
    (hrules : ∀ {t : Target} {R : Type} {o : Owner R} (rs : List Rule),
      (o.engine.rules.length ≤ o.engine.maxRules → rs.length ≤ o.engine.maxRules) →
      P t o → P t { o with engine := { o.engine with rules := rs } })
    (htags : ∀ {t : Target} {R : Type} {o : Owner R} (tags : List String),
      P t o → P t (o.setTags tags)) : Owner.Lasting P where
  readings r h := hreadings r h
  reason {t R o} now outbox h := by
    obtain ⟨vars, heq⟩ := o.reason_frame now outbox
    rw [heq]
    exact hvars vars h
  applyPatch {t R o} p h := by
    obtain ⟨rs, heq, hle⟩ := o.applyPatch_frame p
    rw [heq]
    exact hrules rs hle h
  setTags tags h := htags tags h

namespace Controller
variable [BlobStore S]

/-- What holds of the unit and of every module. -/
def Every (c : Controller) (P : Target → {R : Type} → Owner R → Prop) : Prop :=
  P .unit c.unit ∧ ∀ m ∈ c.modules, P m.target m

theorem map_updateModule {β : Type} {c : Controller} {id : UInt8} {g : Module → Module}
    (f : Module → β) (h : ∀ m ∈ c.modules, m.id = id → f (g m) = f m) :
    (c.updateModule id g).modules.map f = c.modules.map f := by
  simp only [updateModule, List.map_map]
  refine List.map_congr_left fun m hm => ?_
  by_cases hid : m.id = id
  · simpa [hid] using h m hm hid
  · simp [hid]

theorem map_reasonModules {β : Type} (f : Module → β) (now : UInt64)
    (h : ∀ (m : Module) outbox, f (m.reason now outbox).value.2.1 = f m) (ms : List Module)
    (outbox : Outbox) : (reasonModules now ms outbox).value.2.1.map f = ms.map f := by
  induction ms generalizing outbox with
  | nil => rfl
  | cons m ms ih =>
    simp only [reasonModules, Logged.value_bind, Logged.value_pure, List.map_cons, h, ih]

variable {P : Target → {R : Type} → Owner R → Prop}

theorem Every.updateModule {c : Controller} {id : UInt8} {g : Module → Module}
    (hid : ∀ m ∈ c.modules, m.id = id → (g m).id = id)
    (hg : ∀ m ∈ c.modules, m.id = id → P m.target m → P m.target (g m)) (h : c.Every P) :
    (c.updateModule id g).Every P := by
  refine ⟨h.1, fun m' hm' => ?_⟩
  obtain ⟨m, hm, rfl⟩ := List.mem_map.mp hm'
  by_cases hmid : m.id = id
  · have ht : (g m).target = m.target := by rw [Module.target, hid m hm hmid, Module.target, hmid]
    simpa [hmid, ht] using hg m hm hmid (h.2 m hm)
  · simpa [hmid] using h.2 m hm

theorem mem_of_module?_eq_some {c : Controller} {id : UInt8} {m : Module}
    (h : c.module? id = some m) : m ∈ c.modules ∧ m.id = id :=
  ⟨List.mem_of_find?_eq_some h, by simpa using List.find?_some h⟩

theorem Every.withOwner {α : Type} {c : Controller} {t : Target}
    {f : {R : Type} → Owner R → Logged (α × Owner R)}
    (hr : ∀ {R : Type} (o : Owner R), (f o).value.2.readings = o.readings)
    (hf : ∀ {R : Type} (o : Owner R), P t o → P t (f o).value.2) (h : c.Every P) :
    (c.withOwner t f).value.2.Every P := by
  cases t with
  | unit => exact ⟨hf c.unit h.1, h.2⟩
  | module id =>
    simp only [Controller.withOwner]
    cases hm : c.module? id with
    | none => exact h
    | some m =>
      obtain ⟨hmem, rfl⟩ := mem_of_module?_eq_some hm
      have hid : Module.id (f m).value.2 = m.id := congrArg ModuleReadings.id (hr m)
      -- the new owner is put in place of every module of its id, which is its own
      refine Every.updateModule (fun _ _ _ => hid) (fun m' _ hm' _ => ?_) h
      rw [Module.target, hm']
      exact hf m (h.2 m hmem)

theorem Every.reasonModules (hP : Owner.Lasting P) {ms : List Module}
    (h : ∀ m ∈ ms, P m.target m) (now : UInt64) (outbox : Outbox) :
    ∀ m ∈ (reasonModules now ms outbox).value.2.1, P m.target m := by
  induction ms generalizing outbox with
  | nil => simp [Controller.reasonModules]
  | cons m ms ih =>
    intro m' hm'
    simp only [Controller.reasonModules, Logged.value_bind, Logged.value_pure,
      List.mem_cons] at hm'
    rcases hm' with rfl | hm'
    · exact hP.reason now outbox (h m (List.mem_cons_self ..))
    · exact ih (fun m hm => h m (List.mem_cons_of_mem _ hm)) _ m' hm'

theorem Every.tick (hP : Owner.Lasting P) {c : Controller} (h : c.Every P) (now : UInt64) :
    (c.tick now).value.1.Every P := by
  have hunit : P .unit c.begun.unit := hP.readings _ h.1
  obtain ⟨held, holdUntil, heq⟩ := c.tick_frame now
  rw [heq]
  exact ⟨hP.reason now _ hunit, Every.reasonModules hP h.2 now _⟩

theorem restore_lasting (hP : Owner.Lasting P) {t : Target} {R : Type} {o : Owner R}
    (h : P t o) (s : S) : P t (o.restore s).value.2 := by
  simp only [Owner.restore, Logged.value_bind]
  split
  · exact h
  · simp only [Logged.value_bind]
    split
    · exact h
    · exact hP.applyPatch _ (hP.setTags _ h)

theorem readings_restore {R : Type} (o : Owner R) (s : S) :
    (o.restore s).value.2.readings = o.readings := by
  simp only [Owner.restore, Logged.value_bind]
  split
  · rfl
  · simp only [Logged.value_bind]
    split <;> rfl

theorem Every.restoreModules (hP : Owner.Lasting P) {ms : List Module}
    (h : ∀ m ∈ ms, P m.target m) (s : S) :
    ∀ m ∈ (restoreModules s ms).value.2, P m.target m := by
  induction ms with
  | nil => simp [Controller.restoreModules]
  | cons m ms ih =>
    intro m' hm'
    simp only [Controller.restoreModules, Logged.value_bind, Logged.value_pure,
      List.mem_cons] at hm'
    rcases hm' with rfl | hm'
    · have ht : Module.target (Owner.restore m s).value.2 = m.target := by
        rw [Module.target, Module.id, readings_restore m s]
        rfl
      rw [ht]
      exact restore_lasting hP (h m (List.mem_cons_self ..)) s
    · exact ih (fun m hm => h m (List.mem_cons_of_mem _ hm)) m' hm'

theorem every_markDirty {c : Controller} : c.markDirty.Every P ↔ c.Every P := by
  rw [markDirty_eq]
  rfl

theorem every_saveIf {c : Controller} {due : Bool} {s : S} (h : c.Every P) :
    (c.saveIf due s).value.2.1.Every P := by
  rw [saveIf_frame]
  exact h

theorem Every.runOn {c : Controller} {now : UInt64} {t : Target}
    {f : {R : Type} → Owner R → Outbox → Logged (Except Fault Bool × Outbox)} (h : c.Every P) :
    (c.runOn now t f).value.1.Every P := by
  have hc : (c.withOwner t fun o => do return (← f o c.outbox, o)).value.2.Every P :=
    Every.withOwner (fun _ => rfl) (fun _ ho => ho) h
  obtain ⟨held, holdUntil, heq⟩ := c.runOn_frame now t f
  rw [heq]
  exact hc

theorem Every.updateRules (hP : Owner.Lasting P) {c : Controller} (h : c.Every P) (t : Target)
    (p : RulePatch) : (c.updateRules t p).value.1.Every P := by
  rcases c.updateRules_cases t p with ⟨-, heq⟩ | ⟨-, report, heq⟩ <;> rw [heq]
  · exact h
  · exact every_markDirty.mpr (h.withOwner (fun _ => rfl) fun _ ho => hP.applyPatch p ho)

theorem Every.setTags (hP : Owner.Lasting P) {c : Controller} (h : c.Every P) (t : Target)
    (tags : List String) : (c.setTags t tags).value.Every P := by
  rcases c.setTags_cases t tags with ⟨-, heq⟩ | ⟨-, heq⟩ <;> rw [heq]
  · exact h
  · exact every_markDirty.mpr (h.withOwner (fun _ => rfl) fun _ ho => hP.setTags tags ho)

theorem Every.handle (hP : Owner.Lasting P) {c : Controller} (h : c.Every P) (now : UInt64)
    (s : S) (q : Request) : (c.handle now s q).value.1.Every P := by
  cases q with
  | updateRules t p => exact h.updateRules hP t p
  | setTags t tags => exact h.setTags hP t tags
  | execute t command => exact Every.runOn h
  | executeIf t expression command => exact Every.runOn h
  | reading id power isOn =>
    simp only [Controller.handle]
    split
    · exact h.updateModule (fun _ _ hid => hid) fun _ _ _ hm => hP.readings _ hm
    · exact h
  | offline id => exact h.updateModule (fun _ _ hid => hid) fun _ _ _ hm => hP.readings _ hm
  | gridChanged up => exact ⟨hP.readings _ h.1, h.2⟩
  | updateSettings settings =>
    simp only [Controller.handle]
    split <;> exact h
  | saveRules => exact h

end Controller

/-- What every change keeps of an owner stays true of all owners, whatever the site goes
through; of a module that is new it has to be true from the start. -/
theorem Site.every_step [BlobStore S] {P : Target → {R : Type} → Owner R → Prop}
    (hP : Owner.Lasting P) {w : Site S} (h : w.controller.Every P) (a : Step S)
    (hnew : ∀ id, a = .addModule id → w.controller.module? id = none →
      P (.module id) (Module.new id w.controller.settings.maxRules.toNat)) :
    (w.step a).1.controller.Every P := by
  cases a with
  | addModule id =>
    rcases w.controller.withModule_cases id with heq | ⟨hid, heq⟩ <;> simp only [Site.step, heq]
    · exact h
    · refine ⟨h.1, fun m hm => ?_⟩
      rcases List.mem_append.mp hm with hm | hm
      · exact h.2 m hm
      · rw [List.mem_singleton.mp hm]
        exact hnew id rfl hid
  | restore =>
    exact ⟨Controller.restore_lasting hP h.1 w.store,
      Controller.Every.restoreModules hP h.2 w.store⟩
  | tick => exact h.tick hP w.now
  | request q => exact h.handle hP w.now w.store q
  | markDirty => exact Controller.every_markDirty.mpr h
  | autoSave => exact Controller.every_saveIf h
  | forceSave => exact Controller.every_saveIf h
  | clock now => exact h
  | outside change => exact h

/-- What is true of the unit at the start and of every new module is true of all owners after any
run if every change keeps it. -/
theorem Site.every_run [BlobStore S] {P : Target → {R : Type} → Owner R → Prop}
    (hP : Owner.Lasting P) {settings : Settings} {now : UInt64} {store : S}
    (hunit : P .unit (start settings now store).controller.unit)
    (hnew : ∀ id limit, P (.module id) (Module.new id limit)) (steps : List (Step S)) :
    ((start settings now store).run steps).controller.Every P := by
  suffices h : ∀ w : Site S, w.controller.Every P → (w.run steps).controller.Every P from
    h _ ⟨hunit, by simp [start, Controller.new]⟩
  induction steps with
  | nil => exact fun _ h => h
  | cons a steps ih => exact fun _ h => ih _ (every_step hP h a fun id _ _ => hnew id _)

end GridRules
