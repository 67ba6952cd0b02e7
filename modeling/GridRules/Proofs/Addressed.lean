import GridRules.Proofs.Blind
import GridRules.Proofs.Saved

/-! One module among others. No id is given twice, a request changes at most the module that it is
addressed to, and a tick makes of a module what the module makes of itself. -/
namespace GridRules
variable {S : Type}

/-! No id is given twice. -/
namespace Controller
variable [BlobStore S]

theorem module?_eq_none_iff {c : Controller} {id : UInt8} : c.module? id = none ↔ id ∉ c.ids := by
  simp [module?, ids]

theorem ids_runOn (c : Controller) (now : UInt64) (t : Target)
    (f : {R : Type} → Owner R → Outbox → Logged (Except Fault Bool × Outbox)) :
    (c.runOn now t f).value.1.ids = c.ids := by
  obtain ⟨held, holdUntil, heq⟩ := c.runOn_frame now t f
  rw [heq]
  exact ids_withOwner fun _ => rfl

theorem ids_handle (c : Controller) (now : UInt64) (s : S) (q : Request) :
    (c.handle now s q).value.1.ids = c.ids := by
  cases q with
  | updateRules t p => exact ids_updateRules c t p
  | setTags t tags => exact ids_setTags c t tags
  | execute t command => exact ids_runOn c now t _
  | executeIf t expression command => exact ids_runOn c now t _
  | reading id power isOn =>
    simp only [handle]
    split
    · exact map_updateModule Module.id fun _ _ _ => rfl
    · rfl
  | offline id => exact map_updateModule Module.id fun _ _ _ => rfl
  | gridChanged up => rfl
  | updateSettings settings =>
    simp only [handle]
    split <;> rfl
  | saveRules => rfl

theorem ids_restoreModules (s : S) (ms : List Module) :
    (restoreModules s ms).value.2.map Module.id = ms.map Module.id := by
  induction ms with
  | nil => rfl
  | cons m ms ih =>
    have hid : Module.id (m.restore s).value.2 = m.id :=
      congrArg ModuleReadings.id (readings_restore m s)
    simp only [restoreModules, Logged.value_bind, Logged.value_pure, List.map_cons, hid, ih]

theorem ids_withModule (c : Controller) (id : UInt8) :
    (c.withModule id).ids = c.ids ∨ id ∉ c.ids ∧ (c.withModule id).ids = c.ids ++ [id] := by
  rcases c.withModule_cases id with heq | ⟨hnew, heq⟩ <;> rw [heq]
  · exact .inl rfl
  · exact .inr ⟨module?_eq_none_iff.mp hnew, by simp [ids, Module.new, Owner.new, Module.id]⟩

end Controller

namespace Site
variable [BlobStore S]

/-- A step keeps the ids in their order; it may put one behind them that is new. -/
theorem ids_step_cases (w : Site S) (a : Step S) :
    (w.step a).1.controller.ids = w.controller.ids ∨ ∃ id, id ∉ w.controller.ids ∧
      (w.step a).1.controller.ids = w.controller.ids ++ [id] := by
  cases a with
  | addModule id => exact (w.controller.ids_withModule id).imp_right fun h => ⟨id, h⟩
  | restore => exact .inl (Controller.ids_restoreModules w.store w.controller.modules)
  | tick => exact .inl (Controller.ids_eq_of_stored (w.controller.stored_tick w.now))
  | request q => exact .inl (w.controller.ids_handle w.now w.store q)
  | markDirty => exact .inl w.controller.ids_markDirty
  | autoSave => exact .inl (Controller.ids_eq_of_stored (w.controller.stored_saveIf _ w.store))
  | forceSave => exact .inl (Controller.ids_eq_of_stored (w.controller.stored_saveIf _ w.store))
  | clock now => exact .inl rfl
  | outside change => exact .inl rfl

theorem nodup_ids_step {w : Site S} (h : w.controller.ids.Nodup) (a : Step S) :
    (w.step a).1.controller.ids.Nodup := by
  rcases w.ids_step_cases a with heq | ⟨id, hnew, heq⟩ <;> rw [heq]
  · exact h
  · rw [← List.concat_eq_append]
    exact h.concat hnew

end Site

/-! One module among others. -/

/-- The owner that a request is addressed to; the settings and the store belong to none. -/
def Request.target? : Request → Option Target
  | .updateRules t _ | .setTags t _ | .execute t _ | .executeIf t _ _ => some t
  | .reading id _ _ | .offline id => some (.module id)
  | .gridChanged _ => some .unit
  | .updateSettings _ | .saveRules => none

/-- What a request makes of the module that it is addressed to. -/
def Request.act (q : Request) (m : Module) : Module :=
  match q with
  | .updateRules _ p => (m.applyPatch p).value.2
  | .setTags _ tags => m.setTags tags
  | .reading _ power isOn => m.update power isOn
  | .offline _ => m.markOffline
  | _ => m

/-- The findings that an event tells of one module. -/
def Event.findings? (id : UInt8) : Event → Option Findings
  | .tickCompleted t r => if t = .module id then some r.findings else none
  | _ => none

/-- What a module finds in a tick, whatever is in the outbox. -/
def Module.findings (m : Module) (now : UInt64) : Findings :=
  (m.reason now .empty).value.1.findings

namespace Controller

theorem module?_updateModule (c : Controller) {other : UInt8} {g : Module → Module}
    (hg : ∀ m, m.id = other → (g m).id = other) (id : UInt8) :
    (c.updateModule other g).module? id =
      if other = id then (c.module? id).map g else c.module? id := by
  have hid : (fun m : Module => decide (m.id = id)) ∘ (fun m => if m.id = other then g m else m) =
      fun m => decide (m.id = id) := by
    funext m
    by_cases hm : m.id = other
    · simp [hm, hg m hm]
    · simp [hm]
  simp only [module?, updateModule, List.find?_map, hid]
  cases hm : c.modules.find? (fun m => decide (m.id = id)) with
  | none => simp
  | some m =>
    have hmid : m.id = id := by simpa using List.find?_some hm
    by_cases hother : other = id
    · simp [hmid, hother]
    · simp [hmid, hother, Ne.symm hother]

theorem module?_withOwner {α : Type} (c : Controller) (t : Target)
    {f : {R : Type} → Owner R → Logged (α × Owner R)}
    (hf : ∀ {R : Type} (o : Owner R), (f o).value.2.readings = o.readings) (id : UInt8) :
    (c.withOwner t f).value.2.module? id =
      if t = .module id then (c.module? id).map fun m => (f m).value.2 else c.module? id := by
  cases t with
  | unit => rfl
  | module other =>
    simp only [withOwner, Target.module.injEq]
    cases hm : c.module? other with
    | none =>
      by_cases hother : other = id
      · subst hother
        simp [hm]
      · simp [hother]
    | some m =>
      have hid : Module.id (f m).value.2 = other :=
        (congrArg ModuleReadings.id (hf m)).trans (mem_of_module?_eq_some hm).2
      rw [Logged.value_bind, Logged.value_pure, module?_updateModule c (fun _ _ => hid)]
      by_cases hother : other = id
      · subst hother
        simp [hm]
      · simp [hother]

theorem module?_markDirty (c : Controller) (id : UInt8) :
    c.markDirty.module? id = c.module? id := by
  rw [markDirty_eq]
  rfl

/-- Commands that are run for an owner leave it as it is. -/
theorem module?_runOn (c : Controller) (now : UInt64) (t : Target)
    (f : {R : Type} → Owner R → Outbox → Logged (Except Fault Bool × Outbox)) (id : UInt8) :
    (c.runOn now t f).value.1.module? id =
      if t = .module id then (c.module? id).map fun m => m else c.module? id := by
  obtain ⟨held, holdUntil, heq⟩ := c.runOn_frame now t f
  rw [heq]
  exact c.module?_withOwner t (fun _ => rfl) id

/-- Without the owner that is asked for there is no module to change. -/
theorem module?_of_not_hasOwner {c : Controller} {t : Target} (h : c.hasOwner t = false)
    (g : Module → Module) (id : UInt8) :
    c.module? id = if t = .module id then (c.module? id).map g else c.module? id := by
  split
  · rename_i ht
    subst ht
    have hm : c.module? id = none := by simpa [hasOwner] using h
    rw [hm, Option.map_none]
  · rfl

/-- A request changes at most the module that it is addressed to. -/
theorem module?_handle [BlobStore S] (c : Controller) (now : UInt64) (s : S) (q : Request)
    (id : UInt8) :
    (c.handle now s q).value.1.module? id =
      if q.target? = some (.module id) then (c.module? id).map q.act else c.module? id := by
  cases q with
  | updateRules t p =>
    simp only [Request.target?, Option.some.injEq]
    rcases c.updateRules_cases t p with ⟨howner, heq⟩ | ⟨-, report, heq⟩ <;>
      simp only [handle, Logged.value_bind, Logged.value_pure, heq]
    · exact module?_of_not_hasOwner howner _ id
    · exact (module?_markDirty _ id).trans (c.module?_withOwner t (fun _ => rfl) id)
  | setTags t tags =>
    simp only [Request.target?, Option.some.injEq]
    rcases c.setTags_cases t tags with ⟨howner, heq⟩ | ⟨-, heq⟩ <;>
      simp only [handle, Logged.value_bind, Logged.value_pure, heq]
    · exact module?_of_not_hasOwner howner _ id
    · exact (module?_markDirty _ id).trans (c.module?_withOwner t (fun _ => rfl) id)
  | execute t command =>
    simp only [Request.target?, Option.some.injEq]
    exact c.module?_runOn now t _ id
  | executeIf t expression command =>
    simp only [Request.target?, Option.some.injEq]
    exact c.module?_runOn now t _ id
  | reading other power isOn =>
    simp only [Request.target?, Option.some.injEq, Target.module.injEq, handle]
    split
    · exact c.module?_updateModule (g := (·.update power isOn)) (fun _ hm => hm) id
    · rename_i hother
      simpa using module?_of_not_hasOwner (t := .module other) (by simpa [hasOwner] using hother) _ id
  | offline other =>
    simp only [Request.target?, Option.some.injEq, Target.module.injEq]
    exact c.module?_updateModule (g := (·.markOffline)) (fun _ hm => hm) id
  | gridChanged up => rfl
  | updateSettings settings =>
    simp only [handle]
    split <;> rfl
  | saveRules => rfl

theorem module?_saveIf [BlobStore S] (c : Controller) (due : Bool) (s : S) (id : UInt8) :
    (c.saveIf due s).value.2.1.module? id = c.module? id := by
  rw [saveIf_frame]
  rfl

theorem module?_withModule (c : Controller) {other id : UInt8} (h : (c.module? id).isSome) :
    (c.withModule other).module? id = c.module? id := by
  rcases c.withModule_cases other with heq | ⟨-, heq⟩ <;> rw [heq]
  simp only [module?, List.find?_append]
  obtain ⟨m, hm⟩ := Option.isSome_iff_exists.mp h
  rw [show c.modules.find? _ = some m from hm]
  rfl

/-! Ticks. -/

theorem find?_id_cons (id : UInt8) (m : Module) (ms : List Module) :
    (m :: ms).find? (·.id = id) = if m.id = id then some m else ms.find? (·.id = id) := by
  by_cases h : m.id = id <;> simp [h]

theorem find?_reasonModules (now : UInt64) {ms : List Module} (h : ∀ m ∈ ms, m.IsBlind)
    (outbox : Outbox) (id : UInt8) :
    (reasonModules now ms outbox).value.2.1.find? (·.id = id) =
      (ms.find? (·.id = id)).map fun m => (m.reason now .empty).value.2.1 := by
  induction ms generalizing outbox with
  | nil => rfl
  | cons m ms ih =>
    obtain ⟨hm, hms⟩ := List.forall_mem_cons.mp h
    simp only [reasonModules, Logged.value_bind, Logged.value_pure, find?_id_cons, id_reason,
      ih hms, (hm.reason now outbox).2]
    split <;> rfl

theorem module?_tick {c : Controller} (h : c.Every fun _ {_} o => o.IsBlind) (now : UInt64)
    (id : UInt8) :
    (c.tick now).value.1.module? id =
      (c.module? id).map fun m => (m.reason now .empty).value.2.1 := by
  obtain ⟨held, holdUntil, heq⟩ := c.tick_frame now
  rw [heq]
  exact find?_reasonModules now h.2 _ id

theorem findSome?_tickEvents (id : UInt8) (t : Target) (r : TickReport) :
    (tickEvents t r).findSome? (Event.findings? id) =
      if t = .module id then r.findings.told? else none := by
  rw [tickEvents, Findings.told?, TickReport.findings]
  by_cases hquiet : r.matched.isEmpty ∧ r.errors = 0
  · rw [if_pos hquiet, if_pos hquiet, ite_self]
    rfl
  · rw [if_neg hquiet, if_neg hquiet]
    by_cases ht : t = .module id <;> simp [Event.findings?, TickReport.findings, ht]

theorem findSome?_reasonModules (now : UInt64) {ms : List Module} (h : ∀ m ∈ ms, m.IsBlind)
    (hids : (ms.map Module.id).Nodup) (outbox : Outbox) (id : UInt8) :
    (reasonModules now ms outbox).value.1.findSome? (Event.findings? id) =
      (ms.find? (·.id = id)).bind fun m => (m.findings now).told? := by
  induction ms generalizing outbox with
  | nil => rfl
  | cons m ms ih =>
    obtain ⟨hm, hms⟩ := List.forall_mem_cons.mp h
    obtain ⟨hnew, hids⟩ := List.nodup_cons.mp hids
    simp only [reasonModules, Logged.value_bind, Logged.value_pure, List.findSome?_append,
      findSome?_tickEvents, ih hms hids, find?_id_cons, (hm.reason now outbox).1, Module.target,
      Target.module.injEq]
    split
    · rename_i hid
      -- no module behind this one has the same id
      have hnone : ms.find? (·.id = id) = none := by
        rw [← hid]
        simpa using hnew
      rw [hnone, Option.bind_none, Option.or_none, Option.bind_some]
      rfl
    · rfl

theorem findSome?_dispatch (c : Controller) (now : UInt64) (id : UInt8) :
    (c.dispatch now).2.findSome? (Event.findings? id) = none := by
  rw [dispatch]
  split
  · rfl
  · simp [Event.findings?]

theorem findSome?_reportTelemetry (c : Controller) (now : UInt64) (id : UInt8) :
    (c.reportTelemetry now).2.findSome? (Event.findings? id) = none := by
  rw [reportTelemetry]
  split <;> rfl

/-- What a tick tells of a module is what the module finds by itself; what it does not tell is that
the module found nothing. -/
theorem findings_tick {c : Controller} (h : c.Every fun _ {_} o => o.IsBlind)
    (hids : c.ids.Nodup) {id : UInt8} {m : Module} (hm : c.module? id = some m) (now : UInt64) :
    ((c.tick now).value.2.findSome? (Event.findings? id)).getD .nothing = m.findings now := by
  have hunit : Target.unit ≠ .module id := nofun
  have htold : (c.tick now).value.2.findSome? (Event.findings? id) =
      (c.module? id).bind fun m => (m.findings now).told? := by
    simp only [tick, Logged.value_bind, Logged.value_pure, List.findSome?_append,
      findSome?_tickEvents, findSome?_dispatch, findSome?_reportTelemetry, Option.or_none,
      if_neg hunit, Option.none_or]
    exact findSome?_reasonModules now h.2 hids _ id
  rw [htold, hm, Option.bind_some]
  exact m.engine.findings_told?_getD (m.host now .empty)

end Controller

end GridRules
