import GridRules.Proofs.Dirty
import GridRules.Proofs.Restoring

/-! A clean controller is a saved one: from the store of a run that leaves nothing unsaved, a new
controller with the same modules takes over all rules and tags. Along the run the blobs of the
controller are settled whenever it is clean. A change makes it dirty, no other step changes a
blob, and a save that fails unsettles none. -/
namespace GridRules
variable {S : Type} [BlobStore S]

open Refusing (contents)

/-! No two blobs of a controller share a place. -/
namespace Target

def places (t : Target) : List String :=
  [Store.place t.text Archive.rulesKey, Store.place t.text Archive.tagsKey]

theorem nodup_places (t : Target) : t.places.Nodup := by
  have hne : Store.place t.text Archive.rulesKey ≠ Store.place t.text Archive.tagsKey := fun h =>
    absurd (Store.place_injective t.colon_notMem_text t.colon_notMem_text h).2 (by decide)
  simpa [places] using hne

theorem disjoint_places {t t' : Target} (h : t ≠ t') : t.places.Disjoint t'.places := by
  have hne (key key' : String) : Store.place t'.text key' ≠ Store.place t.text key := fun heq =>
    h (text_injective (Store.place_injective t'.colon_notMem_text t.colon_notMem_text heq).1).symm
  simp [places, hne]

end Target

namespace Controller

theorem nodup_places {c : Controller} {limit : Nat} (h : c.Every (Owner.IsSound limit))
    (hids : c.ids.Nodup) : (c.blobs.map Blob.place).Nodup := by
  have howner {t : Target} {R : Type} {o : Owner R} (ho : o.IsSound limit t) :
      o.blobs.map Blob.place = t.places := by
    simp [Owner.blobs, Blob.place, ho.space, Target.places]
  have hmodules : (c.modules.flatMap Owner.blobs).map Blob.place =
      (c.modules.map Module.target).flatMap Target.places := by
    rw [List.map_flatMap, List.flatMap_map]
    exact List.flatMap_congr fun m hm => howner (h.2 m hm)
  have hall : c.blobs.map Blob.place =
      (.unit :: c.modules.map Module.target).flatMap Target.places := by
    rw [blobs, List.map_append, howner h.1, hmodules, List.flatMap_cons]
  have htargets : (.unit :: c.modules.map Module.target).Nodup := by
    have hmap : c.modules.map Module.target = c.ids.map Target.module := by
      simp [ids, Module.target]
    rw [hmap, List.nodup_cons]
    exact ⟨by simp, hids.map fun _ _ => Target.module.inj⟩
  rw [hall, List.nodup_flatMap]
  exact ⟨fun t _ => t.nodup_places, htargets.imp fun h => Target.disjoint_places h⟩

/-! What a step keeps of the ids and of the blobs. -/

/-- All that is stored of a controller, with the ids of its modules. -/
def stored (c : Controller) : List Blob × List (UInt8 × List Blob) :=
  (c.unit.blobs, c.modules.map fun m => (m.id, m.blobs))

theorem ids_eq_of_stored {c c' : Controller} (h : c'.stored = c.stored) : c'.ids = c.ids := by
  simpa [stored, ids, Function.comp_def] using congrArg (·.2.map Prod.fst) h

theorem blobs_eq_of_stored {c c' : Controller} (h : c'.stored = c.stored) : c'.blobs = c.blobs := by
  simpa [stored, blobs, List.flatMap_map] using congrArg (fun p => p.1 ++ p.2.flatMap Prod.snd) h

theorem ids_withOwner {α : Type} {c : Controller} {t : Target}
    {f : {R : Type} → Owner R → Logged (α × Owner R)}
    (hf : ∀ {R : Type} (o : Owner R), (f o).value.2.readings = o.readings) :
    (c.withOwner t f).value.2.ids = c.ids := by
  cases t with
  | unit => rfl
  | module id =>
    simp only [withOwner]
    cases hm : c.module? id with
    | none => rfl
    | some m =>
      have hid : Module.id (f m).value.2 = m.id := congrArg ModuleReadings.id (hf m)
      have hfound := (mem_of_module?_eq_some hm).2
      exact map_updateModule Module.id fun m' _ hm' => hid.trans (hfound.trans hm'.symm)

theorem ids_markDirty (c : Controller) : c.markDirty.ids = c.ids := by
  rw [markDirty_eq]
  rfl

/-- An owner that is put back as it was leaves the controller as it was. -/
theorem withOwner_of_eq {α : Type} {c : Controller} (hids : c.ids.Nodup) (t : Target)
    {f : {R : Type} → Owner R → Logged (α × Owner R)}
    (hf : ∀ {R : Type} (o : Owner R), (f o).value.2 = o) : (c.withOwner t f).value.2 = c := by
  cases t with
  | unit => simp [withOwner, hf]
  | module id =>
    simp only [withOwner]
    cases hm : c.module? id with
    | none => rfl
    | some m =>
      obtain ⟨hmem, rfl⟩ := mem_of_module?_eq_some hm
      have hmodules : (c.modules.map fun m' => if m'.id = m.id then m else m') = c.modules := by
        refine (List.map_congr_left fun m' hm' => ?_).trans (List.map_id _)
        split
        · rename_i hid
          exact (List.inj_on_of_nodup_map hids hm' hmem hid).symm
        · rfl
      simp only [Logged.value_bind, Logged.value_pure, hf, updateModule, hmodules]

theorem stored_updateModule {c : Controller} {id : UInt8} {g : Module → Module}
    (hid : ∀ m, (g m).id = m.id) (hblobs : ∀ m, (g m).blobs = m.blobs) :
    (c.updateModule id g).stored = c.stored := by
  refine Prod.ext rfl (map_updateModule (fun m => (m.id, m.blobs)) fun m _ _ => ?_)
  exact Prod.ext (hid m) (hblobs m)

theorem blobs_reason {R : Type} (o : Owner R) (now : UInt64) (outbox : Outbox) :
    (o.reason now outbox).value.2.1.blobs = o.blobs := by
  obtain ⟨vars, hvars⟩ := o.reason_frame now outbox
  rw [hvars]
  rfl

theorem id_reason (m : Module) (now : UInt64) (outbox : Outbox) :
    Module.id (m.reason now outbox).value.2.1 = m.id := rfl

theorem stored_tick (c : Controller) (now : UInt64) : (c.tick now).value.1.stored = c.stored := by
  obtain ⟨held, holdUntil, heq⟩ := c.tick_frame now
  rw [heq]
  refine Prod.ext (blobs_reason _ now _) ?_
  exact map_reasonModules (fun m => (m.id, m.blobs)) now
    (fun m outbox => Prod.ext (id_reason m now outbox) (blobs_reason m now outbox)) _ _

theorem stored_runOn {c : Controller} (hids : c.ids.Nodup) (now : UInt64) (t : Target)
    (f : {R : Type} → Owner R → Outbox → Logged (Except Fault Bool × Outbox)) :
    (c.runOn now t f).value.1.stored = c.stored := by
  have hsame : (c.withOwner t fun o => do return (← f o c.outbox, o)).value.2.stored = c.stored :=
    congrArg stored (withOwner_of_eq hids t fun _ => rfl)
  obtain ⟨held, holdUntil, heq⟩ := c.runOn_frame now t f
  rw [heq]
  exact hsame

theorem ids_updateRules (c : Controller) (t : Target) (p : RulePatch) :
    (c.updateRules t p).value.1.ids = c.ids := by
  rcases c.updateRules_cases t p with ⟨-, heq⟩ | ⟨-, report, heq⟩ <;> rw [heq]
  exact (ids_markDirty _).trans (ids_withOwner fun _ => rfl)

theorem ids_setTags (c : Controller) (t : Target) (tags : List String) :
    (c.setTags t tags).value.ids = c.ids := by
  rcases c.setTags_cases t tags with ⟨-, heq⟩ | ⟨-, heq⟩ <;> rw [heq]
  exact (ids_markDirty _).trans (ids_withOwner fun _ => rfl)

theorem stored_saveIf (c : Controller) (due : Bool) (s : S) :
    (c.saveIf due s).value.2.1.stored = c.stored := by
  rw [saveIf_frame]
  rfl

variable [Refusing S]

theorem settled_saveAll {c : Controller} (h : (c.blobs.map Blob.place).Nodup) (s : S) {b : Blob}
    (hb : b ∈ c.blobs) (hs : (c.saveAll s).value.1 ∨ (contents s).Settled b) :
    (contents (c.saveAll s).value.2).Settled b := by
  have hsaved := Archive.settled_saveEach h s hb
  simp only [saveAll, Logged.value_bind, ← Archive.saveEach_blobs] at hs ⊢
  rcases heach : Archive.saveEach s c.blobs with ⟨e | u, s'⟩ <;> rw [heach] at hsaved hs
  · exact hsaved (hs.imp (by simp) id)
  · exact hsaved (.inl rfl)

theorem settled_saveIf {c : Controller} (h : (c.blobs.map Blob.place).Nodup) (due : Bool) (s : S)
    {b : Blob} (hb : b ∈ c.blobs) (hs : (c.saveIf due s).value.1 ∨ (contents s).Settled b) :
    (contents (c.saveIf due s).value.2.2).Settled b := by
  cases due with
  | true => exact settled_saveAll h s hb hs
  | false => exact hs.resolve_left (by simp [saveIf])

end Controller

/-- A step that neither adds a module nor restores, and changes no blob from outside. -/
def Step.IsOrdinary [Refusing S] : Step S → Prop
  | .addModule _ | .restore => False
  | .outside change => ∀ s, contents (change s) = contents s
  | _ => True

namespace Site
variable [Refusing S]

/-- A step that changes neither rules nor tags leaves everything as it has to be stored. -/
theorem stored_step {w : Site S} (hids : w.controller.ids.Nodup) {a : Step S}
    (ha : a.IsOrdinary) (hsame : w.changes a = false) :
    (w.step a).1.controller.stored = w.controller.stored := by
  cases a with
  | addModule id => exact ha.elim
  | restore => exact ha.elim
  | tick => exact Controller.stored_tick w.controller w.now
  | request q =>
    cases q with
    | updateRules t p =>
      have howner : w.controller.hasOwner t = false := hsame
      simp [step, Controller.handle, Controller.updateRules,
        Controller.withOwner_of_not_hasOwner howner]
    | setTags t tags =>
      have howner : w.controller.hasOwner t = false := hsame
      simp [step, Controller.handle, Controller.setTags,
        Controller.withOwner_of_not_hasOwner howner]
    | execute t command => exact Controller.stored_runOn hids w.now t _
    | executeIf t expression command => exact Controller.stored_runOn hids w.now t _
    | reading id power isOn =>
      simp only [step, Controller.handle]
      split
      · exact Controller.stored_updateModule (fun _ => rfl) fun _ => rfl
      · rfl
    | offline id => exact Controller.stored_updateModule (fun _ => rfl) fun _ => rfl
    | gridChanged up => rfl
    | updateSettings settings =>
      simp only [step, Controller.handle]
      split <;> rfl
    | saveRules => rfl
  | markDirty => cases hsame
  | autoSave => exact Controller.stored_saveIf w.controller _ w.store
  | forceSave => exact Controller.stored_saveIf w.controller _ w.store
  | clock now => rfl
  | outside change => rfl

theorem ids_step {w : Site S} (hids : w.controller.ids.Nodup) {a : Step S} (ha : a.IsOrdinary) :
    (w.step a).1.controller.ids = w.controller.ids := by
  cases hsame : w.changes a with
  | false => exact Controller.ids_eq_of_stored (stored_step hids ha hsame)
  | true =>
    cases a with
    | request q =>
      cases q with
      | updateRules t p => exact Controller.ids_updateRules w.controller t p
      | setTags t tags => exact Controller.ids_setTags w.controller t tags
      | _ => cases hsame
    | markDirty => exact Controller.ids_markDirty w.controller
    | _ => cases hsame

/-- What is settled stays so, and a step that saves everything settles it. -/
theorem settled_step {w : Site S} (h : (w.controller.blobs.map Blob.place).Nodup) {a : Step S}
    (ha : a.IsOrdinary) {b : Blob} (hb : b ∈ w.controller.blobs)
    (hs : w.saves a ∨ (contents w.store).Settled b) :
    (contents (w.step a).1.store).Settled b := by
  cases a with
  | addModule id => exact ha.elim
  | restore => exact ha.elim
  | request q =>
    cases q with
    | saveRules => exact Controller.settled_saveAll h w.store hb hs
    | updateSettings settings =>
      simp only [step, Controller.handle]
      split <;> exact hs.resolve_left (by simp [saves, savesItself])
    | reading id power isOn =>
      simp only [step, Controller.handle]
      split <;> exact hs.resolve_left (by simp [saves, savesItself])
    | _ => exact hs.resolve_left (by simp [saves, savesItself])
  | autoSave => exact Controller.settled_saveIf h _ w.store hb hs
  | forceSave => exact Controller.settled_saveIf h _ w.store hb hs
  | outside change =>
    have hsame : contents (w.step (.outside change)).1.store = contents w.store := ha w.store
    rw [hsame]
    exact hs.resolve_left (by simp [saves, savesItself])
  | _ => exact hs.resolve_left (by simp [saves, savesItself])

/-- What holds along a run whose modules are fixed: all that has to be stored is settled whenever
the controller is clean. -/
structure IsSettled (limit : Nat) (ids : List UInt8) (w : Site S) : Prop where
  sound : w.controller.Every (Owner.IsSound limit)
  ids_eq : w.controller.ids = ids
  settled : w.controller.dirty = false → ∀ b ∈ w.controller.blobs, (contents w.store).Settled b

theorem IsSettled.step {limit : Nat} {ids : List UInt8} (hids : ids.Nodup) {w : Site S}
    (h : w.IsSettled limit ids) {a : Step S} (ha : a.IsOrdinary) :
    (w.step a).1.IsSettled limit ids := by
  have hnodup : w.controller.ids.Nodup := h.ids_eq ▸ hids
  refine ⟨?_, (ids_step hnodup ha).trans h.ids_eq, fun hclean b hb => ?_⟩
  · refine every_step (Owner.isSound_lasting limit) h.sound a ?_
    rintro id rfl
    exact ha.elim
  · rw [dirty_step, Bool.or_eq_false_iff] at hclean
    obtain ⟨hsame, hsaved⟩ := hclean
    rw [Controller.blobs_eq_of_stored (stored_step hnodup ha hsame)] at hb
    refine settled_step (Controller.nodup_places h.sound hnodup) ha hb ?_
    cases hdirty : w.controller.dirty with
    | false => exact .inr (h.settled hdirty b hb)
    | true => exact .inl (saves_of_savesItself (by simpa [hdirty] using hsaved))

theorem IsSettled.run {limit : Nat} {ids : List UInt8} (hids : ids.Nodup) {w : Site S}
    (h : w.IsSettled limit ids) {steps : List (Step S)} (hsteps : ∀ a ∈ steps, a.IsOrdinary) :
    (w.run steps).IsSettled limit ids := by
  induction steps generalizing w with
  | nil => exact h
  | cons a steps ih =>
    exact ih (h.step hids (hsteps a (List.mem_cons_self ..)))
      fun a ha => hsteps a (List.mem_cons_of_mem _ ha)

end Site

/-! The start of a run. -/

/-- The ids with one more, if there is room for its module and it is new. -/
def Settings.enlist (settings : Settings) (ids : List UInt8) (id : UInt8) : List UInt8 :=
  if id ∈ ids ∨ settings.maxModules.toNat ≤ ids.length then ids else ids ++ [id]

theorem Settings.nodup_foldl_enlist (settings : Settings) {ids : List UInt8} (h : ids.Nodup)
    (more : List UInt8) : (more.foldl settings.enlist ids).Nodup := by
  induction more generalizing ids with
  | nil => exact h
  | cons id more ih =>
    refine ih ?_
    rw [enlist]
    split
    · exact h
    · rename_i hnew
      exact List.concat_eq_append ▸ List.Nodup.concat (fun hid => hnew (.inl hid)) h

/-- A new controller with new modules. -/
def Controller.equipped (settings : Settings) (now : UInt64) (ids : List UInt8) : Controller :=
  { Controller.new settings now with
    modules := ids.map fun id => Module.new id settings.maxRules.toNat }

namespace Controller

theorem ids_equipped (settings : Settings) (now : UInt64) (ids : List UInt8) :
    (equipped settings now ids).ids = ids :=
  (List.map_map ..).trans (List.map_id ids)

theorem withModule_equipped (settings : Settings) (now : UInt64) (ids : List UInt8) (id : UInt8) :
    (equipped settings now ids).withModule id = equipped settings now (settings.enlist ids id) := by
  have hknown : ((equipped settings now ids).module? id).isSome ↔ id ∈ ids := by
    conv_rhs => rw [← ids_equipped settings now ids]
    simp [module?, Controller.ids]
  have hlength : (equipped settings now ids).modules.length = ids.length := List.length_map ..
  have hsettings : (equipped settings now ids).settings = settings := rfl
  rw [withModule, addModule, Settings.enlist]
  by_cases hid : id ∈ ids
  · simp [hknown.mpr hid, hid]
  · by_cases hfull : settings.maxModules.toNat ≤ ids.length
    · simp [hknown, hid, hlength, hsettings, hfull]
    · simp only [hknown, hid, hlength, hsettings, hfull, if_false, false_or]
      simp [equipped, Controller.new]

theorem sound_equipped (settings : Settings) (now : UInt64) (ids : List UInt8) :
    (equipped settings now ids).Every (Owner.IsSound settings.maxRules.toNat) := by
  refine ⟨⟨rfl, rfl, Nat.zero_le _, TagList.isNormal_empty⟩, fun m hm => ?_⟩
  obtain ⟨id, -, rfl⟩ := List.mem_map.mp hm
  exact ⟨rfl, rfl, Nat.zero_le _, TagList.isNormal_empty⟩

theorem bytes_equipped {settings : Settings} {now : UInt64} {ids : List UInt8} {b : Blob}
    (hb : b ∈ (equipped settings now ids).blobs) : b.bytes = Store.nothing := by
  have hnew {R : Type} {o : Owner R} (hrules : o.engine.rules = []) (htags : o.tags = .empty)
      (hb : b ∈ o.blobs) : b.bytes = Store.nothing := by
    rw [Owner.blobs, Engine.sources, hrules, htags] at hb
    rcases List.mem_pair.mp hb with rfl | rfl
    · exact Wire.write_nil Wire.ruleText
    · exact Wire.write_nil Wire.text
  rcases List.mem_append.mp hb with hb | hb
  · exact hnew rfl rfl hb
  · obtain ⟨m, hm, hb⟩ := List.mem_flatMap.mp hb
    obtain ⟨id, -, rfl⟩ := List.mem_map.mp hm
    exact hnew rfl rfl hb

end Controller

namespace Site

theorem run_addModules (settings : Settings) (now : UInt64) (store : S) (ids more : List UInt8) :
    run ⟨Controller.equipped settings now ids, store, now⟩ (more.map .addModule) =
      ⟨Controller.equipped settings now (more.foldl settings.enlist ids), store, now⟩ := by
  induction more generalizing ids with
  | nil => rfl
  | cons id more ih =>
    rw [List.map_cons, run_cons, List.foldl_cons, ← ih, step, Controller.withModule_equipped]

variable [Refusing S]

theorem isSettled_equipped (settings : Settings) (now : UInt64) {store : S}
    (hstore : contents store = Store.empty) (ids : List UInt8) :
    IsSettled settings.maxRules.toNat ids ⟨Controller.equipped settings now ids, store, now⟩ where
  sound := Controller.sound_equipped settings now ids
  ids_eq := Controller.ids_equipped settings now ids
  settled _ b hb := by
    have hbytes := Controller.bytes_equipped hb
    refine ⟨hbytes ▸ (by decide), ?_⟩
    rw [hstore, hbytes]
    rfl

/-- Whatever changes, ticks and saves a run consists of, and whichever writes are refused on the
way: if the controller is clean in the end, a new one with the same settings and modules restores
without a fault, refuses no rule and has the same rules and tags. -/
theorem clean_restores (settings : Settings) (now later : UInt64) {store : S}
    (hstore : contents store = Store.empty) (ids : List UInt8) {steps : List (Step S)}
    (hsteps : ∀ a ∈ steps, a.IsOrdinary) :
    let w := (start settings now store).run (ids.map .addModule ++ steps)
    let saved := contents w.store
    let fresh := ((start settings later saved).run (ids.map .addModule)).controller
    w.controller.dirty = false → fresh.Every (Owner.RestoresCleanly saved) ∧
      (fresh.restore saved).value.1.isClean ∧
      (fresh.restore saved).value.2.kept = w.controller.kept := by
  intro w saved fresh hclean
  have hnodup : (ids.foldl settings.enlist []).Nodup := settings.nodup_foldl_enlist List.nodup_nil ids
  have hw : w.IsSettled settings.maxRules.toNat (ids.foldl settings.enlist []) := by
    have hstart := run_addModules settings now store [] ids
    have hw : w = run ⟨_, store, now⟩ steps := (run_append ..).trans (congrArg (run · steps) hstart)
    rw [hw]
    exact (isSettled_equipped settings now hstore _).run hnodup hsteps
  have hfresh : fresh = Controller.equipped settings later (ids.foldl settings.enlist []) :=
    congrArg (·.controller) (run_addModules settings later saved [] ids)
  rw [hfresh]
  refine Controller.restore_of_settled ?_ (Controller.sound_equipped ..) hw.sound
    (hw.settled hclean)
  rw [Controller.ids_equipped, hw.ids_eq]

/-- The third write of the first save is refused; the second save is complete. A rule and two tags
come back. -/
theorem clean_restores_after_refusal :
    let store := FaultyStore.ofStore Store.empty
    let rule : RuleText := ⟨5, "GRID == 0", "NOTIFY(\"down\")"⟩
    let steps : List (Step FaultyStore) :=
      [.request (.updateRules .unit ⟨.replace, [rule]⟩),
        .request (.setTags (.module 1) [" heater ", "heater", "peak"]),
        .outside fun s => { s with writeFault := some .full, allowed := 2 }, .forceSave, .tick,
        .outside fun s => { s with writeFault := none }, .forceSave]
    let w := (start .initial 0 store).run ([1].map .addModule ++ steps)
    let saved := contents w.store
    let fresh := ((start .initial 60 saved).run ([1].map .addModule)).controller
    (contents store = Store.empty ∧ (∀ a ∈ steps, a.IsOrdinary) ∧ w.controller.dirty = false) ∧
      (fresh.Every (Owner.RestoresCleanly saved) ∧ (fresh.restore saved).value.1.isClean ∧
        (fresh.restore saved).value.2.kept = w.controller.kept) ∧
      (fresh.restore saved).value.2.unit.engine.sources = [rule] ∧
      (fresh.restore saved).value.2.modules.map (·.tags.toList) = [["heater", "peak"]] := by
  intro store rule steps
  have hstore : contents store = Store.empty := rfl
  have hsteps : ∀ a ∈ steps, a.IsOrdinary := by
    simp [steps, Step.IsOrdinary, Refusing.contents]
  have hclean : ((start .initial 0 store).run
      ([1].map .addModule ++ steps)).controller.dirty = false := by
    decide +kernel
  refine ⟨⟨hstore, hsteps, hclean⟩, clean_restores .initial 0 60 hstore [1] hsteps hclean, ?_, ?_⟩
  · decide +kernel
  · decide +kernel

end Site

end GridRules
