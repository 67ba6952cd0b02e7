import GridRules.Proofs.Archive
import GridRules.Proofs.Limits

/-! Which controllers can be saved. The limits that are kept when rules and tags are taken over are
numbers of rules; how much room the texts take is not looked at before they are saved. -/
namespace GridRules
variable {S : Type}

/-! The room that rules take. -/
namespace Wire

/-- A number takes one byte and at most one more for each 128. -/
theorem length_writeGroups_le (n : Nat) : (writeGroups n).length ≤ 1 + n / 128 := by
  induction n using writeGroups.induct with
  | case1 n h => simp [writeGroups, h]
  | case2 n h ih =>
    rw [writeGroups, if_neg h, List.length_cons]
    omega

theorem length_writeGroups_le_of_lt {limit n : Nat} (h : n < capacity (limit + 1)) :
    (writeGroups n).length ≤ limit + 1 := by
  induction limit generalizing n with
  | zero =>
    have hn : n < 128 := by simpa [capacity] using h
    simp [writeGroups, hn]
  | succ limit ih =>
    rw [writeGroups]
    split
    · simp
    · have hdiv : n / 128 < capacity (limit + 1) := by
        rw [capacity] at h
        omega
      simpa using ih hdiv

theorem length_int32_le (i : Int32) : (int32.write i).length ≤ 5 :=
  length_writeGroups_le_of_lt (Nat.lt_of_lt_of_le (foldSign_lt i) (by decide))

theorem length_text_le (s : String) :
    (text.write s).length ≤ 1 + s.utf8ByteSize + s.utf8ByteSize / 128 := by
  have hcount := length_writeGroups_le s.utf8ByteSize
  have hbytes : s.toByteArray.data.toList.length = s.utf8ByteSize := rfl
  simp only [text, count, natural, List.length_append, hbytes]
  omega

end Wire

/-- The number of bytes of a rule's texts. -/
def RuleText.size (r : RuleText) : Nat := r.expression.utf8ByteSize + r.command.utf8ByteSize

def RuleText.totalSize : List RuleText → Nat
  | [] => 0
  | r :: rs => r.size + totalSize rs

namespace Wire

theorem length_ruleText_le (r : RuleText) :
    (ruleText.write r).length ≤ 7 + r.size + r.size / 128 := by
  have hpriority := length_int32_le r.priority
  have hexpression := length_text_le r.expression
  have hcommand := length_text_le r.command
  simp only [ruleText, Format.map, Format.pair, List.length_append, RuleText.size]
  omega

theorem length_flatMap_ruleText_le (rs : List RuleText) :
    (rs.flatMap ruleText.write).length ≤
      7 * rs.length + RuleText.totalSize rs + RuleText.totalSize rs / 128 := by
  induction rs with
  | nil => simp
  | cons r rs ih =>
    have hr := length_ruleText_le r
    simp only [List.flatMap_cons, List.length_append, List.length_cons, RuleText.totalSize]
    omega

theorem length_rules_le (rs : List RuleText) :
    (rules.write rs).length ≤ 1 + rs.length / 128 + 7 * rs.length + RuleText.totalSize rs +
      RuleText.totalSize rs / 128 := by
  have hcount := length_writeGroups_le rs.length
  have hrules := length_flatMap_ruleText_le rs
  simp only [rules, Format.list, count, natural, List.length_append]
  omega

end Wire

/-! Saving succeeds exactly if all blobs fit. -/
namespace Archive

theorem save_of_fits {s : Store} {b : Blob} (hspace : Store.isName b.space)
    (hkey : Store.isName b.key) (h : b.bytes.length ≤ blobLimit) :
    (save s b.space b.key b.bytes).value = (.ok (), s.put b) := by
  have hvalid : PairStore.IsValid (b.space, b.key) :=
    ⟨(Store.isName_iff _).mp hspace, (Store.isName_iff _).mp hkey⟩
  rw [save, if_neg (Nat.not_lt.mpr h)]
  simp only [BlobStore.write, Store.write, Logged.value_bind, Logged.value_pure,
    Store.withNames_of_isValid hvalid, if_neg (Nat.not_lt.mpr h)]
  rfl

theorem saveEach_eq_ok_iff {bs : List Blob}
    (hnames : ∀ b ∈ bs, Store.isName b.space ∧ Store.isName b.key) (s : Store) :
    (saveEach s bs).1 = .ok () ↔ ∀ b ∈ bs, b.bytes.length ≤ blobLimit := by
  constructor
  · intro hok
    obtain ⟨stored, -, hsizes, -, hall⟩ := saveEach_prefix s bs
    rwa [hall hok] at hsizes
  · intro hfits
    induction bs generalizing s with
    | nil => rfl
    | cons b bs ih =>
      obtain ⟨⟨hspace, hkey⟩, hnames⟩ := List.forall_mem_cons.mp hnames
      obtain ⟨hb, hfits⟩ := List.forall_mem_cons.mp hfits
      rw [saveEach, save_of_fits hspace hkey hb]
      exact ih hnames _ hfits

end Archive

/-! Owners within their limits. -/

theorem Settings.maxRules_le {settings : Settings} (h : settings.check = .ok ()) :
    settings.maxRules.toNat ≤ 128 := by
  rw [check] at h
  split at h
  · cases h
  · split at h
    · cases h
    · rename_i hrange
      exact UInt16.le_iff_toNat_le.mp (UInt16.not_lt.mp fun hlt => hrange (.inr hlt))

/-- An owner of this name, with room for at most 128 rules and no more rules than that. -/
structure Owner.IsBounded (t : Target) {R : Type} (o : Owner R) : Prop where
  space : o.space = t.text
  maxRules : o.engine.maxRules ≤ 128
  rules : o.engine.rules.length ≤ o.engine.maxRules

theorem Owner.isBounded_lasting : Owner.Lasting Owner.IsBounded :=
  .of_frame (fun _ h => ⟨h.space, h.maxRules, h.rules⟩) (fun _ h => ⟨h.space, h.maxRules, h.rules⟩)
    (fun _ hle h => ⟨h.space, h.maxRules, hle h.rules⟩)
    fun _ h => ⟨h.space, h.maxRules, h.rules⟩

/-- The limit on the number of rules keeps their blob small enough if their texts are short. -/
theorem Owner.IsBounded.length_rules_le {t : Target} {R : Type} {o : Owner R}
    (h : o.IsBounded t) (hsize : RuleText.totalSize o.engine.sources ≤ 3078) :
    (Wire.rules.write o.engine.sources).length ≤ blobLimit := by
  have hblob := Wire.length_rules_le o.engine.sources
  have hcount : o.engine.sources.length = o.engine.rules.length := List.length_map ..
  have hmax := h.maxRules
  have hrules := h.rules
  rw [blobLimit]
  omega

namespace Controller
variable {c : Controller}

theorem Every.isName_blobs (h : c.Every Owner.IsBounded) :
    ∀ b ∈ c.blobs, Store.isName b.space ∧ Store.isName b.key := by
  have howner {t : Target} {R : Type} {o : Owner R} (ho : o.IsBounded t) :
      ∀ b ∈ o.blobs, Store.isName b.space ∧ Store.isName b.key := by
    have hname : Store.isName o.space := ho.space ▸ t.isName_text
    simp [Owner.blobs, hname, show Store.isName Archive.rulesKey by decide,
      show Store.isName Archive.tagsKey by decide]
  intro b hb
  rcases List.mem_append.mp hb with hb | hb
  · exact howner h.1 b hb
  · obtain ⟨m, hm, hb⟩ := List.mem_flatMap.mp hb
    exact howner (h.2 m hm) b hb

theorem Owns.mem_blobs {t : Target} {R : Type} {o : Owner R} (h : c.Owns t o) {b : Blob}
    (hb : b ∈ o.blobs) : b ∈ c.blobs := by
  cases h with
  | unit => exact List.mem_append_left _ hb
  | @module id m hm =>
    exact List.mem_append_right _ (List.mem_flatMap.mpr ⟨m, (mem_of_module?_eq_some hm).1, hb⟩)

theorem saveAll_iff (h : c.Every Owner.IsBounded) (s : Store) :
    (c.saveAll s).value.1 ↔ ∀ b ∈ c.blobs, b.bytes.length ≤ blobLimit := by
  rw [← Archive.saveEach_eq_ok_iff h.isName_blobs s, Archive.saveEach_blobs, saveAll,
    Logged.value_bind]
  rcases (c.persist s).value with ⟨e | u, s'⟩ <;> simp

theorem settings_withOwner {α : Type} (c : Controller) (t : Target)
    (f : {R : Type} → Owner R → Logged (α × Owner R)) :
    (c.withOwner t f).value.2.settings = c.settings := by
  obtain ⟨unit, modules, heq⟩ := c.withOwner_frame t f
  rw [heq]

theorem settings_markDirty (c : Controller) : c.markDirty.settings = c.settings := by
  rw [markDirty_eq]

theorem settings_runOn (c : Controller) (now : UInt64) (t : Target)
    (f : {R : Type} → Owner R → Outbox → Logged (Except Fault Bool × Outbox)) :
    (c.runOn now t f).value.1.settings = c.settings := by
  obtain ⟨held, holdUntil, heq⟩ := c.runOn_frame now t f
  rw [heq]
  exact c.settings_withOwner t _

/-- Only a request with settings that are valid changes the settings. -/
theorem settings_handle [BlobStore S] (c : Controller) (now : UInt64) (s : S) (q : Request) :
    (c.handle now s q).value.1.settings = c.settings ∨
      (c.handle now s q).value.1.settings.check = .ok () := by
  cases q with
  | updateRules t p =>
    left
    rcases c.updateRules_cases t p with ⟨-, heq⟩ | ⟨-, report, heq⟩ <;>
      simp only [handle, Logged.value_bind, Logged.value_pure, heq]
    exact (settings_markDirty _).trans (c.settings_withOwner t _)
  | setTags t tags =>
    left
    rcases c.setTags_cases t tags with ⟨-, heq⟩ | ⟨-, heq⟩ <;>
      simp only [handle, Logged.value_bind, Logged.value_pure, heq]
    exact (settings_markDirty _).trans (c.settings_withOwner t _)
  | execute t command => exact .inl (c.settings_runOn now t _)
  | executeIf t expression command => exact .inl (c.settings_runOn now t _)
  | reading id power isOn =>
    left
    simp only [handle]
    split <;> rfl
  | offline id => exact .inl rfl
  | gridChanged up => exact .inl rfl
  | updateSettings settings =>
    simp only [handle]
    split
    · rename_i hcheck
      exact .inr hcheck
    · exact .inl rfl
  | saveRules => exact .inl rfl

end Controller

namespace Site
variable [BlobStore S]

/-- The settings are valid and all owners are within their limits. -/
structure IsBounded (w : Site S) : Prop where
  check : w.controller.settings.check = .ok ()
  owners : w.controller.Every Owner.IsBounded

omit [BlobStore S] in
theorem isBounded_start {settings : Settings} (h : settings.check = .ok ()) (now : UInt64)
    (store : S) : (start settings now store).IsBounded :=
  ⟨h, ⟨rfl, Settings.maxRules_le h, Nat.zero_le _⟩, fun _ hm => (List.not_mem_nil hm).elim⟩

theorem check_step {w : Site S} (h : w.controller.settings.check = .ok ()) (a : Step S) :
    (w.step a).1.controller.settings.check = .ok () := by
  cases a with
  | addModule id =>
    rcases w.controller.withModule_cases id with heq | ⟨-, heq⟩ <;> simp only [step, heq] <;>
      exact h
  | restore => exact h
  | tick =>
    obtain ⟨held, holdUntil, heq⟩ := w.controller.tick_frame w.now
    simp only [step, heq]
    exact h
  | request q =>
    rcases w.controller.settings_handle w.now w.store q with heq | hcheck
    · exact (congrArg Settings.check heq).trans h
    · exact hcheck
  | markDirty => exact (congrArg Settings.check w.controller.settings_markDirty).trans h
  | autoSave =>
    simp only [step, Controller.autoSave, Controller.saveIf_frame]
    exact h
  | forceSave =>
    simp only [step, Controller.forceSave, Controller.saveIf_frame]
    exact h
  | clock now => exact h
  | outside change => exact h

theorem IsBounded.step {w : Site S} (h : w.IsBounded) (a : Step S) : (w.step a).1.IsBounded :=
  ⟨check_step h.check a, every_step Owner.isBounded_lasting h.owners a fun _ _ _ =>
    ⟨rfl, Settings.maxRules_le h.check, Nat.zero_le _⟩⟩

theorem isBounded_run {settings : Settings} (h : settings.check = .ok ()) (now : UInt64) (store : S)
    (steps : List (Step S)) : ((start settings now store).run steps).IsBounded := by
  induction steps using List.reverseRecOn with
  | nil => exact isBounded_start h now store
  | append_singleton steps a ih =>
    rw [run_concat]
    exact ih.step a

theorem forceSave_iff {w : Site Store} (h : w.IsBounded) (hdirty : w.controller.dirty) :
    ((w.controller.forceSave w.store).value.1 ↔
      ∀ b ∈ w.controller.blobs, b.bytes.length ≤ blobLimit) ∧
    ((w.step .forceSave).1.controller.dirty = false ↔
      ∀ b ∈ w.controller.blobs, b.bytes.length ≤ blobLimit) := by
  have hsave : (w.controller.forceSave w.store).value.1 =
      (w.controller.saveAll w.store).value.1 := by
    simp [Controller.forceSave, Controller.saveIf, hdirty]
  have hkept : (w.step .forceSave).1.controller.dirty =
      !(w.controller.forceSave w.store).value.1 := by
    simp only [step]
    rw [Controller.forceSave, Controller.saveIf_frame, hdirty, Bool.true_and]
  rw [hkept, hsave, ← Controller.saveAll_iff h.owners w.store, Bool.not_eq_false']
  exact ⟨Iff.rfl, Iff.rfl⟩

/-- Rules that are accepted and then cannot be saved: an owner takes all that are without fault and
for whose number it has room. -/
theorem dirty_forceSave_of_large {w : Site Store} (h : w.IsBounded) {t : Target} {R : Type}
    {o : Owner R} (ho : w.controller.Owns t o) {ts : List RuleText}
    (hparse : ∀ t ∈ ts, ∃ r, Rule.parse t = .ok r) (hroom : ts.length ≤ o.engine.maxRules)
    (hlarge : blobLimit < (Wire.rules.write ts).length) :
    let w := (w.step (.request (.updateRules t ⟨.replace, ts⟩))).1
    (∃ R, ∃ o : Owner R, w.controller.Owns t o ∧ o.engine.sources = ts) ∧
      w.controller.dirty ∧ (w.step .forceSave).1.controller.dirty := by
  intro w'
  have howns := owns_updateRules ho ⟨.replace, ts⟩
  have hsources : (o.applyPatch ⟨.replace, ts⟩).value.2.engine.sources = ts :=
    Engine.sources_applyPatch_replace hparse hroom
  have hdirty : w'.controller.dirty := by
    refine (w.controller.dirty_updateRules t ⟨.replace, ts⟩).trans ?_
    rw [ho.hasOwner, Bool.true_or]
  refine ⟨⟨_, _, howns, hsources⟩, hdirty, ?_⟩
  by_contra hsaved
  have hfits := (forceSave_iff (h.step _) hdirty).2.mp (Bool.eq_false_of_not_eq_true hsaved) _
    (howns.mem_blobs (List.mem_cons_self ..))
  rw [hsources] at hfits
  exact absurd hfits (Nat.not_le.mpr hlarge)

/-- Whatever has been accepted, a dirty controller can be saved exactly if each of its blobs fits
into the store. Every owner has at most 128 rules, which keeps the blob of its rules small enough
if their texts have 3078 bytes or less. -/
theorem forceSave_iff_fits (settings : Settings) (hvalid : settings.check = .ok ()) (now : UInt64)
    (store : Store) (steps : List (Step Store))
    (hdirty : ((start settings now store).run steps).controller.dirty) :
    let w := (start settings now store).run steps
    (((w.controller.forceSave w.store).value.1 ↔
        ∀ b ∈ w.controller.blobs, b.bytes.length ≤ blobLimit) ∧
      ((w.step .forceSave).1.controller.dirty = false ↔
        ∀ b ∈ w.controller.blobs, b.bytes.length ≤ blobLimit)) ∧
    w.controller.Every fun _ {_} o => o.engine.rules.length ≤ 128 ∧
      (RuleText.totalSize o.engine.sources ≤ 3078 →
        (Wire.rules.write o.engine.sources).length ≤ blobLimit) := by
  intro w
  have hbounded := isBounded_run hvalid now store steps
  have howner {t : Target} {R : Type} {o : Owner R} (ho : o.IsBounded t) :
      o.engine.rules.length ≤ 128 ∧ (RuleText.totalSize o.engine.sources ≤ 3078 →
        (Wire.rules.write o.engine.sources).length ≤ blobLimit) :=
    ⟨ho.rules.trans ho.maxRules, ho.length_rules_le⟩
  exact ⟨forceSave_iff hbounded hdirty, howner hbounded.owners.1,
    fun m hm => howner (hbounded.owners.2 m hm)⟩

/-- A rule and a tag of a module. -/
theorem forceSave_of_short_texts :
    let steps : List (Step Store) := [.addModule 1, .request (.setTags (.module 1) ["a"]),
      .request (.updateRules (.module 1) ⟨.append, [Engine.restartText]⟩)]
    let w := (start .initial 0 Store.empty).run steps
    Settings.initial.check = .ok () ∧ w.controller.dirty ∧
      (w.step .forceSave).1.controller.dirty = false := by
  intro steps w
  have hdirty : w.controller.dirty := by decide +kernel
  have hfits : ∀ b ∈ w.controller.blobs, b.bytes.length ≤ blobLimit := by decide +kernel
  exact ⟨rfl, hdirty,
    (forceSave_iff_fits .initial rfl 0 Store.empty steps hdirty).1.2.mpr hfits⟩

/-- Settings with room for as many rules as settings may have room for. -/
def manyRules : Settings := ⟨1000, 128, 8, 60⟩

def overloadText : RuleText := ⟨1, "TOTAL_POWER > 3000 && GRID", "NOTIFY(\"load\")"⟩

/-- 128 rules with short texts are accepted, and then the controller cannot be saved. -/
theorem dirty_after_forceSave :
    let p : RulePatch := ⟨.replace, List.replicate 128 overloadText⟩
    let w := (start manyRules 0 Store.empty).run [.request (.updateRules .unit p)]
    manyRules.check = .ok () ∧ w.controller.unit.engine.sources = p.rules ∧
      w.controller.dirty ∧ (w.step .forceSave).1.controller.dirty := by
  intro p w
  have hparse : ∀ t ∈ p.rules, ∃ r, Rule.parse t = .ok r := fun t ht =>
    List.eq_of_mem_replicate ht ▸ Outcome.isOk_iff.mp (by decide +kernel)
  have hlarge : blobLimit < (Wire.rules.write p.rules).length := by decide +kernel
  have hbounded : (start manyRules 0 Store.empty).IsBounded := isBounded_start rfl 0 Store.empty
  obtain ⟨⟨R, o, howns, hsources⟩, hdirty, hsaved⟩ :=
    dirty_forceSave_of_large hbounded .unit hparse (List.length_replicate ..).le hlarge
  cases howns
  exact ⟨rfl, hsources, hdirty, hsaved⟩

end Site
end GridRules
