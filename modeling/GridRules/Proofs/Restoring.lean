import GridRules.Proofs.Blobs
import GridRules.Proofs.Owners
import GridRules.Proofs.PlainEngine
import GridRules.Proofs.Tags

/-! Restoring what was saved. Owners of the same names and limits take over each other's rules and
tags from a store in which these are settled: the texts are read back as they were written, give
the same rules when they are parsed again, and the tags are normal already. -/
namespace GridRules
variable {R : Type}

/-- An owner of this name, with room for so many rules and no more of them, and normal tags. -/
structure Owner.IsSound (limit : Nat) (t : Target) {R : Type} (o : Owner R) : Prop where
  space : o.space = t.text
  maxRules : o.engine.maxRules = limit
  fits : o.engine.rules.length ≤ limit
  tags : o.tags.IsNormal

theorem Owner.isSound_lasting (limit : Nat) : Owner.Lasting (Owner.IsSound limit) :=
  .of_frame (fun _ h => ⟨h.space, h.maxRules, h.fits, h.tags⟩)
    (fun _ h => ⟨h.space, h.maxRules, h.fits, h.tags⟩)
    (fun _ hle h => ⟨h.space, h.maxRules, h.maxRules ▸ hle (h.maxRules.symm ▸ h.fits), h.tags⟩)
    fun tags h => ⟨h.space, h.maxRules, h.fits, TagList.isNormal_ofList tags⟩

/-- Rules whose texts are loaded again are the same rules. -/
theorem Engine.load_sources {σ : Type} {e : Engine σ} {rs : List Rule}
    (h : e.rules.length + rs.length ≤ e.maxRules) (index : Nat) :
    (e.load index (rs.map (·.source))).value =
      (⟨rs.length, []⟩, { e with rules := e.rules ++ rs }) := by
  induction rs generalizing e index with
  | nil => simp [load]
  | cons r rs ih =>
    have hroom : e.rules.length < e.maxRules := by
      rw [List.length_cons] at h
      omega
    have hadd : (e.addRule r.source).value = .ok { e with rules := e.rules ++ [r] } :=
      addRule_eq_ok_iff.mpr ⟨hroom, r, Rule.parse_eq_ok_iff.mpr rfl, rfl⟩
    have hfits : (e.rules ++ [r]).length + rs.length ≤ e.maxRules := by
      rw [List.length_append, List.length_singleton]
      rw [List.length_cons] at h
      omega
    have hrest := ih (e := { e with rules := e.rules ++ [r] }) hfits (index + 1)
    simp only [List.map_cons, load, Logged.value_bind, hadd, hrest, Logged.value_pure,
      List.length_cons, List.append_assoc, List.cons_append, List.nil_append]

namespace Archive

theorem load_of_settled {α : Type} {f : Wire.Format α} (hf : f.Faithful) {s : Store}
    {space key : String} (hspace : Store.isName space) (hkey : Store.isName key) {as : List α}
    (h : s.Settled ⟨space, key, f.list.write as⟩) (what : String) :
    (load f.list what s space key).value = .ok as := by
  obtain ⟨hsize, hblob⟩ := h
  have hreads : f.list.Reads as :=
    hf.list.reads as (Nat.lt_of_le_of_lt hsize (by decide))
  have hdecode : f.list.decode (f.list.write as) = some as := by
    simpa using hreads.decode []
  have hnames : Store.invalidName? space key = none := by
    simp [Store.invalidName?, hspace, hkey]
  simp only [load, BlobStore.read, Store.read, Store.withNames, hnames, Logged.value_bind,
    Logged.value_pure]
  change (s.blobs.get? (Store.place space key)).getD Store.nothing = f.list.write as at hblob
  cases hget : s.blobs.get? (Store.place space key) with
  | none =>
    rw [hget, Option.getD_none] at hblob
    have hreadsNil : f.list.Reads [] := Wire.Format.Reads.list (Nat.zero_lt_succ _) (by simp)
    have hnil : f.list.decode (f.list.write []) = some [] := by
      simpa using hreadsNil.decode []
    have hnothing : Store.nothing = f.list.write [] := (Wire.write_nil f).symm
    have has : as = [] := by
      rw [← hblob, hnothing, hnil] at hdecode
      exact (Option.some.inj hdecode).symm
    simp [has]
  | some bytes =>
    rw [hget, Option.getD_some] at hblob
    subst hblob
    have hroom : ¬ blobLimit < (f.list.write as).length := Nat.not_lt.mpr hsize
    simp [hroom, hdecode]

end Archive

/-- An owner takes over what is stored of one like it. -/
theorem Owner.restore_of_settled {limit : Nat} {t : Target} {o kept : Owner R} (ho : o.IsSound limit t)
    (hkept : kept.IsSound limit t) {s : Store} (hs : ∀ b ∈ kept.blobs, s.Settled b) :
    (o.restore s).value = (.ok ⟨kept.engine.rules.length, []⟩,
      { o with tags := kept.tags, engine := { o.engine with rules := kept.engine.rules } }) := by
  have hspace : kept.space = o.space := hkept.space.trans ho.space.symm
  have hname : Store.isName o.space := ho.space ▸ t.isName_text
  have hrules : (Archive.loadRules s o.space).value = .ok kept.engine.sources :=
    Archive.load_of_settled Wire.faithful_ruleText hname (by decide)
      (hspace ▸ hs _ (List.mem_cons_self ..)) _
  have htags : (Archive.loadTags s o.space).value = .ok kept.tags.toList :=
    Archive.load_of_settled Wire.faithful_text hname (by decide)
      (hspace ▸ hs _ (List.mem_cons_of_mem _ (List.mem_singleton.mpr rfl))) _
  have hroom : o.engine.clearRules.rules.length + kept.engine.rules.length ≤
      o.engine.clearRules.maxRules := by
    simpa [Engine.clearRules, ho.maxRules] using hkept.fits
  have hload := Engine.load_sources hroom 0
  simp only [restore, Logged.value_bind, htags, hrules, applyPatch, Engine.applyPatch, setTags,
    Engine.sources, hload, Logged.value_pure, hkept.tags.ofList_toList]
  rfl

/-- What a store keeps of an owner. -/
def Owner.kept (o : Owner R) : List Rule × TagList := (o.engine.rules, o.tags)

/-- The owner can be restored, and no rule is refused. -/
def Owner.RestoresCleanly (s : Store) (_ : Target) {R : Type} (o : Owner R) : Prop :=
  ∃ report, (o.restore s).value.1 = .ok report ∧ report.isClean

namespace Controller

def ids (c : Controller) : List UInt8 := c.modules.map Module.id

/-- What a store keeps of a controller: the unit's part, and that of each module. -/
def kept (c : Controller) : (List Rule × TagList) × List (UInt8 × List Rule × TagList) :=
  (c.unit.kept, c.modules.map fun m => (m.id, m.kept))

theorem restoreModules_of_settled {limit : Nat} {s : Store} {ms live : List Module}
    (hids : ms.map Module.id = live.map Module.id)
    (hms : ∀ m ∈ ms, m.IsSound limit m.target)
    (hlive : ∀ m ∈ live, m.IsSound limit m.target ∧ ∀ b ∈ m.blobs, s.Settled b) :
    (∀ m ∈ ms, m.RestoresCleanly s m.target) ∧ (restoreModules s ms).value.1.isClean ∧
      (restoreModules s ms).value.2.map (fun m => (m.id, m.kept)) =
        live.map fun m => (m.id, m.kept) := by
  induction ms generalizing live with
  | nil =>
    cases live with
    | nil => exact ⟨by simp, rfl, rfl⟩
    | cons m' live => cases hids
  | cons m ms ih =>
    cases live with
    | nil => cases hids
    | cons m' live =>
      obtain ⟨hid, hids⟩ := List.cons.inj hids
      have htarget : m'.target = m.target := by rw [Module.target, ← hid, Module.target]
      have hm := hms m (List.mem_cons_self ..)
      obtain ⟨hm', hs⟩ := hlive m' (List.mem_cons_self ..)
      have hrestore := Owner.restore_of_settled hm (htarget ▸ hm') hs
      obtain ⟨hall, hclean, hkept⟩ := ih hids (fun m hm => hms m (List.mem_cons_of_mem _ hm))
        fun m hm => hlive m (List.mem_cons_of_mem _ hm)
      refine ⟨?_, ?_, ?_⟩
      · rintro x hx
        rcases List.mem_cons.mp hx with rfl | hx
        · exact ⟨_, congrArg (·.1) hrestore, rfl⟩
        · exact hall x hx
      · simp only [restoreModules, Logged.value_bind, hrestore, restored, Logged.value_pure]
        simpa [PatchReport.append, PatchReport.isClean] using hclean
      · simp only [restoreModules, Logged.value_bind, hrestore, Logged.value_pure, List.map_cons,
          hkept]
        exact congrArg (· :: _) (Prod.ext hid rfl)

/-- A controller with the same modules takes over all that is stored of another one. -/
theorem restore_of_settled {limit : Nat} {s : Store} {fresh live : Controller}
    (hids : fresh.ids = live.ids)
    (hfresh : fresh.Every (Owner.IsSound limit)) (hlive : live.Every (Owner.IsSound limit))
    (hs : ∀ b ∈ live.blobs, s.Settled b) :
    fresh.Every (Owner.RestoresCleanly s) ∧ (fresh.restore s).value.1.isClean ∧
      (fresh.restore s).value.2.kept = live.kept := by
  have hunit : ∀ b ∈ live.unit.blobs, s.Settled b := fun b hb => hs b (List.mem_append_left _ hb)
  have hmodules : ∀ m ∈ live.modules, m.IsSound limit m.target ∧ ∀ b ∈ m.blobs, s.Settled b :=
    fun m hm => ⟨hlive.2 m hm, fun b hb =>
      hs b (List.mem_append_right _ (List.mem_flatMap.mpr ⟨m, hm, hb⟩))⟩
  have hrestore := Owner.restore_of_settled hfresh.1 hlive.1 hunit
  obtain ⟨hall, hclean, hkept⟩ := restoreModules_of_settled hids hfresh.2 hmodules
  refine ⟨⟨⟨_, congrArg (·.1) hrestore, rfl⟩, hall⟩, ?_, ?_⟩
  · simp only [restore, Logged.value_bind, hrestore, restored, Logged.value_pure]
    simpa [PatchReport.append, PatchReport.isClean] using hclean
  · simp only [restore, Logged.value_bind, hrestore, Logged.value_pure, kept, hkept]
    rfl

end Controller
end GridRules
