import GridRules.Proofs.Counts
import GridRules.Proofs.Pairs
import GridRules.Proofs.Restoring

/-! What is kept in binary form is read back as it was: from the bytes alone, whatever follows
them, and from a store that has taken the bytes. -/
namespace GridRules.Archive

theorem save_of_large {S : Type} [BlobStore S] {bytes : Wire.Bytes} (h : blobLimit < bytes.length)
    (s : S) (space key : String) :
    (save s space key bytes).value = (.error (.ofStore .full), s) := by
  rw [save, if_pos h, Logged.value_pure]

/-- A store takes blobs that are not too large, under names that are valid. -/
theorem save_eq_ok {s s' : Store} {space key : String} {bytes : Wire.Bytes}
    (h : (save s space key bytes).value = (.ok (), s')) :
    PairStore.IsValid (space, key) ∧ bytes.length ≤ blobLimit ∧ s' = s.put ⟨space, key, bytes⟩ := by
  by_cases hlarge : blobLimit < bytes.length
  · rw [save_of_large hlarge] at h
    cases h
  by_cases hvalid : PairStore.IsValid (space, key)
  · rw [save, if_neg hlarge] at h
    simp only [BlobStore.write, Store.write, Logged.value_bind, Logged.value_pure,
      Store.withNames_of_isValid hvalid, if_neg hlarge] at h
    cases h
    exact ⟨hvalid, Nat.le_of_not_lt hlarge, rfl⟩
  · rw [save, if_neg hlarge] at h
    simp only [BlobStore.write, Store.write, Logged.value_bind, Logged.value_pure,
      Store.withNames_of_not_isValid hvalid] at h
    cases h

theorem load_of_save {α : Type} {f : Wire.Format α} (hf : f.Faithful) {s s' : Store}
    {space key : String} {as : List α}
    (h : (save s space key (f.list.write as)).value = (.ok (), s')) (what : String) :
    (load f.list what s' space key).value = .ok as := by
  obtain ⟨⟨hspace, hkey⟩, hsize, rfl⟩ := save_eq_ok h
  refine load_of_settled hf ((Store.isName_iff space).mpr hspace) ((Store.isName_iff key).mpr hkey)
    ⟨hsize, ?_⟩ what
  rw [Store.get?_put, if_pos rfl, Option.getD_some]

/-- Rules, tags, settings, patches and actions are read back from what is written of them, with any
bytes behind it. Of lists and texts this holds exactly of those whose lengths are numbers of 64
bits, as all lengths are. Rules and tags that a store takes are loaded from it again, and what is
larger than a blob may be is refused and leaves the store as it was. -/
theorem written_reads_back (rest : Wire.Bytes) (s : Store) (space : String) :
    (∀ rs, Wire.rules.decode (Wire.rules.write rs ++ rest) = some rs ↔
      RuleText.AreCountable rs) ∧
    (∀ ts, Wire.tags.decode (Wire.tags.write ts ++ rest) = some ts ↔
      ts.length < UInt64.size ∧ ∀ t ∈ ts, t.utf8ByteSize < UInt64.size) ∧
    (∀ c, Wire.settings.decode (Wire.settings.write c ++ rest) = some c) ∧
    (∀ p, Wire.patch.decode (Wire.patch.write p ++ rest) = some p ↔
      RuleText.AreCountable p.rules) ∧
    (∀ a, Wire.action.decode (Wire.action.write a ++ rest) = some a ↔ a.IsCountable) ∧
    (∀ rs s', (saveRules s space rs).value = (.ok (), s') →
      (loadRules s' space).value = .ok rs) ∧
    (∀ ts s', (saveTags s space ts).value = (.ok (), s') →
      (loadTags s' space).value = .ok ts) ∧
    (∀ rs, blobLimit < (Wire.rules.write rs).length →
      (saveRules s space rs).value = (.error (.ofStore .full), s)) ∧
    ∀ ts, blobLimit < (Wire.tags.write ts).length →
      (saveTags s space ts).value = (.error (.ofStore .full), s) := by
  refine ⟨fun rs => Wire.exact_rules.decode_iff rs rest,
    fun ts => Wire.exact_tags.decode_iff ts rest, fun c => (Wire.reads_settings c).decode rest,
    fun p => Wire.exact_patch.decode_iff p rest, fun a => Wire.exact_action.decode_iff a rest,
    fun rs s' h => ?_, fun ts s' h => ?_, fun rs h => ?_, fun ts h => ?_⟩
  · exact load_of_save Wire.faithful_ruleText h "stored rules"
  · exact load_of_save Wire.faithful_text h "stored tags"
  · exact save_of_large h s space rulesKey
  · exact save_of_large h s space tagsKey

/-- Priorities at both ends of their range and texts of several bytes to a character are stored; one
rule or tag too many for a blob is refused. -/
theorem written_reads_back_at_limits :
    let rs : List RuleText :=
      [⟨Int32.minValue, "MTL == [\"é\"]", "NOTIFY(\"⚡\")"⟩, ⟨Int32.maxValue, "", ""⟩]
    let ts := ["é", "⚡"]
    let savedRules := (saveRules Store.empty "unit" rs).value
    let savedTags := (saveTags Store.empty "unit" ts).value
    let manyRules := List.replicate 1333 (⟨0, "", ""⟩ : RuleText)
    let manyTags := List.replicate 3999 ""
    (savedRules = (.ok (), savedRules.2) ∧ (loadRules savedRules.2 "unit").value = .ok rs) ∧
      (savedTags = (.ok (), savedTags.2) ∧ (loadTags savedTags.2 "unit").value = .ok ts) ∧
      (blobLimit < (Wire.rules.write manyRules).length ∧
        (saveRules Store.empty "unit" manyRules).value =
          (.error (.ofStore .full), Store.empty)) ∧
      blobLimit < (Wire.tags.write manyTags).length ∧
        (saveTags Store.empty "unit" manyTags).value =
          (.error (.ofStore .full), Store.empty) := by
  intro rs ts savedRules savedTags manyRules manyTags
  obtain ⟨-, -, -, -, -, hrules, htags, hmanyRules, hmanyTags⟩ :=
    written_reads_back [] Store.empty "unit"
  have hsavedRules : savedRules = (.ok (), savedRules.2) := Prod.ext (by decide +kernel) rfl
  have hsavedTags : savedTags = (.ok (), savedTags.2) := Prod.ext (by decide +kernel) rfl
  have hlargeRules : blobLimit < (Wire.rules.write manyRules).length := by decide +kernel
  have hlargeTags : blobLimit < (Wire.tags.write manyTags).length := by decide +kernel
  exact ⟨⟨hsavedRules, hrules rs _ hsavedRules⟩, ⟨hsavedTags, htags ts _ hsavedTags⟩,
    ⟨hlargeRules, hmanyRules manyRules hlargeRules⟩, hlargeTags, hmanyTags manyTags hlargeTags⟩

end GridRules.Archive
