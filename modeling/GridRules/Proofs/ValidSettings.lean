import GridRules.Proofs.Fits
import GridRules.Proofs.Spelling

/-! Settings within their ranges. Whatever has been written over the stored settings, only valid
ones are loaded, and only valid ones come into force. -/
namespace GridRules
variable {S : Type}

namespace Settings

/-- Every setting is in its range. -/
structure IsValid (c : Settings) : Prop where
  reasonInterval : 100 ≤ c.reasonInterval.toNat ∧ c.reasonInterval.toNat ≤ 60000
  maxRules : 1 ≤ c.maxRules.toNat ∧ c.maxRules.toNat ≤ 128
  maxModules : 1 ≤ c.maxModules.toNat ∧ c.maxModules.toNat ≤ 32
  telemetryInterval : 1 ≤ c.telemetryInterval.toNat ∧ c.telemetryInterval.toNat ≤ 86400

/-- The ranges as comparisons of words. -/
theorem isValid_iff {c : Settings} : c.IsValid ↔
    ¬ (c.reasonInterval < 100 ∨ 60000 < c.reasonInterval) ∧
    ¬ (c.maxRules = 0 ∨ 128 < c.maxRules) ∧ ¬ (c.maxModules = 0 ∨ 32 < c.maxModules) ∧
    ¬ (c.telemetryInterval = 0 ∨ 86400 < c.telemetryInterval) := by
  simp only [UInt32.lt_iff_toNat_lt, UInt16.lt_iff_toNat_lt, UInt8.lt_iff_toNat_lt,
    ← UInt32.toNat_inj, ← UInt16.toNat_inj, ← UInt8.toNat_inj, UInt32.reduceToNat,
    UInt16.reduceToNat, UInt8.reduceToNat]
  constructor
  · rintro ⟨hreason, hrules, hmodules, htelemetry⟩
    omega
  · rintro ⟨hreason, hrules, hmodules, htelemetry⟩
    constructor <;> omega

/-- The check accepts valid settings, and of others it names a fault. -/
theorem check_cases (c : Settings) :
    c.IsValid ∧ c.check = .ok () ∨ ¬ c.IsValid ∧ ∃ reason, c.check = .error (.invalid reason) := by
  rw [isValid_iff, check]
  split
  · rename_i hreason
    exact .inr ⟨fun h => h.1 hreason, _, rfl⟩
  · rename_i hreason
    split
    · rename_i hrules
      exact .inr ⟨fun h => h.2.1 hrules, _, rfl⟩
    · rename_i hrules
      split
      · rename_i hmodules
        exact .inr ⟨fun h => h.2.2.1 hmodules, _, rfl⟩
      · rename_i hmodules
        split
        · rename_i htelemetry
          exact .inr ⟨fun h => h.2.2.2 htelemetry, _, rfl⟩
        · rename_i htelemetry
          exact .inl ⟨⟨hreason, hrules, hmodules, htelemetry⟩, rfl⟩

theorem check_eq_ok_iff {c : Settings} : c.check = .ok () ↔ c.IsValid := by
  obtain ⟨hvalid, hcheck⟩ | ⟨hinvalid, reason, hcheck⟩ := c.check_cases
  · exact iff_of_true hcheck hvalid
  · exact iff_of_false (by simp [hcheck]) hinvalid

theorem exists_check_eq_error {c : Settings} (h : ¬ c.IsValid) :
    ∃ reason, c.check = .error (.invalid reason) :=
  c.check_cases.elim (fun hvalid => absurd hvalid.1 h) And.right

theorem isValid_initial : initial.IsValid := check_eq_ok_iff.mp rfl

end Settings

namespace Wire

theorem length_settings_le (c : Settings) : (settings.write c).length ≤ blobLimit := by
  have hreason : (uint32.write c.reasonInterval).length ≤ 5 :=
    length_writeGroups_le_of_lt (Nat.lt_of_lt_of_le c.reasonInterval.toNat_lt_size (by decide))
  have hrules : (uint16.write c.maxRules).length ≤ 3 :=
    length_writeGroups_le_of_lt (Nat.lt_of_lt_of_le c.maxRules.toNat_lt_size (by decide))
  have htelemetry : (uint32.write c.telemetryInterval).length ≤ 5 :=
    length_writeGroups_le_of_lt (Nat.lt_of_lt_of_le c.telemetryInterval.toNat_lt_size (by decide))
  have hlength : (settings.write c).length = (uint32.write c.reasonInterval).length +
      ((uint16.write c.maxRules).length + (1 + (uint32.write c.telemetryInterval).length)) := by
    simp [settings, Format.map, Format.pair, byte]
    omega
  have hlimit : blobLimit = 4000 := rfl
  omega

theorem decode_settings (c : Settings) : settings.decode (settings.write c) = some c := by
  simpa using (reads_settings c).decode []

end Wire

namespace Store

/-- The bytes that are stored under the name of the settings. -/
def settingsBytes? (s : Store) : Option Wire.Bytes :=
  s.blobs.get? (place settingsSpace settingsKey)

/-- A change that is tried on a store. -/
inductive Change where
  | save (c : Settings)
  | write (space key : String) (bytes : Wire.Bytes)
  | delete (space key : String)

/-- The store after a change; it is as it was if the change is refused. -/
def change (s : Store) : Change → Store
  | .save c => (s.saveSettings c).toOption.getD s
  | .write space key bytes => (s.write space key bytes).value.toOption.getD s
  | .delete space key => (s.delete space key).value.toOption.getD s

def changed (s : Store) (changes : List Change) : Store := changes.foldl change s

/-- No blob is too large to be read. -/
def IsReadable (s : Store) : Prop :=
  ∀ place bytes, s.blobs.get? place = some bytes → bytes.length ≤ blobLimit

variable {s : Store}

theorem IsReadable.put (h : s.IsReadable) {b : Blob} (hb : b.bytes.length ≤ blobLimit) :
    (s.put b).IsReadable := by
  intro place bytes hbytes
  rw [get?_put] at hbytes
  split at hbytes
  · rwa [← Option.some.inj hbytes]
  · exact h place bytes hbytes

theorem IsReadable.erase (h : s.IsReadable) (name : String) :
    IsReadable ⟨s.blobs.erase name⟩ := by
  intro place bytes hbytes
  rw [Table.get?_erase] at hbytes
  split at hbytes
  · cases hbytes
  · exact h place bytes hbytes

/-- The blob of settings. -/
def settingsBlob (c : Settings) : Blob := ⟨settingsSpace, settingsKey, Wire.settings.write c⟩

theorem saveSettings_of_isValid {c : Settings} (h : c.IsValid) (s : Store) :
    s.saveSettings c = .ok (s.put (settingsBlob c)) := by
  rw [saveSettings, Settings.check_eq_ok_iff.mpr h]
  rfl

theorem saveSettings_of_not_isValid {c : Settings} (h : ¬ c.IsValid) (s : Store) :
    ∃ reason, s.saveSettings c = .error (.invalid reason) := by
  obtain ⟨reason, hcheck⟩ := Settings.exists_check_eq_error h
  exact ⟨reason, by rw [saveSettings, hcheck, Outcome.map_error]⟩

theorem IsReadable.change (h : s.IsReadable) (a : Change) : (s.change a).IsReadable := by
  cases a with
  | save c =>
    by_cases hvalid : c.IsValid
    · rw [Store.change, saveSettings_of_isValid hvalid]
      exact h.put (Wire.length_settings_le c)
    · obtain ⟨reason, herror⟩ := saveSettings_of_not_isValid hvalid s
      rw [Store.change, herror]
      exact h
  | write space key bytes =>
    rw [Store.change]
    cases hwrite : (s.write space key bytes).value with
    | error e => exact h
    | ok s' =>
      obtain ⟨hsize, rfl⟩ := write_eq_ok (b := ⟨space, key, bytes⟩) hwrite
      exact h.put hsize
  | delete space key =>
    rw [Store.change, delete]
    by_cases hnames : PairStore.IsValid (space, key)
    · rw [withNames_of_isValid hnames]
      exact h.erase _
    · rw [withNames_of_not_isValid hnames]
      exact h

theorem isReadable_changed (changes : List Change) : (Store.empty.changed changes).IsReadable := by
  have hempty : Store.empty.IsReadable := fun place bytes hbytes => by cases hbytes
  suffices h : ∀ s : Store, s.IsReadable → (s.changed changes).IsReadable from h _ hempty
  induction changes with
  | nil => exact fun _ h => h
  | cons a changes ih => exact fun s h => ih (s.change a) (h.change a)

/-- Loading is decoding what is stored. -/
theorem loadSettings_eq (h : s.IsReadable) :
    s.loadSettings.value = match s.settingsBytes? with
      | none => .ok .initial
      | some bytes => decodeSettings bytes := by
  have hnames : PairStore.IsValid (settingsSpace, settingsKey) := by decide
  have hread : (s.read settingsSpace settingsKey blobLimit).value =
      match s.settingsBytes? with
      | none => .error .notFound
      | some bytes => if blobLimit < bytes.length then .error .corrupted else .ok bytes :=
    withNames_of_isValid hnames _
  rw [loadSettings, Logged.value_bind, hread]
  cases hbytes : s.settingsBytes? with
  | none => rfl
  | some bytes =>
    have hsize : bytes.length ≤ blobLimit := h _ bytes hbytes
    simp only [if_neg (Nat.not_lt.mpr hsize), Logged.value_pure]

/-- Nothing but valid settings comes out of a store, and nothing else is saved in it. What is loaded
depends on what the bytes spell that are stored, whoever has written them. -/
structure GuardsSettings (s : Store) : Prop where
  loaded {c : Settings} (h : s.loadSettings.value = .ok c) : c.IsValid
  nothing (h : s.settingsBytes? = none) : s.loadSettings.value = .ok .initial
  undecodable {bytes : Wire.Bytes} (h : s.settingsBytes? = some bytes)
    (hspells : ∀ c, ¬ Wire.SpellsSettings bytes c) : s.loadSettings.value = .error .corrupted
  outOfRange {bytes : Wire.Bytes} {c : Settings} (h : s.settingsBytes? = some bytes)
    (hspells : Wire.SpellsSettings bytes c) (hinvalid : ¬ c.IsValid) :
    ∃ reason, c.check = .error (.invalid reason) ∧
      s.loadSettings.value = .error (.invalid reason)
  inRange {bytes : Wire.Bytes} {c : Settings} (h : s.settingsBytes? = some bytes)
    (hspells : Wire.SpellsSettings bytes c) (hvalid : c.IsValid) : s.loadSettings.value = .ok c
  saved {c : Settings} (h : c.IsValid) :
    s.saveSettings c = .ok (s.change (.save c)) ∧ (s.change (.save c)).loadSettings.value = .ok c
  refused {c : Settings} (h : ¬ c.IsValid) :
    (∃ reason, s.saveSettings c = .error (.invalid reason)) ∧ s.change (.save c) = s

theorem decodeSettings_of_isValid {bytes : Wire.Bytes} {c : Settings}
    (hdecode : Wire.settings.decode bytes = some c) (hvalid : c.IsValid) :
    decodeSettings bytes = .ok c := by
  rw [decodeSettings, hdecode]
  simp only [Settings.check_eq_ok_iff.mpr hvalid, Outcome.map_ok]

theorem isValid_of_decodeSettings {bytes : Wire.Bytes} {c : Settings}
    (h : decodeSettings bytes = .ok c) : c.IsValid := by
  rw [decodeSettings] at h
  cases hdecode : Wire.settings.decode bytes with
  | none => simp [hdecode] at h
  | some d =>
    simp only [hdecode] at h
    obtain ⟨u, hcheck, rfl⟩ := Outcome.map_eq_ok_iff.mp h
    exact Settings.check_eq_ok_iff.mp hcheck

theorem IsReadable.guardsSettings (h : s.IsReadable) : s.GuardsSettings where
  loaded {c} hload := by
    rw [loadSettings_eq h] at hload
    split at hload
    · cases hload
      exact Settings.isValid_initial
    · exact isValid_of_decodeSettings hload
  nothing hbytes := by rw [loadSettings_eq h, hbytes]
  undecodable {bytes} hbytes hspells := by
    have hdecode : Wire.settings.decode bytes = none :=
      Option.eq_none_iff_forall_ne_some.mpr fun c hc =>
        hspells c (Wire.decode_settings_eq_some_iff.mp hc)
    rw [loadSettings_eq h, hbytes]
    simp only [decodeSettings, hdecode]
  outOfRange hbytes hspells hinvalid := by
    obtain ⟨reason, hcheck⟩ := Settings.exists_check_eq_error hinvalid
    refine ⟨reason, hcheck, ?_⟩
    rw [loadSettings_eq h, hbytes]
    simp only [decodeSettings, Wire.decode_settings_eq_some_iff.mpr hspells, hcheck,
      Outcome.map_error]
  inRange hbytes hspells hvalid := by
    rw [loadSettings_eq h, hbytes]
    exact decodeSettings_of_isValid (Wire.decode_settings_eq_some_iff.mpr hspells) hvalid
  saved {c} hvalid := by
    have hsave := saveSettings_of_isValid hvalid s
    have hchange : s.change (.save c) = s.put (settingsBlob c) := by rw [Store.change, hsave]; rfl
    have hbytes : (s.put (settingsBlob c)).settingsBytes? = some (Wire.settings.write c) :=
      (s.get?_put (settingsBlob c) _).trans (if_pos rfl)
    refine ⟨by rw [hsave, hchange], ?_⟩
    rw [loadSettings_eq (h.change _), hchange, hbytes]
    exact decodeSettings_of_isValid (Wire.decode_settings c) hvalid
  refused {c} hinvalid := by
    obtain ⟨reason, herror⟩ := saveSettings_of_not_isValid hinvalid s
    exact ⟨⟨reason, herror⟩, by rw [Store.change, herror]; rfl⟩

end Store

namespace Site
variable [BlobStore S]

/-- The settings in force are valid, and a request for other ones is met if those are valid. -/
structure GuardsSettings (w : Site S) : Prop where
  inForce : w.controller.settings.IsValid
  taken {c : Settings} (h : c.IsValid) :
    (w.step (.request (.updateSettings c))).1.controller.settings = c
  refused {c : Settings} (h : ¬ c.IsValid) :
    (w.step (.request (.updateSettings c))).1.controller = w.controller

theorem guardsSettings_of_isValid {w : Site S} (h : w.controller.settings.IsValid) :
    w.GuardsSettings where
  inForce := h
  taken {c} hvalid := by
    simp only [step, Controller.handle, Settings.check_eq_ok_iff.mpr hvalid, Logged.value_pure]
  refused {c} hinvalid := by
    obtain ⟨reason, hcheck⟩ := Settings.exists_check_eq_error hinvalid
    simp only [step, Controller.handle, hcheck, Logged.value_bind, Logged.value_pure]

theorem isValid_run {w : Site S} (h : w.controller.settings.IsValid) (steps : List (Step S)) :
    (w.run steps).controller.settings.IsValid := by
  induction steps generalizing w with
  | nil => exact h
  | cons a steps ih =>
    have hcheck := check_step (Settings.check_eq_ok_iff.mpr h) a
    exact ih (Settings.check_eq_ok_iff.mp hcheck)

/-- A store guards the settings whatever is saved, written and deleted in it, also under the name of
the settings, and so does a controller that is started with valid settings, after any run. -/
theorem guardsSettings_changed_and_run (changes : List Store.Change) {settings : Settings}
    (h : settings.IsValid) (now : UInt64) (store : S) (steps : List (Step S)) :
    (Store.empty.changed changes).GuardsSettings ∧
      ((start settings now store).run steps).GuardsSettings :=
  ⟨(Store.isReadable_changed changes).guardsSettings,
    guardsSettings_of_isValid (isValid_run h steps)⟩

/-- Settings with room for no rule are written over valid ones, but neither loaded nor saved nor
taken by a controller. -/
theorem guardsSettings_of_no_rules :
    let none : Settings := ⟨1000, 0, 8, 60⟩
    let other : Settings := ⟨500, 128, 32, 86400⟩
    let s := Store.empty.changed [.save other, .write "powerctl" "syscfg" (Wire.settings.write none),
      .save none]
    let w := (start .initial 0 Store.empty).run
      [.request (.updateSettings other), .tick, .request (.updateSettings none)]
    Settings.initial.IsValid ∧ s.GuardsSettings ∧ w.GuardsSettings ∧
      s.loadSettings.value = .error (.invalid "max_rules_per_engine must be 1-128") ∧
      w.controller.settings = other := by
  intro none other s w
  obtain ⟨hstore, hsite⟩ := guardsSettings_changed_and_run
    [.save other, .write "powerctl" "syscfg" (Wire.settings.write none), .save none]
    Settings.isValid_initial 0 Store.empty
    [.request (.updateSettings other), .tick, .request (.updateSettings none)]
  exact ⟨Settings.isValid_initial, hstore, hsite, by decide +kernel, by decide +kernel⟩

end Site
end GridRules
