import GridRules.Proofs.Addressed

/-! Modules apart. A module of a controller goes through a run as it would by itself with the
clock, whatever else happens to the site. So nothing that is asked of the other owners comes
through to its rules, its tags, its readings or its reports. -/
namespace GridRules
variable {S : Type}

/-- A module by itself, with the clock. -/
structure Solo where
  module : Module
  now : UInt64

namespace Solo

/-- Ticks, the clock and the requests to the module are all that comes to it. -/
def step (s : Solo) : Step S → Solo
  | .tick => { s with module := (s.module.reason s.now .empty).value.2.1 }
  | .clock now => { s with now := now }
  | .request q =>
    if q.target? = some (.module s.module.id) then { s with module := q.act s.module } else s
  | _ => s

/-- What the module finds in a tick. -/
def findings (s : Solo) : Step S → List Findings
  | .tick => [s.module.findings s.now]
  | _ => []

def run (s : Solo) (steps : List (Step S)) : Solo := steps.foldl step s

def trace (s : Solo) : List (Step S) → List Findings
  | [] => []
  | a :: steps => s.findings a ++ (s.step a).trace steps

@[simp] theorem run_cons (s : Solo) (a : Step S) (steps : List (Step S)) :
    s.run (a :: steps) = (s.step a).run steps := rfl

theorem id_step (s : Solo) (a : Step S) : (s.step a).module.id = s.module.id := by
  cases a with
  | request q =>
    simp only [step]
    split
    · cases q <;> rfl
    · rfl
  | _ => rfl

theorem id_run (s : Solo) (steps : List (Step S)) : (s.run steps).module.id = s.module.id := by
  induction steps generalizing s with
  | nil => rfl
  | cons a steps ih => exact (ih (s.step a)).trans (s.id_step a)

end Solo

/-- Whether a step comes to the module of that id. -/
def Step.reaches (id : UInt8) : Step S → Bool
  | .tick | .clock _ => true
  | .request q => q.target? = some (.module id)
  | _ => false

namespace Solo

theorem step_of_not_reaches {s : Solo} {a : Step S} (h : a.reaches s.module.id = false) :
    s.step a = s ∧ s.findings a = [] := by
  cases a with
  | tick => cases h
  | clock now => cases h
  | request q =>
    have hother : q.target? ≠ some (.module s.module.id) := by simpa [Step.reaches] using h
    exact ⟨if_neg hother, rfl⟩
  | _ => exact ⟨rfl, rfl⟩

/-- Steps that do not come to the module may be left out. -/
theorem run_filter (s : Solo) (steps : List (Step S)) :
    s.run (steps.filter (·.reaches s.module.id)) = s.run steps ∧
      s.trace (steps.filter (·.reaches s.module.id)) = s.trace steps := by
  induction steps generalizing s with
  | nil => exact ⟨rfl, rfl⟩
  | cons a steps ih =>
    obtain ⟨hrun, htrace⟩ := ih (s.step a)
    rw [id_step] at hrun htrace
    cases ha : a.reaches s.module.id with
    | true =>
      rw [List.filter_cons_of_pos ha]
      exact ⟨hrun, congrArg (s.findings a ++ ·) htrace⟩
    | false =>
      obtain ⟨hstep, hfindings⟩ := step_of_not_reaches ha
      rw [hstep] at hrun htrace
      rw [List.filter_cons_of_neg (by simp [ha]), run_cons, trace, hstep, hfindings]
      exact ⟨hrun, htrace⟩

end Solo

namespace Site
variable [BlobStore S]

/-- What the module of that id finds in a tick; nothing, if nothing is told of it. -/
def findings (id : UInt8) (w : Site S) : Step S → List Findings
  | .tick => [((w.step .tick).2.findSome? (Event.findings? id)).getD .nothing]
  | _ => []

/-- What keeps modules apart along a run. -/
structure IsApart (w : Site S) : Prop where
  blind : w.controller.Every fun _ {_} o => o.IsBlind
  nodup : w.controller.ids.Nodup

omit [BlobStore S] in
theorem isApart_start (settings : Settings) (now : UInt64) (store : S) :
    (start settings now store).IsApart :=
  ⟨⟨isBlind_unit _, nofun⟩, List.nodup_nil⟩

theorem IsApart.step {w : Site S} (h : w.IsApart) (a : Step S) : (w.step a).1.IsApart :=
  ⟨every_step Owner.isBlind_lasting h.blind a fun _ _ _ => isBlind_module _ _,
    nodup_ids_step h.nodup a⟩

theorem IsApart.run {w : Site S} (h : w.IsApart) (steps : List (Step S)) :
    (w.run steps).IsApart := by
  induction steps generalizing w with
  | nil => exact h
  | cons a steps ih => exact ih (h.step a)

/-- The module by itself is the one that the site has, at the same time. -/
structure Has (w : Site S) (s : Solo) : Prop where
  module : w.controller.module? s.module.id = some s.module
  now : w.now = s.now

/-- A step does to a module of the site what it does to the module by itself. -/
theorem Has.step {w : Site S} (h : w.IsApart) {s : Solo} (hs : w.Has s) {a : Step S}
    (ha : a ≠ .restore) :
    (w.step a).1.Has (s.step a) ∧ findings s.module.id w a = s.findings a := by
  have hkept {c : Controller} (hc : c.module? s.module.id = w.controller.module? s.module.id)
      (store : S) : Has ⟨c, store, w.now⟩ s := ⟨hc.trans hs.module, hs.now⟩
  cases a with
  | addModule id =>
    exact ⟨hkept (w.controller.module?_withModule (by simp [hs.module])) w.store, rfl⟩
  | restore => exact absurd rfl ha
  | tick =>
    have htick := Controller.module?_tick h.blind w.now s.module.id
    have hfindings := Controller.findings_tick h.blind h.nodup hs.module w.now
    rw [hs.module, hs.now] at htick
    refine ⟨⟨?_, hs.now⟩, congrArg ([·]) ?_⟩
    · rw [Site.step, hs.now]
      exact htick
    · rw [← hs.now]
      exact hfindings
  | request q =>
    have hq := w.controller.module?_handle w.now w.store q s.module.id
    rw [hs.module] at hq
    refine ⟨⟨?_, ?_⟩, rfl⟩
    · rw [Solo.id_step]
      refine hq.trans ?_
      rw [Solo.step]
      split <;> rfl
    · refine hs.now.trans ?_
      rw [Solo.step]
      split <;> rfl
  | markDirty => exact ⟨hkept (w.controller.module?_markDirty s.module.id) w.store, rfl⟩
  | autoSave => exact ⟨hkept (w.controller.module?_saveIf _ w.store s.module.id) _, rfl⟩
  | forceSave => exact ⟨hkept (w.controller.module?_saveIf _ w.store s.module.id) _, rfl⟩
  | clock now => exact ⟨⟨hs.module, rfl⟩, rfl⟩
  | outside change => exact ⟨⟨hs.module, hs.now⟩, rfl⟩

/-- A module of a site goes through a run as it would by itself. -/
theorem Has.run {w : Site S} (h : w.IsApart) {s : Solo} (hs : w.Has s) {steps : List (Step S)}
    (hsteps : ∀ a ∈ steps, a ≠ .restore) :
    (w.run steps).Has (s.run steps) ∧ trace (findings s.module.id) w steps = s.trace steps := by
  induction steps generalizing w s with
  | nil => exact ⟨hs, rfl⟩
  | cons a steps ih =>
    obtain ⟨ha, hrest⟩ := List.forall_mem_cons.mp hsteps
    obtain ⟨hstep, hfindings⟩ := hs.step h ha
    obtain ⟨hrun, htrace⟩ := ih (h.step a) hstep hrest
    rw [Solo.id_step] at htrace
    rw [run_cons, Solo.run_cons, trace, Solo.trace, hfindings, htrace]
    exact ⟨hrun, rfl⟩

/-- Two runs that come to a module in the same way leave it the same, and it finds the same in each
tick. -/
theorem Has.run_congr {w : Site S} (h : w.IsApart) {s : Solo} (hs : w.Has s)
    {steps others : List (Step S)} (hsteps : ∀ a ∈ steps, a ≠ .restore)
    (hothers : ∀ a ∈ others, a ≠ .restore)
    (hsame : others.filter (·.reaches s.module.id) = steps.filter (·.reaches s.module.id)) :
    (w.run others).Has (s.run steps) ∧ (w.run steps).Has (s.run steps) ∧
      trace (findings s.module.id) w others = trace (findings s.module.id) w steps := by
  obtain ⟨hrun, htrace⟩ := hs.run h hsteps
  obtain ⟨hrun', htrace'⟩ := hs.run h hothers
  obtain ⟨hfilter, hfound⟩ := s.run_filter steps
  obtain ⟨hfilter', hfound'⟩ := s.run_filter others
  rw [hsame] at hfilter' hfound'
  refine ⟨?_, hrun, ?_⟩
  · rwa [← hfilter', hfilter] at hrun'
  · rw [htrace, htrace', ← hfound, ← hfound']

end Site

/-- Whether a step is a request that is not addressed to the module of that id. -/
def Step.isForeign (id : UInt8) : Step S → Bool
  | .request q => q.target? ≠ some (.module id)
  | _ => false

theorem Step.filter_reaches (id : UInt8) (steps : List (Step S)) :
    (steps.filter (!·.isForeign id)).filter (·.reaches id) = steps.filter (·.reaches id) := by
  rw [List.filter_filter]
  refine List.filter_congr fun a _ => ?_
  cases a with
  | request q => simp [reaches, isForeign]
  | _ => rfl

namespace Site
variable [BlobStore S]

/-- Once a site is set up, all requests that are not for a module may be left out: without them the
module has the same readings, tags, rules and variables in the end, the time of the last execution
among them, and it finds the same in each tick. Restoring belongs to the setup: what a store holds
depends on the saves, which are nobody's own. -/
theorem same_without_foreign (settings : Settings) (now : UInt64) (store : S)
    (setup : List (Step S)) (id : UInt8) {steps : List (Step S)}
    (hsteps : ∀ a ∈ steps, a ≠ .restore) :
    let w := (start settings now store).run setup
    let own := steps.filter (!·.isForeign id)
    (w.controller.module? id).isSome →
      (∃ m, (w.run own).controller.module? id = some m ∧
        (w.run steps).controller.module? id = some m) ∧
      trace (findings id) w own = trace (findings id) w steps := by
  intro w own hid
  obtain ⟨m, hm⟩ := Option.isSome_iff_exists.mp hid
  obtain rfl := (Controller.mem_of_module?_eq_some hm).2
  have hown : ∀ a ∈ own, a ≠ .restore := fun a ha => hsteps a (List.mem_of_mem_filter ha)
  have hw : w.IsApart := (isApart_start settings now store).run setup
  have hs : w.Has ⟨m, w.now⟩ := ⟨hm, rfl⟩
  obtain ⟨hrun, hrun', htrace⟩ := hs.run_congr hw hsteps hown (Step.filter_reaches m.id steps)
  have hlast : (Solo.run ⟨m, w.now⟩ steps).module.id = m.id := Solo.id_run ⟨m, w.now⟩ steps
  exact ⟨⟨_, hlast ▸ hrun.module, hlast ▸ hrun'.module⟩, htrace⟩

/-- Of ten steps the first module needs five. Both modules run a rule in each tick. -/
theorem same_without_foreign_of_two :
    let setup : List (Step Store) := [.addModule 1, .addModule 2]
    let steps : List (Step Store) :=
      [.request (.updateRules (.module 1) ⟨.replace, [⟨1, "POWER > 5", "OFF()"⟩]⟩),
        .request (.updateRules (.module 2) ⟨.replace, [⟨1, "ONLINE", "NOTIFY(\"on\")"⟩]⟩),
        .request (.reading 2 3 true), .request (.reading 1 7 true), .request (.gridChanged true),
        .tick, .clock 60, .request .saveRules, .request (.execute (.module 2) "DELAY(9)"), .tick]
    let w := (start .initial 0 Store.empty).run setup
    let own := steps.filter (!·.isForeign 1)
    ((∀ a ∈ steps, a ≠ .restore) ∧ (w.controller.module? 1).isSome) ∧
      ((∃ m, (w.run own).controller.module? 1 = some m ∧
        (w.run steps).controller.module? 1 = some m) ∧
        trace (findings 1) w own = trace (findings 1) w steps) ∧
      (own.length = 5 ∧ steps.length = 10) ∧
      (trace (findings 1) w steps).map (·.executed) = [[0], [0]] ∧
      (trace (findings 2) w steps).map (·.executed) = [[0], [0]] := by
  intro setup steps w own
  have hsteps : ∀ a ∈ steps, a ≠ .restore := by simp [steps]
  have hmodule : (w.controller.module? 1).isSome := by decide +kernel
  have hfirst : (trace (findings 1) w steps).map (·.executed) = [[0], [0]] := by decide +kernel
  have hsecond : (trace (findings 2) w steps).map (·.executed) = [[0], [0]] := by decide +kernel
  exact ⟨⟨hsteps, hmodule⟩,
    same_without_foreign .initial 0 Store.empty setup 1 hsteps hmodule, ⟨rfl, rfl⟩, hfirst, hsecond⟩

end Site

end GridRules
