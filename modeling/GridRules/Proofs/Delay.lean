import GridRules.Proofs.Ledger

/-! Delays. What is behind a delay goes out when the delay has passed, and a delay begins when the
one before it has ended; so what goes out has waited for all delays in front of it together. -/
namespace GridRules
variable {S : Type}

def Action.seconds : Action → Nat
  | .delay s => s.toNat
  | _ => 0

theorem Action.cases_delay (a : Action) : (∃ s, a = .delay s) ∨ !a.isDelay := by
  cases a <;> simp [isDelay]

/-- Actions with the times at which something was done with them. -/
abbrev Ledger := List (UInt64 × Action)

namespace Ledger

/-- The length of all delays together. -/
def seconds : Ledger → Nat
  | [] => 0
  | x :: log => x.2.seconds + seconds log

/-- The actions that are no delays. -/
def proper (log : Ledger) : Ledger := log.filter (!·.2.isDelay)

@[simp] theorem proper_append (first second : Ledger) :
    proper (first ++ second) = proper first ++ proper second := List.filter_append ..

theorem proper_delay (t : UInt64) (s : UInt32) : proper [(t, .delay s)] = [] := rfl

theorem proper_of_not_delay (t : UInt64) {a : Action} (h : !a.isDelay) :
    proper [(t, a)] = [(t, a)] := by
  simp [proper, h]

/-- A delay begins when it is accepted or when those before it have ended, at `d`. -/
def endAfter (d : Nat) (x : UInt64 × Action) : Nat :=
  match x.2 with
  | .delay s => max d x.1.toNat + s.toNat
  | _ => d

theorem endAfter_of_not_delay (d : Nat) (t : UInt64) {a : Action} (h : !a.isDelay) :
    endAfter d (t, a) = d := by
  cases a with
  | delay s => simp [Action.isDelay] at h
  | _ => rfl

/-- The time when all delays have ended. -/
def due (log : Ledger) : Nat := log.foldl endAfter 0

theorem due_concat (log : Ledger) (x : UInt64 × Action) :
    due (log ++ [x]) = endAfter (due log) x := by
  simp [due]

theorem add_seconds_le_foldl (d : Nat) (log : Ledger) : d + log.seconds ≤ log.foldl endAfter d := by
  induction log generalizing d with
  | nil => simp [seconds]
  | cons x log ih =>
    refine Nat.le_trans ?_ (ih (endAfter d x))
    obtain ⟨t, a⟩ := x
    rcases a.cases_delay with ⟨s, rfl⟩ | ha
    · simp only [seconds, Action.seconds, endAfter]
      omega
    · have hs : a.seconds = 0 := by
        cases a <;> simp_all [Action.seconds, Action.isDelay]
      simp [seconds, hs, endAfter_of_not_delay d t ha]

/-- A delay and those behind it, one after the other, have not ended before all have. -/
theorem le_due (before between : Ledger) (t : UInt64) (s : UInt32) :
    t.toNat + s.toNat + between.seconds ≤ due (before ++ (t, .delay s) :: between) := by
  have h := add_seconds_le_foldl (endAfter (due before) (t, .delay s)) between
  have hs : t.toNat + s.toNat ≤ endAfter (due before) (t, .delay s) := by
    simp only [endAfter]
    omega
  rw [due, List.foldl_append, List.foldl_cons]
  exact Nat.le_trans (Nat.add_le_add_right hs _) h

/-- The greatest time that a clock can show. -/
def lastTime : Nat := UInt64.size - 1

/-- A ledger of what was told that answers to one of what was accepted: every action once and in
order, and none before the delays in front of it have ended. -/
inductive Told : Ledger → Ledger → Prop where
  | nil : Told [] []
  | delay {log told : Ledger} (t : UInt64) (s : UInt32) (h : Told log told) :
      Told (log ++ [(t, .delay s)]) told
  | action {log told : Ledger} (t : UInt64) {a : Action} {now : UInt64} (ha : !a.isDelay)
      (hdue : min (due log) lastTime ≤ now.toNat) (h : Told log told) :
      Told (log ++ [(t, a)]) (told ++ [(now, a)])

namespace Told

theorem length_eq {log told : Ledger} (h : Told log told) : told.length = log.proper.length := by
  induction h with
  | nil => rfl
  | delay t s h ih => rw [proper_append, proper_delay, List.append_nil, ih]
  | action t ha hdue h ih =>
    rw [proper_append, proper_of_not_delay t ha, List.length_append, List.length_append, ih]
    rfl

/-- An accepted action is told in its turn, and then all delays in front of it have ended. -/
theorem getElem?_eq {log told : Ledger} (h : Told log told) {before after : Ledger} {t : UInt64}
    {a : Action} (hlog : log = before ++ (t, a) :: after) (ha : !a.isDelay) :
    ∃ now, told[before.proper.length]? = some (now, a) ∧
      min (due before) lastTime ≤ now.toNat := by
  induction h generalizing after with
  | nil => simp at hlog
  | delay t' s h ih =>
    rcases List.eq_nil_or_concat after with rfl | ⟨after, y, rfl⟩
    · obtain ⟨-, hx⟩ := List.append_inj' hlog rfl
      cases hx
      simp [Action.isDelay] at ha
    · rw [List.concat_eq_append, ← List.cons_append, ← List.append_assoc] at hlog
      exact ih (List.append_inj' hlog rfl).1
  | @action log told t' a' now ha' hdue h ih =>
    rcases List.eq_nil_or_concat after with rfl | ⟨after, y, rfl⟩
    · obtain ⟨rfl, hx⟩ := List.append_inj' hlog rfl
      cases hx
      exact ⟨now, by simp [← h.length_eq], hdue⟩
    · rw [List.concat_eq_append, ← List.cons_append, ← List.append_assoc] at hlog
      obtain ⟨now', htold, hle⟩ := ih (List.append_inj' hlog rfl).1
      obtain ⟨hlt, -⟩ := List.getElem?_eq_some_iff.mp htold
      exact ⟨now', by rw [List.getElem?_append_left hlt, htold], hle⟩

/-- What is told in the turn of an accepted action is that action. -/
theorem eq_of_getElem? {log told rest : Ledger} (h : Told log told) {before after : Ledger}
    {t : UInt64} {a : Action} (hlog : log ++ rest = before ++ (t, a) :: after) (ha : !a.isDelay)
    {time : UInt64} {b : Action} (htold : told[before.proper.length]? = some (time, b)) :
    b = a ∧ min (due before) lastTime ≤ time.toNat := by
  obtain ⟨hlt, -⟩ := List.getElem?_eq_some_iff.mp htold
  rw [h.length_eq] at hlt
  rcases List.append_eq_append_iff.mp hlog with ⟨more, rfl, -⟩ | ⟨more, rfl, hmore⟩
  · rw [proper_append, List.length_append] at hlt
    omega
  · cases more with
    | nil => simp at hlt
    | cons x more =>
      obtain ⟨rfl, -⟩ := List.cons.inj hmore
      obtain ⟨now, hnow, hdue⟩ := h.getElem?_eq rfl ha
      cases htold.symm.trans hnow
      exact ⟨rfl, hdue⟩

end Told

/-- The ledgers at the time `now`, with what is held of the accepted actions and until when: the
actions before those held were told in time, and none of the held ones may go sooner. -/
structure Punctual (now : UInt64) (log told : Ledger) (held : List Action)
    (holdUntil : Option UInt64) : Prop where
  split : ∃ done rest, log = done ++ rest ∧ rest.map (·.2) = held ∧ Told done told ∧
    min (due done) lastTime ≤ (holdUntil.getD now).toNat
  isSome_of_held : held ≠ [] → holdUntil.isSome

theorem Punctual.mono {now later : UInt64} {log told : Ledger} {held : List Action}
    {holdUntil : Option UInt64} (h : Punctual now log told held holdUntil) (hle : now ≤ later) :
    Punctual later log told held holdUntil := by
  obtain ⟨done, rest, hlog, hheld, htold, hdue⟩ := h.split
  refine ⟨⟨done, rest, hlog, hheld, htold, ?_⟩, h.isSome_of_held⟩
  cases holdUntil with
  | none => exact Nat.le_trans hdue hle
  | some t => exact hdue

end Ledger

namespace Controller
open Ledger

theorem toNat_later (now : UInt64) (s : UInt32) :
    (later now s).toNat = min (now.toNat + s.toNat) lastTime := by
  have hlt : min (now.toNat + s.toNat) lastTime < UInt64.size := by
    simp only [lastTime, UInt64.size]
    omega
  rw [later, UInt64.toNat_ofNat']
  exact Nat.mod_eq_of_lt hlt

theorem release_cons_of_not_delay (now : UInt64) {a : Action} (h : !a.isDelay)
    (rest : List Action) :
    release now (a :: rest) = (a :: (release now rest).1, (release now rest).2) := by
  cases a with
  | delay s => simp [Action.isDelay] at h
  | _ => rfl

/-- A release tells what is due, and it stops at a delay. -/
theorem punctual_release {now : UInt64} {waiting : Ledger} (hpast : ∀ x ∈ waiting, x.1 ≤ now)
    {done told : Ledger} (htold : Told done told) (hdue : min (due done) lastTime ≤ now.toNat) :
    let r := release now (waiting.map (·.2))
    Punctual now (done ++ waiting) (told ++ r.1.map (now, ·)) r.2.1 r.2.2 := by
  induction waiting generalizing done told with
  | nil => exact ⟨⟨done, [], rfl, rfl, by simpa [release] using htold, hdue⟩, by simp [release]⟩
  | cons x waiting ih =>
    obtain ⟨t, a⟩ := x
    have ht : t.toNat ≤ now.toNat := hpast (t, a) (List.mem_cons_self ..)
    have hrest : ∀ x ∈ waiting, x.1 ≤ now := fun x hx => hpast x (List.mem_cons_of_mem _ hx)
    rw [← List.singleton_append, ← List.append_assoc]
    rcases a.cases_delay with ⟨s, rfl⟩ | ha
    · have hend : min (due (done ++ [(t, .delay s)])) lastTime ≤ (later now s).toNat := by
        rw [due_concat, endAfter, toNat_later]
        have := now.toNat_lt_size
        simp only [lastTime, UInt64.size] at hdue this ⊢
        omega
      by_cases hs : s = 0
      · subst hs
        have hnow : (later now 0).toNat ≤ now.toNat := by
          rw [toNat_later]
          exact Nat.min_le_left ..
        simpa [release] using ih hrest (htold.delay t 0) (Nat.le_trans hend hnow)
      · exact ⟨⟨done ++ [(t, .delay s)], waiting, rfl, by simp [release, hs],
          by simpa [release, hs] using htold.delay t s, by simpa [release, hs] using hend⟩,
          by simp [release, hs]⟩
    · have hdue' : min (due (done ++ [(t, a)])) lastTime ≤ now.toNat := by
        rw [due_concat, endAfter_of_not_delay _ t ha]
        exact hdue
      simpa [release_cons_of_not_delay now ha] using ih hrest (htold.action t ha hdue) hdue'

theorem punctual_dispatch {c : Controller} {now : UInt64} {log told new : Ledger}
    (hpast : ∀ x ∈ log ++ new, x.1 ≤ now) (hnew : new.map (·.2) = c.outbox.pending)
    (h : Punctual now log told c.held c.holdUntil) :
    Punctual now (log ++ new) (told ++ (Event.actions (c.dispatch now).2).map (now, ·))
      (c.dispatch now).1.held (c.dispatch now).1.holdUntil := by
  obtain ⟨done, rest, rfl, hheld, htold, hdue⟩ := h.split
  have hwaiting : c.held ++ c.outbox.pending = (rest ++ new).map (·.2) := by
    rw [List.map_append, hheld, hnew]
  by_cases hholding : c.isHolding now
  · obtain ⟨t, ht⟩ : ∃ t, c.holdUntil = some t := by
      cases hu : c.holdUntil with
      | none => simp [isHolding, hu] at hholding
      | some t => exact ⟨t, rfl⟩
    simp only [dispatch, hholding, if_true, Event.actions_nil, List.map_nil, List.append_nil]
    exact ⟨⟨done, rest ++ new, by simp, hwaiting.symm, htold, hdue⟩, fun _ => by simp [ht]⟩
  · have hnow : min (due done) lastTime ≤ now.toNat := by
      cases hu : c.holdUntil with
      | none => simpa [hu] using hdue
      | some t =>
        have ht : t ≤ now := by simpa [isHolding, hu] using hholding
        rw [hu] at hdue
        exact Nat.le_trans hdue ht
    have hrest : ∀ x ∈ rest ++ new, x.1 ≤ now := by
      intro x hx
      exact hpast x (by rw [List.append_assoc]; exact List.mem_append_right _ hx)
    have hrelease := punctual_release hrest htold hnow
    rw [← hwaiting, ← List.append_assoc] at hrelease
    simpa [dispatch, hholding] using hrelease

end Controller

/-- The time that a step sets the clock to. -/
def Step.time? : Step S → Option UInt64
  | .clock now => some now
  | _ => none

namespace Site
open Ledger

/-- All times on the clock, from the first one on. -/
def times (now : UInt64) (steps : List (Step S)) : List UInt64 := now :: steps.filterMap Step.time?

theorem times_concat (now : UInt64) (steps : List (Step S)) (a : Step S) :
    times now (steps ++ [a]) = times now steps ++ (Step.time? a).toList := by
  cases h : Step.time? a <;> simp [times, h]

variable [BlobStore S]

theorem now_step (w : Site S) (a : Step S) : (w.step a).1.now = (Step.time? a).getD w.now := by
  cases a <;> rfl

theorem now_mem_times (w : Site S) (steps : List (Step S)) :
    (w.run steps).now ∈ times w.now steps := by
  induction steps using List.reverseRecOn with
  | nil => exact List.mem_cons_self ..
  | append_singleton steps a ih =>
    rw [run_concat, now_step, times_concat]
    cases Step.time? a with
    | none => exact List.mem_append_left _ ih
    | some t => exact List.mem_append_right _ (List.mem_singleton_self t)

/-- In a step of a site whose clock does not go back, actions are told in time. -/
theorem punctual_step {w : Site S} (h : w.controller.Every Owner.IsStandard)
    (hempty : w.controller.outbox.pending = []) {log told : Ledger} (hpast : ∀ x ∈ log, x.1 ≤ w.now)
    (hw : Punctual w.now log told w.controller.held w.controller.holdUntil) {a : Step S}
    (hle : w.now ≤ (w.step a).1.now) :
    Punctual (w.step a).1.now (log ++ (w.pushes a).map (w.now, ·))
      (told ++ (Event.actions (w.step a).2).map (w.now, ·)) (w.step a).1.controller.held
      (w.step a).1.controller.holdUntil := by
  rcases step_flow h a with ⟨hpushes, hflow, hevents⟩ | ⟨hnow, hflow, hevents⟩ <;>
    simp only [Controller.flow, Prod.mk.injEq] at hflow
  · simpa [hpushes, hevents, hflow] using hw.mono hle
  · rw [hnow, hevents, hflow.1, hflow.2.1]
    refine Controller.punctual_dispatch (fun x hx => ?_) ?_ hw
    · rcases List.mem_append.mp hx with hx | hx
      · exact hpast x hx
      · obtain ⟨_, -, rfl⟩ := List.mem_map.mp hx
        exact Std.le_refl _
    · simp [Controller.loaded, hempty, Function.comp_def]

theorem punctual_run (settings : Settings) (now : UInt64) (store : S) (steps : List (Step S))
    (hclock : (times now steps).Pairwise (· ≤ ·)) :
    let w := start settings now store
    (∀ x ∈ w.accepted steps, x.1 ≤ (w.run steps).now) ∧
      Punctual (w.run steps).now (w.accepted steps) (w.emitted steps)
        (w.run steps).controller.held (w.run steps).controller.holdUntil := by
  intro w
  have hstandard := isStandard_run settings now store
  have hempty := pending_run settings now store
  induction steps using List.reverseRecOn with
  | nil =>
    refine ⟨by simp [accepted, trace], ⟨⟨[], [], rfl, rfl, .nil, by simp [due]⟩, fun h => ?_⟩⟩
    exact absurd rfl h
  | append_singleton steps a ih =>
    rw [times_concat, List.pairwise_append] at hclock
    obtain ⟨hsteps, -, hlast⟩ := hclock
    obtain ⟨hpast, hpunctual⟩ := ih hsteps
    have hle : (w.run steps).now ≤ ((w.run steps).step a).1.now := by
      rw [now_step]
      cases ht : Step.time? a with
      | none => exact Std.le_refl _
      | some t => exact hlast _ (now_mem_times w steps) t (by simp [ht])
    have haccepted : w.accepted (steps ++ [a]) = w.accepted steps ++ _ := trace_concat _ w steps a
    have hemitted : w.emitted (steps ++ [a]) = w.emitted steps ++ _ := trace_concat _ w steps a
    rw [haccepted, hemitted, run_concat]
    refine ⟨fun x hx => ?_, punctual_step (hstandard steps) (hempty steps) hpast hpunctual hle⟩
    rcases List.mem_append.mp hx with hx | hx
    · exact Std.le_trans (hpast x hx) hle
    · obtain ⟨_, -, rfl⟩ := List.mem_map.mp hx
      exact hle

/-- What is behind a delay goes out when that delay and those between have passed one after the
other, unless the clock ends before; and while actions are held, it is set until when. -/
theorem emitted_after_delays (settings : Settings) (now : UInt64) (store : S)
    (steps : List (Step S)) (hclock : (times now steps).Pairwise (· ≤ ·)) :
    let w := start settings now store
    (∀ before t s between u a after time b,
      w.accepted steps = before ++ (t, .delay s) :: between ++ (u, a) :: after → !a.isDelay →
      (w.emitted steps)[(proper (before ++ between)).length]? = some (time, b) →
        b = a ∧ min lastTime (t.toNat + s.toNat + seconds between) ≤ time.toNat) ∧
      ((w.run steps).controller.held ≠ [] → (w.run steps).controller.holdUntil.isSome) := by
  intro w
  obtain ⟨-, hpunctual⟩ := punctual_run settings now store steps hclock
  refine ⟨fun before t s between u a after time b haccepted ha hemitted => ?_,
    hpunctual.isSome_of_held⟩
  obtain ⟨done, rest, hlog, -, htold, -⟩ := hpunctual.split
  have hproper : proper (before ++ (t, .delay s) :: between) = proper (before ++ between) := by
    rw [proper_append, proper_append, ← List.singleton_append, proper_append, proper_delay,
      List.nil_append]
  rw [← hproper] at hemitted
  obtain ⟨rfl, hdue⟩ := htold.eq_of_getElem? (hlog.symm.trans haccepted) ha hemitted
  have hle := le_due before between t s
  exact ⟨rfl, by omega⟩

/-- Two delays of five and three seconds in front of one action, which waits for eight. -/
theorem emitted_after_two_delays :
    let steps : List (Step Store) := [.request (.execute .unit "DELAY(5); DELAY(3); RESTART"),
      .clock 15, .tick, .clock 18, .tick]
    let w := start .initial 10 Store.empty
    (times 10 steps).Pairwise (· ≤ ·) ∧
      w.accepted steps = [] ++ (10, .delay 5) :: [(10, .delay 3)] ++ (10, .restart) :: [] ∧
      w.emitted steps = [(18, .restart)] ∧ min lastTime (10 + 5 + 3) ≤ 18 := by
  intro steps w
  have hclock : (times 10 steps).Pairwise (· ≤ ·) := by decide
  have haccepted : w.accepted steps = [] ++ (10, .delay 5) :: [(10, .delay 3)] ++
      (10, .restart) :: [] := by
    decide +kernel
  have hemitted : w.emitted steps = [(18, .restart)] := by decide +kernel
  have h := emitted_after_delays .initial 10 Store.empty steps hclock
  have hrestart := h.1 [] 10 5 [(10, .delay 3)] 10 .restart [] 18 .restart haccepted rfl
    (by rw [hemitted]; rfl)
  exact ⟨hclock, haccepted, hemitted, hrestart.2⟩

end Site
end GridRules
