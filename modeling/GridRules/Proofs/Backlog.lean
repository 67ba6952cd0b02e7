import GridRules.Proofs.Intake
import GridRules.Proofs.Ledger

/-! The backlog of a controller: the actions that it has taken and not told yet. The outbox never
has more than its depth, and a command that finds it full fails. What a delay holds back has left
the outbox and has no bound; it grows by a full outbox at most each time that actions are sent
out. -/
namespace GridRules
variable {S : Type}

/-! The depth of the outbox. -/

namespace Standard

theorem value_send (a : Action) (q : Outbox) :
    (send a q).value =
      if q.pending.length < Outbox.depth then (.ok true, ⟨q.pending ++ [a]⟩)
      else (.ok false, q) := by
  by_cases hroom : q.pending.length < Outbox.depth <;> simp [send, Outbox.push?, hroom]

end Standard

/-- A command fails without any trace if it asks for no action, or if the outbox is full. -/
def Owner.FailsIfFull (t : Target) {R : Type} (o : Owner R) : Prop :=
  ∀ (c : Command) (s : Scope) (h : Host R), (o.engine.library.call c s h).value =
    match Standard.asked t.own c s with
    | .error e => (.error e, h)
    | .ok a =>
      if h.outbox.pending.length < Outbox.depth then
        (.ok true, { h with outbox := ⟨h.outbox.pending ++ [a]⟩ })
      else (.ok false, h)

theorem Owner.IsStandard.failsIfFull {t : Target} {R : Type} {o : Owner R} (ho : o.IsStandard t) :
    o.FailsIfFull t := by
  intro c s h
  rw [show o.engine.library = _ from ho, Standard.call_library]
  cases Standard.asked t.own c s with
  | error e => rfl
  | ok a =>
    simp only [Standard.sendIf, Standard.value_send]
    split <;> rfl

namespace Owner
variable {t : Target} {R : Type} {o : Owner R}

theorem IsStandard.length_pushes (ho : o.IsStandard t) {h : Host R}
    (hfits : h.outbox.pending.length ≤ Outbox.depth) (cs : List Command) :
    (h.outbox.pending ++ o.pushes t h cs).length ≤ Outbox.depth := by
  rw [← ho.pending_final, Engine.calls, show o.engine.library = _ from ho]
  exact (Call.length_sequence t.own o.engine.vars hfits cs).2

end Owner

namespace Controller

theorem length_modulePushes {ms : List Module} (h : ∀ m ∈ ms, m.IsStandard m.target) (now : UInt64)
    {outbox : Outbox} (hfits : outbox.pending.length ≤ Outbox.depth) :
    (outbox.pending ++ modulePushes now ms outbox).length ≤ Outbox.depth := by
  induction ms generalizing outbox with
  | nil => simpa [modulePushes] using hfits
  | cons m ms ih =>
    have hm := h m (List.mem_cons_self ..)
    have hpending := hm.pending_reason now outbox
    have hnext := hm.length_pushes (h := m.host now outbox) hfits
      (m.engine.dueCommands (m.host now outbox))
    rw [modulePushes, ← List.append_assoc, ← hpending]
    refine ih (fun m hm => h m (List.mem_cons_of_mem _ hm)) ?_
    rw [hpending]
    exact hnext

variable {c : Controller}

theorem length_tickPushes (h : c.Every Owner.IsStandard) (now : UInt64)
    (hfits : c.outbox.pending.length ≤ Outbox.depth) :
    (c.outbox.pending ++ c.tickPushes now).length ≤ Outbox.depth := by
  have hunit : c.begun.unit.IsStandard .unit := h.1
  have hpending := hunit.pending_reason now c.outbox
  have hnext := hunit.length_pushes (h := c.begun.unit.host now c.outbox) hfits
    (c.begun.unit.engine.dueCommands (c.begun.unit.host now c.outbox))
  rw [tickPushes, ← List.append_assoc, ← hpending]
  refine length_modulePushes h.2 now ?_
  rw [hpending]
  exact hnext

theorem length_ownerPushes (h : c.Every Owner.IsStandard) (now : UInt64) (t : Target)
    (hfits : c.outbox.pending.length ≤ Outbox.depth)
    (commands : {R : Type} → Owner R → Host R → List Command) :
    (c.outbox.pending ++ c.ownerPushes now t commands).length ≤ Outbox.depth := by
  cases t with
  | unit => exact Owner.IsStandard.length_pushes (h := c.unit.host now c.outbox) h.1 hfits _
  | module id =>
    simp only [ownerPushes]
    cases hm : c.module? id with
    | none => simpa using hfits
    | some m =>
      obtain ⟨hmem, rfl⟩ := mem_of_module?_eq_some hm
      exact Owner.IsStandard.length_pushes (h := m.host now c.outbox) (h.2 m hmem) hfits _

end Controller

/-- The steps that run commands, at whose end actions are sent out. -/
def Step.sendsOut : Step S → Bool
  | .tick | .request (.execute _ _) | .request (.executeIf _ _ _) => true
  | _ => false

namespace Site
variable [BlobStore S] {w : Site S}

omit [BlobStore S] in
/-- In no step does the outbox take more than there is room for. -/
theorem length_pushes (h : w.controller.Every Owner.IsStandard)
    (hfits : w.controller.outbox.pending.length ≤ Outbox.depth) (a : Step S) :
    (w.controller.outbox.pending ++ w.pushes a).length ≤ Outbox.depth := by
  have hnone : (w.controller.outbox.pending ++ []).length ≤ Outbox.depth := by simpa using hfits
  cases a with
  | tick => exact Controller.length_tickPushes h w.now hfits
  | request q =>
    cases q with
    | execute t command =>
      exact Controller.length_ownerPushes h w.now t hfits fun _ _ => Engine.textCommands command
    | executeIf t expression command =>
      exact Controller.length_ownerPushes h w.now t hfits fun o h =>
        o.engine.guardedCommands expression command h
    | _ => exact hnone
  | _ => exact hnone

omit [BlobStore S] in
theorem pushes_of_not_sendsOut {a : Step S} (ha : ¬ a.sendsOut) : w.pushes a = [] := by
  cases a with
  | tick => exact (ha rfl).elim
  | request q =>
    cases q with
    | execute t command => exact (ha rfl).elim
    | executeIf t expression command => exact (ha rfl).elim
    | _ => rfl
  | _ => rfl

end Site

/-! What a delay holds back. -/

namespace Controller

/-- Without a delay nothing is held. -/
def HeldByDelay (c : Controller) : Prop := c.holdUntil = none → c.held = []

theorem length_release (now : UInt64) (waiting : List Action) :
    (release now waiting).2.1.length ≤ waiting.length ∧
      ((release now waiting).2.2 = none → (release now waiting).2.1 = []) := by
  induction waiting with
  | nil => simp [release]
  | cons a rest ih =>
    cases a with
    | delay seconds =>
      by_cases hs : seconds = 0
      · simpa [release, hs] using ⟨Nat.le_succ_of_le ih.1, ih.2⟩
      · simp [release, hs]
    | switch module on | notify message | restart =>
      simpa [release] using ⟨Nat.le_succ_of_le ih.1, ih.2⟩

theorem dispatch_of_isHolding {c : Controller} {now : UInt64} (h : c.isHolding now) :
    c.dispatch now = ({ c with held := c.held ++ c.outbox.pending, outbox := .empty }, []) := by
  rw [dispatch, if_pos h]

theorem length_dispatch (c : Controller) (now : UInt64) :
    (c.dispatch now).1.held.length ≤ (c.held ++ c.outbox.pending).length ∧
      (c.dispatch now).1.HeldByDelay := by
  rw [dispatch]
  split
  · rename_i hholding
    refine ⟨Nat.le_refl _, fun hnone => ?_⟩
    simp [isHolding, show c.holdUntil = none from hnone] at hholding
  · exact length_release now (c.held ++ c.outbox.pending)

end Controller

namespace Site
variable [BlobStore S] {w : Site S}

theorem held_step (h : w.controller.Every Owner.IsStandard)
    (hempty : w.controller.outbox.pending = []) (hheld : w.controller.HeldByDelay) (a : Step S) :
    (w.step a).1.controller.held.length ≤ w.controller.held.length + (w.pushes a).length ∧
      (w.step a).1.controller.HeldByDelay := by
  rcases step_flow h a with ⟨-, hflow, -⟩ | ⟨-, hflow, -⟩ <;>
    simp only [Controller.flow, Prod.mk.injEq] at hflow <;>
    rw [Controller.HeldByDelay, hflow.1, hflow.2.1]
  · exact ⟨Nat.le_add_right .., hheld⟩
  · simpa [Controller.loaded, hempty, Controller.HeldByDelay] using
      (w.controller.loaded (w.pushes a)).length_dispatch w.now

theorem heldByDelay_run (settings : Settings) (now : UInt64) (store : S) (steps : List (Step S)) :
    ((start settings now store).run steps).controller.HeldByDelay := by
  induction steps using List.reverseRecOn with
  | nil => exact fun _ => rfl
  | append_singleton steps a ih =>
    rw [run_concat]
    exact (held_step (isStandard_run settings now store steps)
      (pending_run settings now store steps) ih a).2

omit [BlobStore S] in
theorem length_pushes_le (h : w.controller.Every Owner.IsStandard)
    (hempty : w.controller.outbox.pending = []) (a : Step S) :
    (w.pushes a).length ≤ Outbox.depth * [a].countP Step.sendsOut := by
  by_cases ha : a.sendsOut
  · have hroom := length_pushes h (by simp [hempty]) a
    simpa [ha, hempty] using hroom
  · simp [pushes_of_not_sendsOut ha]

/-- From a state on in which no delay runs, each time that actions are sent out adds at most a full
outbox to what is held. -/
theorem length_held_run (settings : Settings) (now : UInt64) (store : S)
    (before after : List (Step S))
    (hfree : ((start settings now store).run before).controller.holdUntil = none) :
    ((start settings now store).run (before ++ after)).controller.held.length ≤
      Outbox.depth * after.countP Step.sendsOut := by
  have hstandard := isStandard_run settings now store
  have hempty := pending_run settings now store
  induction after using List.reverseRecOn with
  | nil =>
    have hnone := heldByDelay_run settings now store before hfree
    simp [hnone]
  | append_singleton after a ih =>
    have hstep := (held_step (hstandard (before ++ after)) (hempty _)
      (heldByDelay_run settings now store _) a).1
    have hpushes := length_pushes_le (hstandard (before ++ after)) (hempty _) a
    simp only [← List.append_assoc, run_concat, List.countP_append, Nat.mul_add]
    omega

end Site

/-- The number of actions that were taken and are not told yet. -/
def Controller.backlog (c : Controller) : Nat := c.outbox.pending.length + c.held.length

namespace Site
variable [BlobStore S]

/-- In every state of a run the outbox is empty, no step to come puts more into it than its depth,
and a command fails if that is reached. The backlog, which is what a delay holds back, is no more
than a full outbox for each time that actions were sent out since no delay was running. -/
theorem backlog_run (settings : Settings) (now : UInt64) (store : S) (before after : List (Step S))
    (hfree : ((start settings now store).run before).controller.holdUntil = none) :
    let w := (start settings now store).run (before ++ after)
    (w.controller.outbox.pending = [] ∧ (∀ a, (w.pushes a).length ≤ Outbox.depth) ∧
      w.controller.Every Owner.FailsIfFull) ∧
      w.controller.backlog ≤ Outbox.depth * after.countP Step.sendsOut := by
  have hstandard := isStandard_run settings now store
  have hempty := pending_run settings now store
  intro w
  refine ⟨⟨hempty _, fun a => ?_, ?_⟩, ?_⟩
  · have hroom := length_pushes (hstandard (before ++ after)) (by simp [hempty]) a
    simpa [hempty] using hroom
  · exact ⟨(hstandard _).1.failsIfFull, fun m hm => ((hstandard _).2 m hm).failsIfFull⟩
  · rw [Controller.backlog, hempty, List.length_nil, Nat.zero_add]
    exact length_held_run settings now store before after hfree

/-- Once a first delay is over, a request and a tick leave at most two full outboxes. -/
theorem backlog_run_after_delay :
    let w := start .initial 0 Store.empty
    let before : List (Step Store) :=
      [.request (.execute .unit "DELAY(5); RESTART"), .clock 5, .tick]
    let after : List (Step Store) :=
      [.request (.execute .unit "DELAY(60); RESTART"), .clock 10, .tick]
    (w.run before).controller.holdUntil = none ∧
      (w.run (before ++ after)).controller.backlog ≤ 64 := by
  intro w before after
  have hfree : (w.run before).controller.holdUntil = none := by decide +kernel
  exact ⟨hfree, (backlog_run .initial 0 Store.empty before after hfree).2⟩

/-- A delay of one minute with `n` actions behind it, and the unit as it is made. -/
structure Delayed (w : Site Store) (n : Nat) : Prop where
  now : w.now = 0
  unit : w.controller.unit = (Controller.new .initial 0).unit
  holdUntil : w.controller.holdUntil = some 60
  outbox : w.controller.outbox = .empty
  length_held : w.controller.held.length = n

theorem Delayed.step {w : Site Store} {n : Nat} (h : w.Delayed n) :
    (w.step (.request (.execute .unit "RESTART"))).1.Delayed (n + 1) := by
  have hpushed : ((Controller.new .initial 0).unit.execute "RESTART" 0 .empty).value.2 =
      ⟨[.restart]⟩ := congrArg Outbox.mk (by decide +kernel)
  let d : Controller := { w.controller with outbox := ⟨[.restart]⟩ }
  have hran : (w.controller.ranOn .unit fun o outbox => o.execute "RESTART" w.now outbox) = d := by
    simp only [Controller.ranOn, Controller.withOwner, Logged.value_bind, Logged.value_pure,
      Option.getD_some, h.now, h.unit, h.outbox, hpushed, d]
  have hholding : d.isHolding w.now := by
    rw [Controller.isHolding, show d.holdUntil = some 60 from h.holdUntil, h.now]
    rfl
  have hstep : (w.step (.request (.execute .unit "RESTART"))).1.controller =
      { d with held := d.held ++ [.restart], outbox := .empty } := by
    calc
      _ = ((w.controller.ranOn .unit fun o outbox => o.execute "RESTART" w.now outbox).dispatch
            w.now).1 := rfl
      _ = (d.dispatch w.now).1 := by rw [hran]
      _ = _ := by rw [Controller.dispatch_of_isHolding hholding]
  refine ⟨h.now, ?_, ?_, ?_, ?_⟩ <;> rw [hstep]
  · exact h.unit
  · exact h.holdUntil
  · simp [d, h.length_held]

/-- A delay of one minute with an action behind it, and then `n` more, one by one. -/
def delaySteps (n : Nat) : List (Step Store) :=
  .request (.execute .unit "DELAY(60); RESTART") ::
    List.replicate n (.request (.execute .unit "RESTART"))

theorem delayed_run (n : Nat) :
    ((start .initial 0 Store.empty).run (delaySteps n)).Delayed (n + 1) := by
  induction n with
  | zero => refine ⟨rfl, rfl, ?_, rfl, ?_⟩ <;> decide +kernel
  | succ n ih =>
    have hsteps : delaySteps (n + 1) =
        delaySteps n ++ [.request (.execute .unit "RESTART")] := by
      rw [delaySteps, List.replicate_succ', ← List.cons_append]
      rfl
    rw [hsteps, run_concat]
    exact ih.step

/-- No number bounds the backlog. -/
theorem backlog_delaySteps (n : Nat) :
    ((start .initial 0 Store.empty).run (delaySteps n)).controller.backlog = n + 1 := by
  have h := delayed_run n
  rw [Controller.backlog, h.outbox, h.length_held]
  exact Nat.zero_add _

/-- The last of 32 more actions is taken, too, and then the backlog is over the depth. -/
theorem depth_lt_backlog :
    Outbox.depth < ((start .initial 0 Store.empty).run (delaySteps 32)).controller.backlog := by
  rw [backlog_delaySteps]
  exact Nat.lt_succ_self Outbox.depth

end Site
end GridRules
