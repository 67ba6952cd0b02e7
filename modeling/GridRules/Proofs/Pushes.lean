import GridRules.Proofs.Owners
import GridRules.Proofs.PlainEngine

/-! Pushes: the actions that commands put into the outbox. Every standard function asks for at
most one action, and the outbox takes it or refuses it; nothing else writes to the outbox. -/
namespace GridRules
variable {R : Type}

def Target.own : Target → Option UInt8
  | .unit => none
  | .module id => some id

namespace Standard

/-- The action that a command asks for, or why it asks for none. -/
def asked (own : Option UInt8) (c : Command) (s : Scope) : Except Fault Action :=
  if c.name = "ON" then (switched own c s).map (.switch · true)
  else if c.name = "OFF" then (switched own c s).map (.switch · false)
  else if c.name = "NOTIFY" then
    .ok (.notify (" ".intercalate (c.arguments.map (Command.groupText s))))
  else if c.name = "RESTART" then .ok .restart
  else if c.name = "DELAY" then (delayed c s).map .delay
  else .error (.unknownFunction c.name)

/-- The functions of an owner: the standard ones and no others. -/
def library (own : Option UInt8) : Library (Host R) :=
  add own (·.outbox) (fun h q => { h with outbox := q }) Table.empty

theorem call_library (own : Option UInt8) (c : Command) (s : Scope) (h : Host R) :
    ((library own).call c s h).value =
      let (r, q) := (sendIf (asked own c s) h.outbox).value
      (r, { h with outbox := q }) := by
  simp only [Library.call, library, add, functions, List.foldl, Table.get?_put, Table.get?_empty,
    asked]
  -- no two of the names are equal, so the order in which the functions were put in is no matter
  by_cases hon : c.name = "ON"
  · simp [hon]
    rfl
  by_cases hoff : c.name = "OFF"
  · simp [hoff]
    rfl
  by_cases hnotify : c.name = "NOTIFY"
  · simp [hnotify]
    rfl
  by_cases hrestart : c.name = "RESTART"
  · simp [hrestart]
    rfl
  by_cases hdelay : c.name = "DELAY"
  · simp [hdelay]
    rfl
  simp [hon, hoff, hnotify, hrestart, hdelay]
  exact ⟨rfl, rfl⟩

end Standard

namespace Call

/-- The action that a call put into the outbox: the one it asked for, unless it was refused. -/
def pushed (own : Option UInt8) (vars : Variables (Host R)) (c : Call (Host R)) : Option Action :=
  (Standard.asked own c.command (vars.scope c.before)).toOption.filter fun a =>
    (c.before.outbox.push? a).isSome

/-- A call succeeds if it has pushed an action, which then stands behind all that waited before.
Nothing else changes. -/
structure IsServed (own : Option UInt8) (vars : Variables (Host R)) (c : Call (Host R)) : Prop where
  after_eq : c.after =
    { c.before with outbox := ⟨c.before.outbox.pending ++ (c.pushed own vars).toList⟩ }
  succeeded_eq : c.succeeded = (c.pushed own vars).isSome

theorem isServed_call (own : Option UInt8) (vars : Variables (Host R)) (h : Host R)
    (c : Command) :
    let (outcome, after) := ((Standard.library own).call c (vars.scope h) h).value
    IsServed own vars ⟨c, h, outcome, after⟩ := by
  rw [Standard.call_library]
  cases hasked : Standard.asked own c (vars.scope h) with
  | error e =>
    refine ⟨?_, ?_⟩ <;> simp [pushed, hasked, Except.toOption, Standard.sendIf, succeeded]
  | ok a =>
    cases hpush : h.outbox.push? a with
    | none =>
      refine ⟨?_, ?_⟩ <;> simp [pushed, hasked, hpush, Except.toOption, Option.filter,
        Standard.sendIf, Standard.send, succeeded]
    | some q =>
      obtain rfl : q = ⟨h.outbox.pending ++ [a]⟩ :=
        congrArg Outbox.mk (Outbox.push?_eq_some_iff.mp hpush).2
      refine ⟨?_, ?_⟩ <;> simp [pushed, hasked, hpush, Except.toOption, Option.filter,
        Standard.sendIf, Standard.send, succeeded]

/-- Calls in a row leave in the outbox what was there and then what each of them has put in. -/
theorem final_sequence (own : Option UInt8) (vars : Variables (Host R)) (h : Host R)
    (cs : List Command) :
    final h (sequence (Standard.library own) vars h cs) =
      { h with outbox := ⟨h.outbox.pending ++
        (sequence (Standard.library own) vars h cs).filterMap (pushed own vars)⟩ } := by
  induction cs generalizing h with
  | nil => simp [sequence, final]
  | cons c cs ih =>
    have hc := (isServed_call own vars h c).after_eq
    rw [sequence, final_cons, ih, List.filterMap_cons]
    dsimp only at hc ⊢
    cases hp : pushed own vars _ <;> rw [hc, hp] <;> simp

end Call

/-! The commands that are run by a tick, by a command text, and by one with a condition. -/
namespace Engine
variable {σ : Type}

def dueCommands (e : Engine σ) (state : σ) : List Command := e.plain.due (e.scope state)

def textCommands (text : String) : List Command := (Command.parse text).toOption.getD []

def guardedCommands (e : Engine σ) (expression command : String) (state : σ) : List Command :=
  match Rule.parse ⟨0, expression, command⟩ with
  | .ok r => if r.holds (e.scope state) matches .ok true then r.commands else []
  | .error _ => []

def calls (e : Engine σ) (state : σ) (cs : List Command) : List (Call σ) :=
  Call.sequence e.library e.vars state cs

theorem reason_final (e : Engine σ) (state : σ) :
    (e.reason state).value.2.2 = Call.final state (e.calls state (e.dueCommands state)) :=
  congrArg (·.2.2) (reason_plain e state)

theorem execute_final (e : Engine σ) (text : String) (state : σ) :
    (e.execute text state).value.2 = Call.final state (e.calls state (textCommands text)) := by
  rw [execute, textCommands]
  cases Command.parse text with
  | error f => rfl
  | ok cs => simp [Call.runAll_eq_sequence, calls, Except.toOption]

theorem executeIf_final (e : Engine σ) (expression command : String) (state : σ) :
    (e.executeIf expression command state).value.2 =
      Call.final state (e.calls state (e.guardedCommands expression command state)) := by
  rw [executeIf, guardedCommands]
  cases Rule.parse ⟨0, expression, command⟩ with
  | error f => rfl
  | ok r =>
    rcases h : r.holds (e.scope state) with f | (_ | _)
    · simp [h, calls, Call.sequence, Call.final]
    · simp [h, calls, Call.sequence, Call.final]
    · simp [h, calls, Call.runAll_eq_sequence]

end Engine

namespace Owner

/-- An owner has the standard functions and no others. -/
def IsStandard (t : Target) {R : Type} (o : Owner R) : Prop :=
  o.engine.library = Standard.library t.own

theorem isStandard_lasting : Lasting IsStandard :=
  .of_frame (fun _ h => h) (fun _ h => h) (fun _ _ h => h) fun _ h => h

/-- The actions that commands put into the outbox when they are run one after the other. -/
def pushes (o : Owner R) (t : Target) (h : Host R) (cs : List Command) : List Action :=
  (o.engine.calls h cs).filterMap (Call.pushed t.own o.engine.vars)

variable {t : Target} {o : Owner R}

theorem IsStandard.pending_final (ho : o.IsStandard t) (h : Host R) (cs : List Command) :
    (Call.final h (o.engine.calls h cs)).outbox.pending =
      h.outbox.pending ++ o.pushes t h cs := by
  rw [pushes, Engine.calls, show o.engine.library = _ from ho]
  exact congrArg (·.outbox.pending) (Call.final_sequence t.own o.engine.vars h cs)

def tickPushes (o : Owner R) (t : Target) (now : UInt64) (outbox : Outbox) : List Action :=
  o.pushes t (o.host now outbox) (o.engine.dueCommands (o.host now outbox))

theorem IsStandard.pending_reason (ho : o.IsStandard t) (now : UInt64) (outbox : Outbox) :
    (o.reason now outbox).value.2.2.pending = outbox.pending ++ o.tickPushes t now outbox := by
  have hfinal := o.engine.reason_final (o.host now outbox)
  exact (congrArg (·.outbox.pending) hfinal).trans (ho.pending_final ..)

theorem IsStandard.pending_execute (ho : o.IsStandard t) (text : String) (now : UInt64)
    (outbox : Outbox) :
    (o.execute text now outbox).value.2.pending =
      outbox.pending ++ o.pushes t (o.host now outbox) (Engine.textCommands text) := by
  have hfinal := o.engine.execute_final text (o.host now outbox)
  exact (congrArg (·.outbox.pending) hfinal).trans (ho.pending_final ..)

theorem IsStandard.pending_executeIf (ho : o.IsStandard t) (expression command : String)
    (now : UInt64) (outbox : Outbox) :
    (o.executeIf expression command now outbox).value.2.pending =
      outbox.pending ++ o.pushes t (o.host now outbox)
        (o.engine.guardedCommands expression command (o.host now outbox)) := by
  have hfinal := o.engine.executeIf_final expression command (o.host now outbox)
  exact (congrArg (·.outbox.pending) hfinal).trans (ho.pending_final ..)

end Owner

/-! The pushes of a whole step. -/
namespace Controller

def modulePushes (now : UInt64) : List Module → Outbox → List Action
  | [], _ => []
  | m :: ms, outbox =>
    m.tickPushes m.target now outbox ++ modulePushes now ms (m.reason now outbox).value.2.2

/-- The unit's commands run first. -/
def tickPushes (c : Controller) (now : UInt64) : List Action :=
  c.begun.unit.tickPushes .unit now c.outbox ++
    modulePushes now c.modules (c.begun.unit.reason now c.outbox).value.2.2

/-- What one owner's commands push, if there is such an owner. -/
def ownerPushes (c : Controller) (now : UInt64) (t : Target)
    (commands : {R : Type} → Owner R → Host R → List Command) : List Action :=
  match t with
  | .unit => c.unit.pushes t (c.unit.host now c.outbox) (commands c.unit (c.unit.host now c.outbox))
  | .module id => match c.module? id with
    | none => []
    | some m => m.pushes t (m.host now c.outbox) (commands m (m.host now c.outbox))

def requestPushes (c : Controller) (now : UInt64) : Request → List Action
  | .execute t command => c.ownerPushes now t fun _ _ => Engine.textCommands command
  | .executeIf t expression command =>
    c.ownerPushes now t fun o h => o.engine.guardedCommands expression command h
  | _ => []

theorem pending_reasonModules {ms : List Module} (h : ∀ m ∈ ms, m.IsStandard m.target)
    (now : UInt64) (outbox : Outbox) :
    (reasonModules now ms outbox).value.2.2.pending =
      outbox.pending ++ modulePushes now ms outbox := by
  induction ms generalizing outbox with
  | nil => simp [reasonModules, modulePushes]
  | cons m ms ih =>
    have hm := (h m (List.mem_cons_self ..)).pending_reason now outbox
    have hms := ih (fun m hm => h m (List.mem_cons_of_mem _ hm)) (m.reason now outbox).value.2.2
    simp only [reasonModules, Logged.value_bind, Logged.value_pure, modulePushes]
    rw [hms, hm, List.append_assoc]

end Controller
end GridRules
