import GridRules.Proofs.Owners

/-! Owners are blind to the outbox. Their rules see the clock, their own readings and their own
tags; what other owners have put into the outbox may only keep their commands from succeeding. -/
namespace GridRules
variable {R : Type}

/-- What a report says apart from whether all commands succeeded. -/
structure Findings where
  matched : List Nat
  executed : List Nat
  tier : Option Int32
  errors : Nat
  deriving DecidableEq

def TickReport.findings (r : TickReport) : Findings := ⟨r.matched, r.executed, r.tier, r.errors⟩

def Findings.nothing : Findings := ⟨[], [], none, 0⟩

/-- Findings are told if some rule held or failed. -/
def Findings.told? (f : Findings) : Option Findings :=
  if f.matched.isEmpty ∧ f.errors = 0 then none else some f

namespace Variables

theorem scope_put {σ : Type} (vs : Variables σ) (name : String) (v : Variable σ) (state : σ) :
    Variables.scope (vs.put name v) state = fun other =>
      if other = name then some ⟨v.type, Source.now state v.source⟩ else vs.scope state other := by
  funext other
  rw [scope, Table.get?_put]
  split <;> rfl

/-- Variables that stand for the same values whatever is in the outbox. -/
def IsBlind (vs : Variables (Host R)) : Prop :=
  ∀ (h : Host R) (outbox : Outbox), vs.scope { h with outbox := outbox } = vs.scope h

theorem IsBlind.bindConstant {vs : Variables (Host R)} (h : vs.IsBlind) (name : String)
    (v : Value) : (vs.bindConstant name v).IsBlind := fun host outbox => by
  simp only [Variables.bindConstant, scope_put, h host outbox, Source.now]

theorem IsBlind.bindLive {vs : Variables (Host R)} (h : vs.IsBlind) (name : String)
    (type : ValueType) {look : Host R → Value}
    (hlook : ∀ (h : Host R) (outbox : Outbox), look { h with outbox := outbox } = look h) :
    (vs.bindLive name type look).IsBlind := fun host outbox => by
  simp only [Variables.bindLive, scope_put, h host outbox, Source.now, hlook]

theorem isBlind_initialVars : IsBlind (Engine.initialVars fun h : Host R => h.now) :=
  (IsBlind.bindLive (fun _ _ => rfl) _ _ fun _ _ => rfl).bindConstant _ _

end Variables

/-- A tick finds the same in two states if all names stand for the same in both and the time is
the same. -/
theorem Engine.reason_congr {σ : Type} (e : Engine σ) {state state' : σ}
    (hscope : e.scope state' = e.scope state) (hclock : e.clock state' = e.clock state) :
    (e.reason state').value.1.findings = (e.reason state).value.1.findings ∧
      (e.reason state').value.2.1 = (e.reason state).value.2.1 := by
  simp only [reason, Logged.value_bind, hscope, hclock]
  split
  · exact ⟨rfl, rfl⟩
  · exact ⟨rfl, rfl⟩

/-- Where no rule holds and none fails, nothing is executed either. -/
theorem Engine.findings_told?_getD {σ : Type} (e : Engine σ) (state : σ) :
    (e.reason state).value.1.findings.told?.getD .nothing = (e.reason state).value.1.findings := by
  rw [Findings.told?]
  split
  · rename_i hquiet
    obtain ⟨hmatched, herrors⟩ := hquiet
    rw [Option.getD_none]
    cases hmax : ((e.holding (e.scope state)).map (·.1.priority)).max? with
    | none =>
      have hreport : (e.reason state).value.1.findings =
          ⟨[], [], none, (e.evalWarnings (e.scope state)).length⟩ := by
        simp only [reason, Logged.value_bind, hmax]
        rfl
      rw [hreport] at herrors ⊢
      exact congrArg (Findings.mk [] [] none) herrors.symm
    | some tier =>
      have hholding : (e.reason state).value.1.findings.matched =
          (e.holding (e.scope state)).map (·.2) := by
        simp only [reason, Logged.value_bind, hmax]
        rfl
      rw [hholding, List.isEmpty_iff, List.map_eq_nil_iff] at hmatched
      simp [hmatched] at hmax
  · rw [Option.getD_some]

theorem Engine.reason_cases {σ : Type} (e : Engine σ) (state : σ) :
    (e.reason state).value.2.1 = e ∨
      (e.reason state).value.2.1 = e.bindConstant lastExecutionTime (.uint64 (e.clock state)) := by
  simp only [reason, Logged.value_bind]
  split
  · exact .inl rfl
  · exact .inr rfl

namespace Owner

structure IsBlind (o : Owner R) : Prop where
  vars : o.engine.vars.IsBlind
  clock (h : Host R) (outbox : Outbox) :
    o.engine.clock { h with outbox := outbox } = o.engine.clock h

theorem IsBlind.reason {o : Owner R} (h : o.IsBlind) (now : UInt64) (outbox : Outbox) :
    (o.reason now outbox).value.1.findings = (o.reason now .empty).value.1.findings ∧
      (o.reason now outbox).value.2.1 = (o.reason now .empty).value.2.1 := by
  obtain ⟨hfindings, hengine⟩ := o.engine.reason_congr (h.vars (o.host now .empty) outbox)
    (h.clock (o.host now .empty) outbox)
  exact ⟨hfindings, congrArg (fun e => { o with engine := e }) hengine⟩

theorem isBlind_lasting : Lasting fun _ {_} o => o.IsBlind where
  readings _ h := ⟨h.vars, h.clock⟩
  reason {_ _ o} now outbox h := by
    have hreason : (o.reason now outbox).value.2.1 =
        { o with engine := (o.engine.reason (o.host now outbox)).value.2.1 } := rfl
    rcases o.engine.reason_cases (o.host now outbox) with heq | heq <;> rw [hreason, heq]
    · exact h
    · exact ⟨h.vars.bindConstant _ _, h.clock⟩
  applyPatch {_ _ o} p h := by
    obtain ⟨rs, heq, -⟩ := o.applyPatch_frame p
    rw [heq]
    exact ⟨h.vars, h.clock⟩
  setTags _ h := ⟨h.vars, h.clock⟩

theorem isBlind_new (name : String) (own : Option UInt8) (readings : R) (maxRules : Nat)
    {bind : Variables (Host R) → Variables (Host R)}
    (hbind : ∀ vs : Variables (Host R), vs.IsBlind → (bind vs).IsBlind) :
    (new name own readings maxRules bind).IsBlind :=
  ⟨hbind _ Variables.isBlind_initialVars, fun _ _ => rfl⟩

end Owner

theorem isBlind_unit (maxRules : Nat) : (ControlUnit.new maxRules).IsBlind :=
  Owner.isBlind_new _ _ _ _ fun _ h =>
    (((h.bindLive _ _ fun _ _ => rfl).bindLive _ _ fun _ _ => rfl).bindLive _ _ fun _ _ =>
      rfl).bindLive _ _ fun _ _ => rfl

theorem isBlind_module (id : UInt8) (maxRules : Nat) : (Module.new id maxRules).IsBlind :=
  Owner.isBlind_new _ _ _ _ fun _ h =>
    ((((h.bindLive _ _ fun _ _ => rfl).bindLive _ _ fun _ _ => rfl).bindLive _ _ fun _ _ =>
      rfl).bindConstant _ _).bindLive _ _ fun _ _ => rfl

end GridRules
