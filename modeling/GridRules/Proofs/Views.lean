import GridRules.Proofs.Blind
import GridRules.Proofs.PlainEngine

/-! Views. The conditions of an owner see the time, the owner's readings and tags, and when its
rules were last executed. What an owner finds in a tick are the places of the rules that hold in
its view and the number of those that fail there. -/
namespace GridRules
variable {S R : Type}

/-- The scope in which these names stand for these values. -/
def Scope.ofValues (values : List (String × Value)) : Scope := fun name =>
  (values.lookup name).map fun v => ⟨v.type, v⟩

theorem Scope.ofValues_cons (name other : String) (v : Value) (values : List (String × Value)) :
    ofValues ((name, v) :: values) other =
      if other = name then some ⟨v.type, v⟩ else ofValues values other := by
  by_cases h : other = name
  · simp [ofValues, h]
  · simp [ofValues, h, Table.lookup_cons_ne h]

/-! What is seen. -/

namespace Engine

/-- When rules of the engine were last executed, as its rules see it. -/
def lastTime {σ : Type} (e : Engine σ) : UInt64 :=
  match e.vars.get? lastExecutionTime with
  | some ⟨_, .constant (.uint64 t)⟩ => t
  | _ => 0

/-- What the rules of an engine see if all other names are these. -/
def view {σ : Type} (e : Engine σ) (names : List (String × Value)) : Scope :=
  .ofValues ((lastExecutionTime, .uint64 e.lastTime) :: names)

/-- All that the rules of an engine see is the time and the readings and tags of its owner. -/
def Shows (e : Engine (Host R)) (names : UInt64 → R → TagList → List (String × Value)) : Prop :=
  ∀ h, e.scope h = e.view (names h.now h.readings h.tags)

theorem Shows.of_constant {e : Engine (Host R)}
    {names : UInt64 → R → TagList → List (String × Value)} {t : UInt64}
    (hlast : e.vars.get? lastExecutionTime = some ⟨.uint64, .constant (.uint64 t)⟩)
    (hnames : ∀ h other, other ≠ lastExecutionTime →
      e.scope h other = Scope.ofValues (names h.now h.readings h.tags) other) : e.Shows names := by
  intro h
  have htime : e.lastTime = t := by rw [lastTime, hlast]
  funext other
  rw [view, htime, Scope.ofValues_cons]
  split
  · rename_i hother
    rw [hother, scope, Variables.scope, hlast]
    rfl
  · rename_i hother
    exact hnames h other hother

/-- The engine keeps showing the same when the time of an execution is noted. -/
theorem Shows.stamped {e : Engine (Host R)} {names : UInt64 → R → TagList → List (String × Value)}
    (hshows : e.Shows names) (t : UInt64) :
    (e.bindConstant lastExecutionTime (.uint64 t)).Shows names := by
  refine of_constant ((Table.get?_put ..).trans (if_pos rfl)) fun h other hother => ?_
  have hscope : (e.bindConstant lastExecutionTime (.uint64 t)).scope h other = e.scope h other :=
    (congrFun (Variables.scope_put ..) other).trans (if_neg hother)
  rw [hscope, hshows h, view, Scope.ofValues_cons, if_neg hother]

/-- What an engine finds if its rules are judged in a scope. -/
def findings {σ : Type} (e : Engine σ) (s : Scope) : Findings :=
  ⟨e.plain.matched s, e.plain.executed s, e.plain.tier s,
    e.sources.countP (PlainEngine.fails s)⟩

theorem findings_reason {σ : Type} (e : Engine σ) (state : σ) :
    (e.reason state).value.1.findings = e.findings (e.scope state) :=
  congrArg (·.1.findings) (e.reason_plain state)

end Engine

def ControlUnit.names (now : UInt64) (r : UnitReadings) (tags : TagList) : List (String × Value) :=
  [("UTL", .array tags.toList), ("MODULES_ONLINE", .uint64 r.modulesOnline),
    ("GRID", .bool r.gridUp), ("TOTAL_POWER", .double r.totalPower),
    (Engine.currentTime, .uint64 now)]

def Module.names (id : UInt8) (now : UInt64) (r : ModuleReadings) (tags : TagList) :
    List (String × Value) :=
  [("MTL", .array tags.toList), ("MODULE_ID", .int (Int64.ofNat id.toNat)),
    ("ONLINE", .bool r.online), ("IS_ON", .bool r.isOn), ("POWER", .double r.power),
    (Engine.currentTime, .uint64 now)]

def ControlUnit.view (u : ControlUnit) (now : UInt64) : Scope :=
  u.engine.view (ControlUnit.names now u.readings u.tags)

def Module.view (m : Module) (now : UInt64) : Scope :=
  m.engine.view (Module.names m.id now m.readings m.tags)

namespace Owner

/-- What the rules of the unit see, and what those of a module. -/
inductive Sees : Target → {R : Type} → Owner R → Prop
  | unit {u : ControlUnit} (h : u.engine.Shows ControlUnit.names) : Sees .unit u
  | module {id : UInt8} {m : Module} (h : m.engine.Shows (Module.names id)) : Sees (.module id) m

theorem Sees.of_engine {t : Target} {o o' : Owner R} (h : o.Sees t)
    (hengine : ∀ names, o.engine.Shows names → o'.engine.Shows names) : o'.Sees t := by
  cases h with
  | unit h => exact .unit (hengine _ h)
  | module h => exact .module (hengine _ h)

theorem sees_lasting : Owner.Lasting Sees where
  readings _ h := h.of_engine fun _ h => h
  reason {_ _ o} now outbox h := by
    have hreason : (o.reason now outbox).value.2.1.engine =
        (o.engine.reason (o.host now outbox)).value.2.1 := rfl
    refine h.of_engine fun names hnames => ?_
    rcases o.engine.reason_cases (o.host now outbox) with heq | heq <;> rw [hreason, heq]
    · exact hnames
    · exact hnames.stamped _
  applyPatch {_ _ o} p h := by
    obtain ⟨rs, heq, -⟩ := o.applyPatch_frame p
    rw [heq]
    exact h.of_engine fun _ h => h
  setTags _ h := h.of_engine fun _ h => h

/-- What an owner finds in a tick is what its rules come to in the owner's view. -/
theorem findings_reason (o : Owner R) (now : UInt64) (outbox : Outbox) :
    (o.reason now outbox).value.1.findings =
      o.engine.findings (o.engine.scope (o.host now outbox)) :=
  o.engine.findings_reason _

end Owner

theorem sees_unit (maxRules : Nat) : (ControlUnit.new maxRules).Sees .unit := by
  refine .unit (.of_constant (t := 0) ?_ fun h other hother => ?_)
  · simp [ControlUnit.new, Owner.new, Engine.new, Engine.initialVars, Engine.lastExecutionTime,
      Variables.bindLive, Variables.bindConstant, Value.type]
  · simp only [ControlUnit.new, Owner.new, Engine.new, Engine.scope, Engine.initialVars,
      Variables.bindLive, Variables.bindConstant, Variables.scope_put, Variables.Source.now,
      ControlUnit.names, Scope.ofValues_cons, Value.type, if_neg hother]
    rfl

theorem sees_module (id : UInt8) (maxRules : Nat) : (Module.new id maxRules).Sees (.module id) := by
  refine .module (.of_constant (t := 0) ?_ fun h other hother => ?_)
  · simp [Module.new, Owner.new, Engine.new, Engine.initialVars, Engine.lastExecutionTime,
      Variables.bindLive, Variables.bindConstant, Value.type]
  · simp only [Module.new, Owner.new, Engine.new, Engine.scope, Engine.initialVars,
      Variables.bindLive, Variables.bindConstant, Variables.scope_put, Variables.Source.now,
      Module.names, Scope.ofValues_cons, Value.type, if_neg hother]
    rfl

theorem ControlUnit.findings_reason {u : ControlUnit} (h : u.Sees .unit) (now : UInt64)
    (outbox : Outbox) :
    (u.reason now outbox).value.1.findings = u.engine.findings (u.view now) := by
  cases h with
  | unit h => exact (Owner.findings_reason ..).trans (congrArg _ (h _))

theorem Module.findings_reason {m : Module} (h : m.Sees m.target) (now : UInt64)
    (outbox : Outbox) :
    (m.reason now outbox).value.1.findings = m.engine.findings (m.view now) := by
  cases h with
  | module h => exact (Owner.findings_reason ..).trans (congrArg _ (h _))

namespace Site
variable [BlobStore S]

theorem every_sees_run (settings : Settings) (now : UInt64) (store : S) (steps : List (Step S)) :
    ((start settings now store).run steps).controller.Every Owner.Sees :=
  every_run Owner.sees_lasting (sees_unit _) sees_module steps

end Site
end GridRules
