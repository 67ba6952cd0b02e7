import GridRules.Table
import GridRules.Value

/-! Names and what they stand for. A variable is a constant or is read from the host's state each
time; a scope is what all names stand for in one state. A name that stands for nothing is read as
a literal. -/
namespace GridRules

/-- What a bound name stands for: a value and the type it is declared with. -/
structure Binding where
  type : ValueType
  raw : Value

abbrev Scope := String → Option Binding

namespace Scope

/-- The declared type. -/
def typeOf (s : Scope) (name : String) : ValueType :=
  match s name with
  | some b => b.type
  | none => .unknown

/-- The value of a bound name, converted to its declared type. -/
def value? (s : Scope) (name : String) : Option Value := (s name).bind fun b => b.raw.coerce b.type

def isBound (s : Scope) (name : String) : Bool := (s name).isSome

def read? {α : Type} (s : Scope) (r : Reading α) (name : String) : Option α :=
  if s.isBound name then (s.value? name).bind r.ofValue else r.literal name

def read {α : Type} (s : Scope) (r : Reading α) (name : String) : α :=
  (s.read? r name).getD r.fallback

end Scope

inductive Source (σ : Type) where
  | constant (v : Value)
  | live (look : σ → Value)

structure Variable (σ : Type) where
  type : ValueType
  source : Source σ

abbrev Variables (σ : Type) := Table (Variable σ)

namespace Variables
variable {σ : Type}

def bindConstant (vs : Variables σ) (name : String) (v : Value) : Variables σ :=
  vs.put name ⟨v.type, .constant v⟩

def bindLive (vs : Variables σ) (name : String) (type : ValueType) (look : σ → Value) :
    Variables σ :=
  vs.put name ⟨type, .live look⟩

def Source.now (state : σ) : Source σ → Value
  | .constant v => v
  | .live look => look state

/-- What the names stand for while the host is in `state`. -/
def scope (vs : Variables σ) (state : σ) : Scope := fun name =>
  (vs.get? name).map fun v => ⟨v.type, Source.now state v.source⟩

end Variables
end GridRules
