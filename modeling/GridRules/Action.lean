/-! What rules ask the controller to do, and the bounded outbox in which it waits. -/
namespace GridRules

inductive Action where
  | switch (module : UInt8) (on : Bool)
  | notify (message : String)
  | restart
  /-- Holds back the actions behind it. -/
  | delay (seconds : UInt32)
  deriving DecidableEq

structure Outbox where
  pending : List Action

namespace Outbox

def depth : Nat := 32

def empty : Outbox := ⟨[]⟩

/-- The outbox with one action more, unless it is full. -/
def push? (q : Outbox) (a : Action) : Option Outbox :=
  if q.pending.length < depth then some ⟨q.pending ++ [a]⟩ else none

theorem push?_eq_some_iff {q q' : Outbox} {a : Action} :
    q.push? a = some q' ↔ q.pending.length < depth ∧ q'.pending = q.pending ++ [a] := by
  cases q'
  simp [push?, eq_comm]

end Outbox
end GridRules
