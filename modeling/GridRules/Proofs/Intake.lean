import GridRules.Proofs.Pushes

/-! What the outbox takes in when a command text is run with the standard functions. Each command
is called whatever came of those before it. It puts one action behind the ones that wait, or it
fails and leaves everything as it is, and the outbox never gets longer than its depth. -/
namespace GridRules
variable {R : Type} {own : Option UInt8}

namespace Call
variable {vars : Variables (Host R)} {c : Call (Host R)} {h : Host R}

/-- What is pushed is what the command asks for, and only while there is room. -/
theorem pushed_eq_some_iff {a : Action} :
    c.pushed own vars = some a ↔ Standard.asked own c.command (vars.scope c.before) = .ok a ∧
      c.before.outbox.pending.length < Outbox.depth := by
  have hroom : (c.before.outbox.push? a).isSome ↔
      c.before.outbox.pending.length < Outbox.depth := by
    simp [Outbox.push?]
  rw [pushed, Option.filter_eq_some_iff, hroom]
  cases Standard.asked own c.command (vars.scope c.before) <;> simp [Except.toOption]

theorem IsServed.length_after (hc : c.IsServed own vars)
    (hfits : c.before.outbox.pending.length ≤ Outbox.depth) :
    c.after.outbox.pending.length ≤ Outbox.depth := by
  rw [hc.after_eq]
  cases hp : c.pushed own vars with
  | none => simpa using hfits
  | some a => simpa using Nat.succ_le_of_lt (pushed_eq_some_iff.mp hp).2

/-- Calls in a row never have more in the outbox than its depth, if they begin so. -/
theorem length_sequence (own : Option UInt8) (vars : Variables (Host R)) {h : Host R}
    (hfits : h.outbox.pending.length ≤ Outbox.depth) (cs : List Command) :
    (∀ c ∈ sequence (Standard.library own) vars h cs,
      c.after.outbox.pending.length ≤ Outbox.depth) ∧
    (final h (sequence (Standard.library own) vars h cs)).outbox.pending.length ≤ Outbox.depth := by
  induction cs generalizing h with
  | nil => exact ⟨by simp [sequence], hfits⟩
  | cons c cs ih =>
    have hafter := (isServed_call own vars h c).length_after hfits
    obtain ⟨hcalls, hfinal⟩ := ih hafter
    rw [sequence, final_cons]
    exact ⟨List.forall_mem_cons.mpr ⟨hafter, hcalls⟩, hfinal⟩

end Call

namespace Engine

end Engine
end GridRules
