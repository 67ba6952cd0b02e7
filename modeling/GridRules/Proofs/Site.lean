import GridRules.Proofs.Frames

/-! A controller at its site: with a store and a clock, and with all that may happen to it. A run
is any number of steps. -/
namespace GridRules
variable {S : Type}

structure Site (S : Type) where
  controller : Controller
  store : S
  now : UInt64

inductive Step (S : Type) where
  | addModule (id : UInt8)
  | restore
  | tick
  | request (q : Request)
  | markDirty
  | autoSave
  | forceSave
  /-- The clock is set, forward or back. -/
  | clock (now : UInt64)
  /-- Something else changes what is stored, or how the store behaves. -/
  | outside (change : S → S)

/-- The controller with one module more, if it takes it. -/
def Controller.withModule (c : Controller) (id : UInt8) : Controller :=
  match c.addModule id with
  | .ok c => c
  | .error _ => c

/-- A module is refused, or it is put behind the others, none of which has its id. -/
theorem Controller.withModule_cases (c : Controller) (id : UInt8) :
    c.withModule id = c ∨ c.module? id = none ∧
      c.withModule id =
        { c with modules := c.modules ++ [Module.new id c.settings.maxRules.toNat] } := by
  simp only [withModule, addModule]
  cases hid : c.module? id with
  | some m => exact .inl rfl
  | none =>
    by_cases hfull : c.settings.maxModules.toNat ≤ c.modules.length
    · simp [hfull]
    · simp [hfull]

namespace Site
variable [BlobStore S]

def start (settings : Settings) (now : UInt64) (store : S) : Site S :=
  ⟨.new settings now, store, now⟩

/-- What one step does and tells. -/
def step (w : Site S) : Step S → Site S × List Event
  | .addModule id => ({ w with controller := w.controller.withModule id }, [])
  | .restore => ({ w with controller := (w.controller.restore w.store).value.2 }, [])
  | .tick =>
    let (c, events) := (w.controller.tick w.now).value
    ({ w with controller := c }, events)
  | .request q =>
    let (c, s, events) := (w.controller.handle w.now w.store q).value
    ({ w with controller := c, store := s }, events)
  | .markDirty => ({ w with controller := w.controller.markDirty }, [])
  | .autoSave =>
    let (_, c, s) := (w.controller.autoSave w.store).value
    ({ w with controller := c, store := s }, [])
  | .forceSave =>
    let (_, c, s) := (w.controller.forceSave w.store).value
    ({ w with controller := c, store := s }, [])
  | .clock now => ({ w with now := now }, [])
  | .outside change => ({ w with store := change w.store }, [])

def run (w : Site S) (steps : List (Step S)) : Site S := steps.foldl (fun w a => (w.step a).1) w

@[simp] theorem run_nil (w : Site S) : w.run [] = w := rfl

@[simp] theorem run_cons (w : Site S) (a : Step S) (steps : List (Step S)) :
    w.run (a :: steps) = (w.step a).1.run steps := rfl

theorem run_append (w : Site S) (first second : List (Step S)) :
    w.run (first ++ second) = (w.run first).run second := List.foldl_append

theorem run_concat (w : Site S) (steps : List (Step S)) (a : Step S) :
    w.run (steps ++ [a]) = ((w.run steps).step a).1 := by
  rw [run_append, run_cons, run_nil]

/-- What is to be seen at each step, one after the other. -/
def trace {β : Type} (seen : Site S → Step S → List β) (w : Site S) : List (Step S) → List β
  | [] => []
  | a :: steps => seen w a ++ trace seen (w.step a).1 steps

theorem trace_append {β : Type} (seen : Site S → Step S → List β) (w : Site S)
    (first second : List (Step S)) :
    trace seen w (first ++ second) = trace seen w first ++ trace seen (w.run first) second := by
  induction first generalizing w with
  | nil => rfl
  | cons a steps ih => simp [trace, ih]

theorem trace_concat {β : Type} (seen : Site S → Step S → List β) (w : Site S)
    (steps : List (Step S)) (a : Step S) :
    trace seen w (steps ++ [a]) = trace seen w steps ++ seen (w.run steps) a := by
  simp [trace_append, trace]

/-- No step of a run is such as `p` tells of. -/
def Never (p : Site S → Step S → Bool) (w : Site S) (steps : List (Step S)) : Prop :=
  ∀ first a rest, steps = first ++ a :: rest → ¬ p (w.run first) a

theorem never_nil (p : Site S → Step S → Bool) (w : Site S) : w.Never p [] := by
  intro first a rest h
  simp at h

theorem never_concat {p : Site S → Step S → Bool} {w : Site S} {steps : List (Step S)}
    {a : Step S} : w.Never p (steps ++ [a]) ↔ w.Never p steps ∧ ¬ p (w.run steps) a := by
  constructor
  · intro h
    exact ⟨fun first b rest heq => h first b (rest ++ [a]) (by simp [heq]), h steps a [] rfl⟩
  · rintro ⟨h, ha⟩ first b rest heq
    rcases List.eq_nil_or_concat rest with rfl | ⟨rest, c, rfl⟩
    · obtain ⟨rfl, hb⟩ := List.append_inj' heq rfl
      cases hb
      exact ha
    · rw [List.concat_eq_append, ← List.cons_append, ← List.append_assoc] at heq
      exact h first b rest (List.append_inj' heq rfl).1

end Site

end GridRules
