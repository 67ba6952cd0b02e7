/-! A finite map from names. It is read through `get?`; a name is bound at most once. -/
namespace GridRules

structure Table (α : Type) where
  entries : List (String × α)

namespace Table
variable {α : Type}

def empty : Table α := ⟨[]⟩

def get? (t : Table α) (name : String) : Option α := t.entries.lookup name

def contains (t : Table α) (name : String) : Bool := (t.get? name).isSome

def erase (t : Table α) (name : String) : Table α := ⟨t.entries.filter (·.1 != name)⟩

def put (t : Table α) (name : String) (a : α) : Table α := ⟨(name, a) :: (t.erase name).entries⟩

def size (t : Table α) : Nat := t.entries.length

theorem lookup_cons_ne {k name : String} (h : name ≠ k) (a : α) (es : List (String × α)) :
    ((k, a) :: es).lookup name = es.lookup name := by
  simp only [List.lookup_cons, beq_eq_false_iff_ne.mpr h]

theorem lookup_filter (es : List (String × α)) (name other : String) :
    (es.filter (·.1 != name)).lookup other =
      if other = name then none else es.lookup other := by
  induction es with
  | nil => simp
  | cons e es ih =>
    obtain ⟨k, a⟩ := e
    by_cases ho : other = k
    · subst ho
      by_cases hk : other = name <;> simp [hk]
      simpa [hk] using ih
    · by_cases hk : k = name <;> simp [hk, ih, lookup_cons_ne ho]
      simp [← hk, ho, lookup_cons_ne ho]

@[simp] theorem get?_empty (name : String) : (empty : Table α).get? name = none := rfl

@[simp] theorem get?_erase (t : Table α) (name other : String) :
    (t.erase name).get? other = if other = name then none else t.get? other :=
  lookup_filter t.entries name other

@[simp] theorem get?_put (t : Table α) (name other : String) (a : α) :
    (t.put name a).get? other = if other = name then some a else t.get? other := by
  by_cases h : other = name
  · simp [get?, put, h]
  · have := get?_erase t name other
    simp_all [get?, put, lookup_cons_ne h]

end Table
end GridRules
