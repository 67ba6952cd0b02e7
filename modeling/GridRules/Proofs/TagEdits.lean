import GridRules.Proofs.Tags

/-! Tags under edits. Whatever is added, taken out or put in the place of all tags, lists of tags
stay normal. A text is trimmed when it is added, but not when it is looked for or taken out, so
that only a trimmed text speaks of the same tag each time. -/
namespace GridRules
namespace TagList
variable {t : TagList} {text : String}

/-! Single edits. -/

theorem removes_eq_contains (t : TagList) (tag : String) : t.removes tag = t.contains tag := by
  rw [Bool.eq_iff_iff, removes, bne_iff_ne, remove, Ne, List.length_filter_eq_length_iff]
  simp [contains]

theorem contains_remove (t : TagList) (tag : String) : (t.remove tag).contains tag = false := by
  simp [contains, remove]

theorem add_trimmed (t : TagList) (text : String) : t.add (Text.trimmed text) = t.add text := by
  simp [add, admits, Text.trimmed_trimmed]

theorem remove_eq_self_iff : t.remove text = t ↔ t.contains text = false := by
  rw [← removes_eq_contains, removes, bne_eq_false_iff_eq]
  refine ⟨fun h => by rw [h], fun h => ?_⟩
  exact congrArg mk (List.filter_sublist.eq_of_length h)

theorem IsNormal.remove (h : t.IsNormal) (tag : String) : (t.remove tag).IsNormal where
  trimmed text htext := h.trimmed text (List.mem_of_mem_filter htext)
  ne_empty text htext := h.ne_empty text (List.mem_of_mem_filter htext)
  nodup := h.nodup.filter _

/-! Runs of edits. -/

/-- What an operator does to a list of tags. -/
inductive Edit where
  | add (text : String)
  | remove (tag : String)
  | replace (texts : List String)

def edit (t : TagList) : Edit → TagList
  | .add text => t.add text
  | .remove tag => t.remove tag
  | .replace texts => ofList texts

/-- What edits make of the empty list. -/
def edited (edits : List Edit) : TagList := edits.foldl edit empty

theorem IsNormal.edit (h : t.IsNormal) (e : Edit) : (t.edit e).IsNormal := by
  cases e with
  | add text => exact h.add text
  | remove tag => exact h.remove tag
  | replace texts => exact isNormal_ofList texts

theorem isNormal_edited (edits : List Edit) : (edited edits).IsNormal := by
  induction edits using List.reverseRecOn with
  | nil => exact isNormal_empty
  | append_singleton edits e ih =>
    rw [edited, List.foldl_concat]
    exact ih.edit e

/-- Tag lists are normal, what replaces all tags is a function of the texts alone, and the tags that
are there replace themselves. -/
theorem edited_isNormal_and_replace (edits : List Edit) (texts : List String) :
    (edited edits).IsNormal ∧
      ((edited edits).edit (.replace texts)).toList =
        ((texts.map Text.trimmed).filter (· ≠ "")).eraseDups ∧
      (edited edits).edit (.replace (edited edits).toList) = edited edits :=
  ⟨isNormal_edited edits, toList_ofList texts, (isNormal_edited edits).ofList_toList⟩

/-! The tag that a text speaks of. -/

/-- A text that a tag list can hold. -/
def IsTag (text : String) : Prop := Text.trimmed text = text ∧ text ≠ ""

/-- A text that was added is found and taken out, and the other tags stay as they were. -/
structure SpeaksOfOneTag (t : TagList) (text : String) : Prop where
  found : (t.add text).contains text = true
  removed : (t.add text).removes text = true
  gone : ((t.add text).remove text).contains text = false
  others : ((t.add text).remove text).toList = t.toList.filter (· != text)

theorem IsNormal.isTag (h : t.IsNormal) (hcontains : t.contains text = true) : IsTag text := by
  have hmem : text ∈ t.toList := by simpa [contains] using hcontains
  exact ⟨h.trimmed text hmem, h.ne_empty text hmem⟩

theorem IsTag.toList_add (h : IsTag text) (t : TagList) :
    (t.add text).toList = if t.contains text then t.toList else t.toList ++ [text] := by
  obtain ⟨htrimmed, hne⟩ := h
  rw [add, admits, htrimmed]
  cases t.contains text <;> simp [hne]

theorem IsTag.contains_add (h : IsTag text) (t : TagList) : (t.add text).contains text = true := by
  rw [contains, h.toList_add]
  split
  · assumption
  · simp

theorem IsTag.remove_add (h : IsTag text) (t : TagList) :
    ((t.add text).remove text).toList = t.toList.filter (· != text) := by
  rw [remove, h.toList_add]
  split <;> simp

theorem IsTag.speaksOfOneTag (h : IsTag text) (t : TagList) : t.SpeaksOfOneTag text where
  found := h.contains_add t
  removed := (removes_eq_contains _ text).trans (h.contains_add t)
  gone := contains_remove _ text
  others := h.remove_add t

theorem IsNormal.contains_add_iff (h : t.IsNormal) :
    (t.add text).contains text = true ↔ IsTag text :=
  ⟨(h.add text).isTag, fun htag => htag.contains_add t⟩

/-- A text of another form than its tag adds the tag, but neither finds it nor takes it out. -/
theorem edited_speaksOfOneTag_iff (edits : List Edit) (text : String) :
    ((edited edits).SpeaksOfOneTag text ↔ IsTag text) ∧
      (edited edits).add text = (edited edits).add (Text.trimmed text) ∧
      (((edited edits).add text).contains text = true ↔ IsTag text) ∧
      (((edited edits).add text).removes text = true ↔ IsTag text) ∧
      (((edited edits).add text).remove text = (edited edits).add text ↔ ¬ IsTag text) := by
  have hcontains : ((edited edits).add text).contains text = true ↔ IsTag text :=
    (isNormal_edited edits).contains_add_iff
  refine ⟨⟨fun h => hcontains.mp h.found, fun htag => htag.speaksOfOneTag _⟩,
    (add_trimmed _ text).symm, hcontains, ?_, ?_⟩
  · rw [removes_eq_contains, hcontains]
  · rw [remove_eq_self_iff, ← Bool.not_eq_true, hcontains]

/-- With a blank in front of it a tag is set, and by the same text it is not taken off. -/
theorem not_speaksOfOneTag_of_padded :
    let t := edited [.add " a"]
    Text.trimmed " a" ≠ "" ∧ t.toList = ["a"] ∧ t.contains " a" = false ∧
      t.removes " a" = false ∧ (t.remove " a").toList = ["a"] ∧
      ¬ (edited []).SpeaksOfOneTag " a" := by
  refine ⟨by decide +kernel, by decide +kernel, by decide +kernel, by decide +kernel,
    by decide +kernel, fun h => ?_⟩
  exact absurd h.found (by decide +kernel)

end TagList
end GridRules
