import GridRules.TagList
import Mathlib.Data.List.DropRight
import Mathlib.Data.List.Induction
import Mathlib.Data.List.Nodup

/-! Tag lists are normal: trimmed texts, none of them empty and none of them twice. A normal list
that is read in again is the list itself. -/
namespace GridRules

namespace Text

theorem trimEnd_cons {c : Char} (h : ¬ isBlank c) (cs : List Char) :
    trimEnd (c :: cs) = c :: trimEnd cs := by
  simp only [trimEnd, List.reverse_cons, List.dropWhile_append]
  split
  · rename_i hall
    simp [h, List.isEmpty_iff.mp hall]
  · simp

theorem trimStart_trimEnd {cs : List Char} (h : trimStart cs = cs) :
    trimStart (trimEnd cs) = trimEnd cs := by
  cases cs with
  | nil => rfl
  | cons c cs =>
    have hc : ¬ isBlank c := by
      simpa using List.dropWhile_eq_self_iff.mp h (Nat.succ_pos _)
    rw [trimEnd_cons hc, trimStart, List.dropWhile_cons_of_neg hc]

theorem trim_trim (cs : List Char) : trim (trim cs) = trim cs := by
  have hstart : trimStart (trim cs) = trim cs := 
    trimStart_trimEnd (List.dropWhile_idempotent ..)
  have hend : trimEnd (trim cs) = trim cs := by
    simp only [trim, trimEnd, List.reverse_reverse, List.dropWhile_idempotent]
  rw [trim, hstart, hend]

theorem trimmed_trimmed (s : String) : trimmed (trimmed s) = trimmed s := by
  simp only [trimmed, String.toList_ofList, trim_trim]

end Text

namespace TagList

structure IsNormal (t : TagList) : Prop where
  trimmed : ∀ tag ∈ t.toList, Text.trimmed tag = tag
  ne_empty : ∀ tag ∈ t.toList, tag ≠ ""
  nodup : t.toList.Nodup

theorem isNormal_empty : empty.IsNormal := ⟨by simp [empty], by simp [empty], List.nodup_nil⟩

theorem admits_eq_true_iff {t : TagList} {text : String} :
    t.admits text ↔ Text.trimmed text ≠ "" ∧ Text.trimmed text ∉ t.toList := by
  simp [admits, contains]

theorem IsNormal.add {t : TagList} (h : t.IsNormal) (text : String) : (t.add text).IsNormal := by
  rw [TagList.add]
  split
  · rename_i hadmits
    obtain ⟨hne, hnew⟩ := admits_eq_true_iff.mp hadmits
    refine ⟨fun tag htag => ?_, fun tag htag => ?_, ?_⟩
    · rcases List.mem_append.mp htag with htag | htag
      · exact h.trimmed tag htag
      · rw [List.mem_singleton.mp htag, Text.trimmed_trimmed]
    · rcases List.mem_append.mp htag with htag | htag
      · exact h.ne_empty tag htag
      · rwa [List.mem_singleton.mp htag]
    · exact List.concat_eq_append ▸ List.Nodup.concat hnew h.nodup
  · exact h

theorem IsNormal.foldl_add {t : TagList} (h : t.IsNormal) (texts : List String) :
    (texts.foldl TagList.add t).IsNormal := by
  induction texts generalizing t with
  | nil => exact h
  | cons text texts ih => exact ih (h.add text)

theorem isNormal_ofList (texts : List String) : (ofList texts).IsNormal :=
  isNormal_empty.foldl_add texts

/-- Tags that are normal together are added one after the other, as they are. -/
theorem foldl_add_of_isNormal (tags : List String) {more : List String}
    (h : IsNormal ⟨tags ++ more⟩) :
    more.foldl TagList.add ⟨tags⟩ = ⟨tags ++ more⟩ := by
  induction more generalizing tags with
  | nil => simp
  | cons tag more ih =>
    have hmem : tag ∈ tags ++ tag :: more := by simp
    have hnew : tag ∉ tags := fun htag =>
      (List.nodup_append.mp h.nodup).2.2 tag htag tag (List.mem_cons_self ..) rfl
    have hadd : TagList.add ⟨tags⟩ tag = ⟨tags ++ [tag]⟩ := by
      rw [TagList.add, if_pos (admits_eq_true_iff.mpr ?_), h.trimmed tag hmem]
      rw [h.trimmed tag hmem]
      exact ⟨h.ne_empty tag hmem, hnew⟩
    rw [List.append_cons] at h ⊢
    rw [List.foldl_cons, hadd, ih _ h]

theorem IsNormal.ofList_toList {t : TagList} (h : t.IsNormal) : ofList t.toList = t :=
  foldl_add_of_isNormal [] h

/-- Tags are the trimmed texts that are not blank, each at the first place where it stands. -/
theorem toList_ofList (texts : List String) :
    (ofList texts).toList = ((texts.map Text.trimmed).filter (· ≠ "")).eraseDups := by
  induction texts using List.reverseRecOn with
  | nil => rfl
  | append_singleton texts text ih =>
    have hadd : ofList (texts ++ [text]) = (ofList texts).add text := by simp [ofList]
    have hmem : Text.trimmed text ∈ (ofList texts).toList ↔
        Text.trimmed text ∈ (texts.map Text.trimmed).filter (· ≠ "") := by
      rw [ih, List.mem_eraseDups]
    rw [hadd, add, List.map_append, List.filter_append, List.eraseDups_append, ← ih]
    generalize (texts.map Text.trimmed).filter (· ≠ "") = kept at hmem
    split
    · rename_i hadmits
      obtain ⟨hne, hnew⟩ := admits_eq_true_iff.mp hadmits
      rw [hmem] at hnew
      simp [hne, List.removeAll, hnew, List.eraseDups_cons]
    · rename_i hrefused
      rw [admits_eq_true_iff, not_and, not_not, hmem] at hrefused
      by_cases hne : Text.trimmed text = ""
      · simp [hne, List.removeAll]
      · simp [hne, List.removeAll, hrefused hne]

end TagList
end GridRules
