import GridRules.Proofs.JsonText

/-! Patches as JSON text: a patch that is written is read as the same patch. -/
namespace GridRules
namespace Json
open GridRules.Json.Tree

section Reading

theorem int?_ofInt (i : Int) : (ofInt i).int? = some i := by
  obtain hneg | hpos := Int.lt_or_le i 0
  · have habs : i.natAbs ≠ 0 := by omega
    simp only [ofInt, hneg, decide_true, int?, if_neg habs, Option.some.injEq]
    omega
  · simp only [ofInt, Int.not_lt.mpr hpos, decide_false, int?, Option.some.injEq]
    omega

theorem int32?_ofInt (i : Int32) : (ofInt i.toInt).int32? = some i := by
  simp [int32?, int?_ofInt]

theorem list?_map {α : Type} {item : Tree → Option α} {f : α → Tree}
    (h : ∀ a, item (f a) = some a) (as : List α) : list? item (.array (as.map f)) = some as := by
  have hitem : item ∘ f = some := funext h
  rw [list?, List.mapM_map, hitem]
  exact (List.mapM_pure (m := Option)).trans (congrArg some (List.map_id as))

theorem ruleText?_ofRuleText (r : RuleText) : ruleText? (ofRuleText r) = some r := by
  have hfields : (ofRuleText r).fields? ["priority", "expression", "command"] =
      some [some (ofInt r.priority.toInt), some (ofString r.expression),
        some (ofString r.command)] := rfl
  simp [ruleText?, hfields, int32?_ofInt, ofString, string?]

theorem rules?_ofRules (rs : List RuleText) : rules? (ofRules rs) = some rs :=
  list?_map ruleText?_ofRuleText rs

theorem patchMode?_ofPatchMode (m : PatchMode) : patchMode? (ofPatchMode m) = some m := by
  cases m <;> rfl

theorem patch?_ofPatch (p : RulePatch) : patch? (ofPatch p) = some p := by
  have hfields : (ofPatch p).fields? ["mode", "rules"] =
      some [some (ofPatchMode p.mode), some (ofRules p.rules)] := rfl
  simp [patch?, hfields, patchMode?_ofPatchMode, rules?_ofRules]

/-- A patch that does not say how. -/
def ofModeless (rs : List RuleText) : Tree := ofMembers [("rules", ofRules rs)]

theorem patch?_ofModeless (rs : List RuleText) : patch? (ofModeless rs) = some ⟨.replace, rs⟩ := by
  have hfields : (ofModeless rs).fields? ["mode", "rules"] = some [none, some (ofRules rs)] := rfl
  simp [patch?, hfields, rules?_ofRules]

end Reading

section Texts

theorem hasTexts_ofRules (rs : List RuleText) : (ofRules rs).HasTexts := by
  refine .array fun t ht => ?_
  obtain ⟨r, -, rfl⟩ := List.mem_map.mp ht
  refine .object fun m hm => ?_
  simp only [List.mem_cons, List.not_mem_nil, or_false] at hm
  obtain rfl | rfl | rfl := hm
  · exact .integer ..
  · exact .string _
  · exact .string _

theorem hasTexts_ofPatchMode (m : PatchMode) : (ofPatchMode m).HasTexts := by
  cases m <;> exact .string _

theorem hasTexts_ofPatch (p : RulePatch) : (ofPatch p).HasTexts := by
  refine .object fun m hm => ?_
  simp only [List.mem_cons, List.not_mem_nil, or_false] at hm
  obtain rfl | rfl := hm
  · exact hasTexts_ofPatchMode p.mode
  · exact hasTexts_ofRules p.rules

theorem hasTexts_ofModeless (rs : List RuleText) : (ofModeless rs).HasTexts := by
  refine .object fun m hm => ?_
  obtain rfl := List.mem_singleton.mp hm
  exact hasTexts_ofRules rs

/-- What a patch's text says of its mode, with the comma behind it. -/
def modeField : PatchMode → String
  | .replace => "\"mode\":\"replace\","
  | .append => "\"mode\":\"append\","

/-- The text of a patch behind its mode. -/
def rulesText (rs : List RuleText) : String :=
  String.ofList (renderMembers [(some "rules", ofRules rs)] ++ ['}'])

theorem text_ofPatch (p : RulePatch) :
    (ofPatch p).text = "\x7b" ++ modeField p.mode ++ rulesText p.rules := by
  have hmode : quoted "mode" ++ ':' :: (ofPatchMode p.mode).render ++ [','] =
      (modeField p.mode).toList := by
    cases p.mode <;> decide
  have hrender : (ofPatch p).render =
      '{' :: (quoted "mode" ++ ':' :: (ofPatchMode p.mode).render ++ [','] ++
        (renderMembers [(some "rules", ofRules p.rules)] ++ ['}'])) := by
    simp [ofPatch, ofMembers, render, renderMembers]
  rw [text, hrender, hmode, ← List.singleton_append, String.ofList_append, String.ofList_append,
    String.ofList_toList, ← String.append_assoc]
  rfl

theorem text_ofModeless (rs : List RuleText) : (ofModeless rs).text = "\x7b" ++ rulesText rs := by
  have hrender : (ofModeless rs).render =
      '{' :: (renderMembers [(some "rules", ofRules rs)] ++ ['}']) := by
    simp [ofModeless, ofMembers, render]
  rw [text, hrender, ← List.singleton_append, String.ofList_append]
  rfl

end Texts
end Json

/-- A patch is read back from its text. Without the field for its mode the text is read as a patch
that replaces. -/
theorem RulePatch.ofJson_text (p : RulePatch) : ∃ rest : String,
    (Json.ofPatch p).text = "\x7b" ++ Json.modeField p.mode ++ rest ∧
    RulePatch.ofJson (Json.ofPatch p).text = .ok p ∧
    RulePatch.ofJson ("\x7b" ++ rest) = .ok ⟨.replace, p.rules⟩ := by
  refine ⟨Json.rulesText p.rules, Json.text_ofPatch p, ?_, ?_⟩
  · have htree : Json.Tree.ofText? (Json.ofPatch p).text = some (Json.ofPatch p) :=
      (Json.hasTexts_ofPatch p).ofText?_text
    rw [RulePatch.ofJson, htree, Option.bind_eq_bind, Option.bind_some, Json.patch?_ofPatch]
  · have htree := (Json.hasTexts_ofModeless p.rules).ofText?_text
    rw [Json.text_ofModeless] at htree
    rw [RulePatch.ofJson, htree, Option.bind_eq_bind, Option.bind_some, Json.patch?_ofModeless]

example : (Json.ofPatch ⟨.append, [⟨-5, "A == \"b\"", "OFF()\n"⟩]⟩).text =
    "\x7b\"mode\":\"append\",\"rules\":[\x7b\"priority\":-5," ++
      "\"expression\":\"A == \\\"b\\\"\",\"command\":\"OFF()\\n\"\x7d]\x7d" := by decide

end GridRules
