import GridRules.Proofs.Infix
import GridRules.Proofs.Margins
import GridRules.Proofs.Separators
import Mathlib.Data.List.Perm.Basic

/-! Conditions on tags, from their text. A name that stands for a list of tags is compared with an
array of quoted strings, in which neither the order of the tags nor the characters in them play a
part. -/
namespace GridRules

namespace Token
open Text (quote)

/-- What stands between the brackets of an array of strings. -/
def tagBody (tags : List String) : List Char := (", ".intercalate (tags.map quote)).toList

/-- An array of strings. -/
def tagArray (tags : List String) : Token :=
  ⟨.array, "[" ++ ", ".intercalate (tags.map quote) ++ "]"⟩

def tagString (tag : String) : Token := ⟨.string, quote tag⟩

theorem lexeme_tagArray (tags : List String) :
    (tagArray tags).lexeme = String.ofList ('[' :: (tagBody tags ++ [']'])) := by
  simp [tagArray, tagBody, String.ext_iff]

theorem tagBody_cons_cons (t u : String) (tags : List String) :
    tagBody (t :: u :: tags) = (quote t).toList ++ ',' :: ' ' :: tagBody (u :: tags) := by
  simp [tagBody, String.intercalate_cons_cons]

theorem tagBody_singleton (t : String) : tagBody [t] = (quote t).toList ++ [] := by
  simp [tagBody]

theorem toList_quote (t : String) : (quote t).toList = '"' :: (t.toList ++ ['"']) := by
  simp [quote]

variable {check : List Char → Except SyntaxFault Unit}

/-- A string is cut off whole, whatever characters are in it. -/
theorem scan_quote {t : String} (ht : '"' ∉ t.toList) (offset : Nat) (last : Option TokenKind) :
    scan check offset last (quote t).toList = .ok [tagString t] := by
  have hpiece : piece check last '"' (t.toList ++ '"' :: []) =
      .ok ⟨.string, t.toList.length + 1⟩ := stringPiece_body [] ht
  have hlength : (t.toList ++ ['"']).length ≤ t.toList.length + 1 := by simp
  have htoken : (⟨.string, String.ofList ('"' :: (t.toList ++ ['"']))⟩ : Token) = tagString t := by
    rw [← toList_quote, String.ofList_toList, tagString]
  rw [toList_quote, scan_piece check offset last (by decide) hpiece, Piece.token,
    List.take_of_length_le hlength, List.drop_of_length_le hlength, htoken, scan_nil,
    Outcome.map_ok]

variable {tags : List String}

/-- The tokens between the brackets: the strings and the commas between them. -/
theorem scan_tagBody (htags : ∀ t ∈ tags, '"' ∉ t.toList) :
    scan check 0 none (tagBody tags) = .ok ([comma].intercalate (tags.map ([tagString ·]))) := by
  have htext : tagBody tags = [',', ' '].intercalate (tags.map fun t => (quote t).toList) := by
    rw [tagBody, String.toList_intercalate, List.map_map]
    rfl
  rw [htext]
  exact scan_intercalate (.inl rfl) (fun t ht offset last _ => scan_quote (htags t ht) offset last)
    0 rfl

theorem elements_tagString (t : String) (ts : List Token) :
    elements (tagString t :: ts) = (elements ts).map (t :: ·) := by
  simp [elements, tagString, Text.unquote_quote]

theorem elements_comma (ts : List Token) : elements (comma :: ts) = elements ts := by
  simp [elements, comma]

theorem elements_tagStrings (tags : List String) :
    elements ([comma].intercalate (tags.map ([tagString ·]))) = .ok tags := by
  induction tags with
  | nil => rfl
  | cons t tags ih =>
    cases tags with
    | nil => exact elements_tagString t []
    | cons u tags =>
      simp only [List.map_cons, List.intercalate_cons_cons, List.cons_append,
        List.nil_append] at ih ⊢
      rw [elements_tagString, elements_comma, ih, Outcome.map_ok]

/-- An array of strings is read as the list of its tags, whatever characters are in them. -/
theorem arrayElements_tagArray (htags : ∀ t ∈ tags, '"' ∉ t.toList) :
    arrayElements (tagArray tags).lexeme = .ok tags := by
  rw [lexeme_tagArray, arrayElements_wrap, scan_tagBody htags, Outcome.bind_ok,
    elements_tagStrings]

/-! The array is a token of its own: its brackets and commas may stand in the tags as well. -/

theorem enclosed_string {cs rest : List Char} (h : '"' ∉ cs) :
    Enclosed true (cs ++ '"' :: rest) ↔ Enclosed false rest := by
  induction cs with
  | nil => simp [Enclosed]
  | cons c cs ih =>
    rw [List.mem_cons, not_or] at h
    obtain ⟨hc, hcs⟩ := h
    have hquote : (c == '"') = false := by simpa using Ne.symm hc
    simp [Enclosed, hquote, ih hcs]

theorem enclosed_quote {t : String} (ht : '"' ∉ t.toList) (rest : List Char) :
    Enclosed false ((quote t).toList ++ rest) ↔ Enclosed false rest := by
  rw [toList_quote, List.cons_append, List.append_assoc, List.singleton_append]
  simp [Enclosed, enclosed_string ht]

theorem enclosed_tagBody (htags : ∀ t ∈ tags, '"' ∉ t.toList) : Enclosed false (tagBody tags) := by
  induction tags with
  | nil => rfl
  | cons t tags ih =>
    obtain ⟨ht, htags⟩ := List.forall_mem_cons.mp htags
    cases tags with
    | nil =>
      rw [tagBody_singleton, enclosed_quote ht]
      rfl
    | cons u tags =>
      rw [tagBody_cons_cons, enclosed_quote ht]
      simpa [Enclosed] using ih htags

/-- No blank stands next to a bracket. -/
theorem trim_tagBody (tags : List String) : Text.trim (tagBody tags) = tagBody tags := by
  cases tags with
  | nil => rfl
  | cons t tags =>
    have hends : ∃ inner, tagBody (t :: tags) = '"' :: (inner ++ ['"']) := by
      induction tags generalizing t with
      | nil => exact ⟨t.toList, by rw [tagBody_singleton, List.append_nil, toList_quote]⟩
      | cons u tags ih =>
        obtain ⟨inner, hinner⟩ := ih u
        refine ⟨t.toList ++ '"' :: ',' :: ' ' :: '"' :: inner, ?_⟩
        rw [tagBody_cons_cons, hinner, toList_quote]
        simp
    obtain ⟨inner, hinner⟩ := hends
    rw [hinner, Text.trim_wrap (by decide) (by decide)]

theorem shaped_tagArray (htags : ∀ t ∈ tags, '"' ∉ t.toList) : (tagArray tags).Shaped := by
  have henclosed := enclosed_tagBody htags
  refine ⟨tagBody tags, henclosed, ⟨tags, ?_⟩, lexeme_tagArray tags⟩
  rw [arrayElements_unopened henclosed.unopened, trim_tagBody, scan_tagBody htags, Outcome.bind_ok,
    elements_tagStrings]

end Token

/-- A value is converted to the type that is asked for, unless any type will do. -/
theorem Value.type_coerce {v w : Value} {type : ValueType} (h : v.coerce type = some w) :
    type = .unknown ∨ w.type = type := by
  cases type with
  | unknown => exact .inl rfl
  | _ =>
    simp only [Value.coerce, ValueType.read?, Option.map_eq_some_iff] at h
    obtain ⟨_, -, rfl⟩ := h
    exact .inr rfl

namespace Evaluate
open Token (tagArray)

theorem sameElements_iff {a b : List String} : sameElements a b = true ↔ a.Perm b := by
  induction a generalizing b with
  | nil => simp [sameElements]
  | cons x a ih => simp [sameElements, ih, List.cons_perm_iff_perm_erase]

variable {s : Scope} {x : String} {a b : List String}

theorem isBound_of_value? {v : Value} (h : s.value? x = some v) : s.isBound x = true := by
  obtain ⟨binding, hbinding, -⟩ := Option.bind_eq_some_iff.mp h
  simp [Scope.isBound, hbinding]

/-- A name that stands for a list of tags is not read as a string. -/
theorem classify_ne_string (h : s.value? x = some (.array a)) :
    classify s ⟨.identifier, x⟩ ≠ .string := by
  obtain ⟨binding, hbinding, hcoerce⟩ := Option.bind_eq_some_iff.mp h
  have htype : s.typeOf x = binding.type := by simp [Scope.typeOf, hbinding]
  show s.typeOf x ≠ .string
  rw [htype]
  obtain hunknown | harray := Value.type_coerce hcoerce
  · simp [hunknown]
  · simp [← harray, Value.type]

theorem elementsOf_name (h : s.value? x = some (.array a)) :
    elementsOf s ⟨.identifier, x⟩ = .ok a := by
  simp [elementsOf, Scope.read?, isBound_of_value? h, h, Reading.array]

theorem elementsOf_tagArray (hb : ∀ t ∈ b, '"' ∉ t.toList)
    (hfree : s.isBound (tagArray b).lexeme = false) : elementsOf s (tagArray b) = .ok b := by
  have hread := Token.arrayElements_tagArray hb
  have hbrackets := Token.lexeme_tagArray b
  rw [hbrackets] at hfree hread
  have helements := Token.elementsOf_wrap .array hfree
  rw [hread, ← hbrackets] at helements
  exact helements

theorem binaryOp_tags (op : Token) (ha : s.value? x = some (.array a)) :
    binaryOp s op ⟨.identifier, x⟩ (tagArray b) =
      (arrayOp s op.lexeme ⟨.identifier, x⟩ (tagArray b)).map .ofBool := by
  have hright : classify s (tagArray b) = .array := rfl
  simp [binaryOp, hright, classify_ne_string ha]

end Evaluate

namespace Expression
open Token (tagArray)

/-- The text can be compiled, and as a condition it holds exactly if the proposition is true. -/
def Decides (s : Scope) (text : String) (P : Prop) : Prop :=
  ∃ rpn v, Token.compile text = .ok rpn ∧ Evaluate.holds s rpn = .ok v ∧ (v = true ↔ P)

theorem Decides.congr {s : Scope} {text : String} {P Q : Prop} (h : Decides s text P)
    (hPQ : P ↔ Q) : Decides s text Q := by
  obtain ⟨rpn, v, hcompile, hholds, hv⟩ := h
  exact ⟨rpn, v, hcompile, hholds, hv.trans hPQ⟩

/-- A scope in which a condition on these tags can be asked: the name stands for a list of tags,
and neither the array nor a truth value's numeral is a name. -/
structure AsksTags (s : Scope) (x : String) (a b : List String) : Prop where
  shaped : (⟨.identifier, x⟩ : Token).Shaped
  value : s.value? x = some (.array a)
  unquoted : ∀ t ∈ b, '"' ∉ t.toList
  free : s.isBound (tagArray b).lexeme = false
  free_zero : s.isBound "0" = false
  free_one : s.isBound "1" = false

variable {s : Scope} {x : String} {a b : List String}

theorem AsksTags.decides (h : AsksTags s x a b) (op : BinaryOp) {v : Bool}
    (hop : Evaluate.arrayOp s op.token.lexeme ⟨.identifier, x⟩ (tagArray b) = .ok v) :
    Decides s (op.between x (tagArray b).lexeme) (v = true) := by
  let l : Operand := ⟨⟨.identifier, x⟩, rfl⟩
  let r : Operand := ⟨tagArray b, rfl⟩
  have hcompile := op.compile_between h.shaped (Token.shaped_tagArray h.unquoted) rfl rfl
  have hbinary : Evaluate.binaryOp s op.token l.token r.token = .ok (.ofBool v) := by
    rw [Evaluate.binaryOp_tags _ h.value, hop, Outcome.map_ok]
  have hfree : s.isBound (Token.ofBool v).lexeme = false := by
    cases v
    · exact h.free_zero
    · exact h.free_one
  exact ⟨_, v, hcompile, holds_between_of_ofBool hbinary hfree, Iff.rfl⟩

/-- The four conditions on tags mean what they say: the same tags, each as often; not the same; a
tag in common; and every tag of the array among those of the name. -/
theorem decides_tags (h : AsksTags s x a b) :
    Decides s (BinaryOp.eq.between x (tagArray b).lexeme) (a.Perm b) ∧
      Decides s (BinaryOp.ne.between x (tagArray b).lexeme) (¬ a.Perm b) ∧
      Decides s (BinaryOp.or.between x (tagArray b).lexeme) (∃ t ∈ a, t ∈ b) ∧
      Decides s (BinaryOp.and.between x (tagArray b).lexeme) (∀ t ∈ b, t ∈ a) := by
  have hname := Evaluate.elementsOf_name h.value
  have harray := Evaluate.elementsOf_tagArray h.unquoted h.free
  refine ⟨?_, ?_, ?_, ?_⟩
  · have hop : Evaluate.arrayOp s "==" ⟨.identifier, x⟩ (tagArray b) =
        .ok (Evaluate.sameElements a b) := by simp [Evaluate.arrayOp, hname, harray]
    exact (h.decides .eq hop).congr Evaluate.sameElements_iff
  · have hop : Evaluate.arrayOp s "!=" ⟨.identifier, x⟩ (tagArray b) =
        .ok !Evaluate.sameElements a b := by simp [Evaluate.arrayOp, hname, harray]
    refine (h.decides .ne hop).congr ?_
    rw [Bool.not_eq_true', ← Bool.not_eq_true, Evaluate.sameElements_iff]
  · have hop : Evaluate.arrayOp s "||" ⟨.identifier, x⟩ (tagArray b) =
        .ok (a.any b.contains) := by simp [Evaluate.arrayOp, hname, harray]
    exact (h.decides .or hop).congr (by simp)
  · have hop : Evaluate.arrayOp s "&&" ⟨.identifier, x⟩ (tagArray b) =
        .ok (b.all a.contains) := by simp [Evaluate.arrayOp, hname, harray]
    exact (h.decides .and hop).congr (by simp)

/-- A tag that occurs twice, and one with a comma and brackets. -/
theorem decides_tags_of_brackets :
    let a := ["night", "b, [c]", "night"]
    let b := ["b, [c]", "night", "night"]
    let s := (Variables.bindConstant Table.empty "X" (.array a)).scope ()
    BinaryOp.eq.between "X" (tagArray b).lexeme = "X == [\"b, [c]\", \"night\", \"night\"]" ∧
      AsksTags s "X" a b ∧
      Decides s (BinaryOp.eq.between "X" (tagArray b).lexeme) (a.Perm b) ∧
      Decides s (BinaryOp.ne.between "X" (tagArray b).lexeme) (¬ a.Perm b) ∧
      Decides s (BinaryOp.or.between "X" (tagArray b).lexeme) (∃ t ∈ a, t ∈ b) ∧
      Decides s (BinaryOp.and.between "X" (tagArray b).lexeme) (∀ t ∈ b, t ∈ a) := by
  intro a b s
  have hname : (⟨.identifier, "X"⟩ : Token).Shaped := ⟨'X', [], ⟨.inl rfl, by simp⟩, rfl⟩
  have hasks : AsksTags s "X" a b := ⟨hname, rfl, by decide, rfl, rfl, rfl⟩
  exact ⟨by decide +kernel, hasks, decides_tags hasks⟩

/-- An array is not read as it stands if a variable has it for a name. -/
theorem not_decides_tags_of_bound :
    let text := BinaryOp.eq.between "X" (tagArray ["a"]).lexeme
    let vars := Variables.bindConstant (Variables.bindConstant Table.empty "X" (.array ["a"]))
      "[\"a\"]" (.array ["b"])
    let s := vars.scope ()
    (s "X" = some ⟨.array, .array ["a"]⟩ ∧ s.isBound "0" = false ∧ s.isBound "1" = false) ∧
      text = "X == [\"a\"]" ∧ ¬ Decides s text (["a"].Perm ["a"]) := by
  intro text vars s
  have hcompile : Token.compile text =
      .ok [⟨.identifier, "X"⟩, tagArray ["a"], BinaryOp.eq.token] := by decide +kernel
  have hholds : Evaluate.holds s [⟨.identifier, "X"⟩, tagArray ["a"], BinaryOp.eq.token] =
      .ok false := by decide +kernel
  refine ⟨⟨rfl, rfl, rfl⟩, by decide +kernel, ?_⟩
  rintro ⟨rpn, v, hrpn, hv, hiff⟩
  cases hcompile.symm.trans hrpn
  cases hholds.symm.trans hv
  exact absurd (hiff.mpr (List.Perm.refl _)) (by decide)

end Expression
end GridRules
