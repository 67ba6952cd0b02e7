import GridRules.Evaluate
import GridRules.Proofs.ScanOn

/-! The margins of arrays. An array is judged by the text between its brackets without the blanks
at its ends, but it is read by that text with them. Gaps among them change nothing; any other one
makes the array unreadable. -/
namespace GridRules

namespace Text

def leading (cs : List Char) : List Char := cs.takeWhile isBlank

def trailing (cs : List Char) : List Char := ((trimStart cs).reverse.takeWhile isBlank).reverse

/-- The blanks that trimming takes off. -/
def margins (cs : List Char) : List Char := leading cs ++ trailing cs

theorem trim_append_trailing (cs : List Char) : trim cs ++ trailing cs = trimStart cs := by
  rw [trim, trimEnd, trailing, ← List.reverse_append, List.takeWhile_append_dropWhile,
    List.reverse_reverse]

theorem leading_append_trimStart (cs : List Char) : leading cs ++ trimStart cs = cs :=
  List.takeWhile_append_dropWhile

theorem isBlank_of_mem_leading (cs : List Char) : ∀ c ∈ leading cs, isBlank c = true :=
  fun _ h => List.mem_takeWhile_imp h

theorem isBlank_of_mem_trailing (cs : List Char) : ∀ c ∈ trailing cs, isBlank c = true :=
  fun _ h => List.mem_takeWhile_imp (List.mem_reverse.mp h)

/-- A text between two characters that are no blanks has no margins. -/
theorem trim_wrap {a b : Char} (ha : isBlank a = false) (hb : isBlank b = false)
    (cs : List Char) : trim (a :: (cs ++ [b])) = a :: (cs ++ [b]) := by
  have hstart : trimStart (a :: (cs ++ [b])) = a :: (cs ++ [b]) := by simp [trimStart, ha]
  have hend : (a :: (cs ++ [b])).reverse = b :: (a :: cs).reverse := by simp
  rw [trim, hstart, trimEnd, hend, List.dropWhile_cons_of_neg (by simp [hb]), ← hend,
    List.reverse_reverse]

theorem trim_eq_self {cs : List Char} (h : ∀ c ∈ cs, isBlank c = false) : trim cs = cs := by
  have hkeep {ds : List Char} (hds : ∀ c ∈ ds, isBlank c = false) : ds.dropWhile isBlank = ds := by
    cases ds with
    | nil => rfl
    | cons d ds => exact List.dropWhile_cons_of_neg (by simp [hds d (by simp)])
  have hreverse : ∀ c ∈ cs.reverse, isBlank c = false := fun c hc => h c (List.mem_reverse.mp hc)
  rw [trim, trimStart, hkeep h, trimEnd, hkeep hreverse, List.reverse_reverse]

theorem trimmed_eq_self {s : String} (h : ∀ c ∈ s.toList, isBlank c = false) : trimmed s = s := by
  rw [trimmed, trim_eq_self h, String.ofList_toList]

end Text

namespace Token
open Text (leading trailing margins)

theorem arrayElements_wrap (body : List Char) :
    arrayElements (String.ofList ('[' :: (body ++ [']']))) =
      scan checkBody 0 none body >>= elements := by
  have htrim : Text.trim ('[' :: (body ++ [']'])) = '[' :: (body ++ [']']) :=
    Text.trim_wrap (by decide) (by decide) body
  simp only [arrayElements, String.toList_ofList, htrim, Text.between?_wrap, Option.getD_some]

theorem arrayElements_unopened {body : List Char} (h : Unopened false body) :
    arrayElements (String.ofList body) = scan checkBody 0 none (Text.trim body) >>= elements := by
  simp only [arrayElements, String.toList_ofList, h.trim.between?, Option.getD_none]

/-- A text whose trimmed form can be scanned is scanned like it, up to the first blank at its ends
that is not a gap. -/
theorem scan_margins {body : List Char} {ts : List Token}
    (h : scan checkBody 0 none (Text.trim body) = .ok ts) :
    match (margins body).find? (!isGap ·) with
    | none => scan checkBody 0 none body = .ok ts
    | some c => ∃ offset, scan checkBody 0 none body = .error ⟨.unexpected c, offset⟩ := by
  have hstops : Stops (trailing body) :=
    fun c hc => .inl (Text.isBlank_of_mem_trailing body c (List.mem_of_mem_head? hc))
  obtain ⟨last, hmiddle⟩ := scan_append (scan_offset h (0 + (leading body).length)) hstops
  have htrailing := scan_blanks checkBody (Text.isBlank_of_mem_trailing body)
    (0 + (leading body).length + byteLength (Text.trim body)) last []
  have hleading := scan_blanks checkBody (Text.isBlank_of_mem_leading body) 0 none
    (Text.trimStart body)
  rw [List.append_nil] at htrailing
  rw [Text.leading_append_trimStart, ← Text.trim_append_trailing, hmiddle, htrailing] at hleading
  rw [margins, List.find?_append, hleading]
  cases (leading body).find? (!isGap ·) with
  | some c => exact ⟨_, rfl⟩
  | none =>
    cases (trailing body).find? (!isGap ·) with
    | some c => exact ⟨_, rfl⟩
    | none => simp [scan_nil]

theorem literal_array?_wrap (body : List Char) :
    Literal.array? (String.ofList ('[' :: (body ++ [']']))) =
      (arrayElements (String.ofList ('[' :: (body ++ [']'])))).toOption := by
  have hstart : Text.trimStart ('[' :: (body ++ [']'])) = '[' :: (body ++ [']']) := by
    rw [Text.trimStart, List.dropWhile_cons_of_neg (by decide)]
  simp [Literal.array?, hstart]

/-- An operator that takes tag lists reads an array as a literal, unless a variable has the very
same text for its name. -/
theorem elementsOf_wrap {s : Scope} {body : List Char} (kind : TokenKind)
    (h : s.isBound (String.ofList ('[' :: (body ++ [']']))) = false) :
    Evaluate.elementsOf s ⟨kind, String.ofList ('[' :: (body ++ [']']))⟩ =
      (arrayElements (String.ofList ('[' :: (body ++ [']'])))).mapError fun _ =>
        .typeMismatch (String.ofList ('[' :: (body ++ [']']))) := by
  simp only [Evaluate.elementsOf, Scope.read?, h, Reading.array, literal_array?_wrap]
  cases arrayElements (String.ofList ('[' :: (body ++ [']']))) <;> rfl

/-- The text between the brackets of an array can always be read. With the brackets it gives the
same elements if the blanks at its ends are all gaps; else the first that is none is refused, and
so is every comparison of the array. -/
theorem arrayElements_of_tokenize {text : String} {ts : List Token} {t : Token}
    (h : tokenize text = .ok ts) (ht : t ∈ ts) (hk : t.kind = .array) :
    ∃ body elements, t.lexeme = String.ofList ('[' :: (body ++ [']'])) ∧
      arrayElements (String.ofList body) = .ok elements ∧
      (match (margins body).find? (!isGap ·) with
        | none => arrayElements t.lexeme = .ok elements
        | some c => ∃ offset, arrayElements t.lexeme = .error ⟨.unexpected c, offset⟩) ∧
      ∀ s : Scope, s.isBound t.lexeme = false →
        Evaluate.elementsOf s t =
          (arrayElements t.lexeme).mapError fun _ => .typeMismatch t.lexeme := by
  obtain ⟨kind, lexeme⟩ := t
  subst hk
  obtain ⟨body, henc, ⟨found, hfound⟩, rfl⟩ := (shaped_of_scan h).1 _ ht
  refine ⟨body, found, rfl, hfound, ?_, fun s hs => elementsOf_wrap .array hs⟩
  rw [arrayElements_unopened henc.unopened] at hfound
  obtain ⟨us, hus, hfound⟩ := Outcome.bind_eq_ok_iff.mp hfound
  have hmargins := scan_margins hus
  rw [arrayElements_wrap]
  cases hstray : (margins body).find? (!isGap ·) with
  | none =>
    rw [hstray] at hmargins
    simp [hmargins, hfound]
  | some c =>
    rw [hstray] at hmargins
    obtain ⟨offset, herror⟩ := hmargins
    exact ⟨offset, by simp [herror]⟩

theorem arrayElements_of_tokenize_spaced :
    ∃ body elements, "[ 1]" = String.ofList ('[' :: (body ++ [']'])) ∧
      arrayElements (String.ofList body) = .ok elements ∧
      (match (margins body).find? (!isGap ·) with
        | none => arrayElements "[ 1]" = .ok elements
        | some c => ∃ offset, arrayElements "[ 1]" = .error ⟨.unexpected c, offset⟩) ∧
      ∀ s : Scope, s.isBound "[ 1]" = false →
        Evaluate.elementsOf s ⟨.array, "[ 1]"⟩ =
          (arrayElements "[ 1]").mapError fun _ => .typeMismatch "[ 1]" :=
  have h : tokenize "[ 1]" = .ok [⟨.array, "[ 1]"⟩] := by decide +kernel
  arrayElements_of_tokenize h (List.mem_singleton_self _) rfl

/-- A no-break space is a blank but no gap: the text between the brackets can be read, and the
array that it makes cannot. -/
theorem arrayElements_nbsp :
    tokenize "[\u00A01]" = .ok [⟨.array, "[\u00A01]"⟩] ∧
      arrayElements "\u00A01" = .ok ["1"] ∧
      arrayElements "[\u00A01]" = .error ⟨.unexpected '\u00A0', 0⟩ := by
  decide +kernel

end Token
end GridRules
