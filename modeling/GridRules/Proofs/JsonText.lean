import GridRules.Json.Records
import Mathlib.Data.List.TakeWhile
import Mathlib.Tactic.SplitIfs

/-! The text of a tree is read as the same tree. Reading goes through words: the scanner takes the
text apart, and the machine puts the words together. -/
namespace GridRules.Json
open GridRules.Json.Tree

section Strings

theorem hexValue?_hexDigit {n : Nat} (h : n < 16) : hexValue? (hexDigit n) = some n :=
  (by decide : ∀ n < 16, hexValue? (hexDigit n) = some n) n h

theorem hexValues?_hexDigits {n : Nat} (h : n < 256) :
    hexValues? ['0', '0', hexDigit (n / 16), hexDigit (n % 16)] = some n := by
  have hhigh : hexValue? (hexDigit (n / 16)) = some (n / 16) := hexValue?_hexDigit (by omega)
  have hlow : hexValue? (hexDigit (n % 16)) = some (n % 16) := hexValue?_hexDigit (by omega)
  have hzero : hexValue? '0' = some 0 := by decide
  simp only [hexValues?, List.foldlM_cons, List.foldlM_nil, hzero, hhigh, hlow, Option.map_some,
    Option.bind_eq_bind, Option.bind_some, Option.pure_def, Option.some.injEq]
  omega

/-- A character is escaped by a letter or by its number, or it stands for itself. -/
theorem escape_cases (c : Char) :
    (∃ e, shortEscape? e = some c ∧ escape c = ['\\', e]) ∨
    (c.toNat < 0x20 ∧ escape c =
      ['\\', 'u', '0', '0', hexDigit (c.toNat / 16), hexDigit (c.toNat % 16)]) ∨
    (c ≠ '"' ∧ c ≠ '\\' ∧ ¬ c.toNat < 0x20 ∧ escape c = [c]) := by
  unfold escape
  split_ifs with hquote hslash hb hf hn hr ht hcontrol
  · exact .inl ⟨'"', congrArg some hquote.symm, rfl⟩
  · exact .inl ⟨'\\', congrArg some hslash.symm, rfl⟩
  · exact .inl ⟨'b', congrArg some hb.symm, rfl⟩
  · exact .inl ⟨'f', congrArg some hf.symm, rfl⟩
  · exact .inl ⟨'n', congrArg some hn.symm, rfl⟩
  · exact .inl ⟨'r', congrArg some hr.symm, rfl⟩
  · exact .inl ⟨'t', congrArg some ht.symm, rfl⟩
  · exact .inr (.inl ⟨hcontrol, rfl⟩)
  · exact .inr (.inr ⟨hquote, hslash, hcontrol, rfl⟩)

theorem stringUnits_shortEscape {e c : Char} (h : shortEscape? e = some c) (cs : List Char) :
    stringUnits ('\\' :: e :: cs) =
      (stringUnits cs).map fun (units, rest) => (c.toNat :: units, rest) := by
  have he : e ≠ 'u' := by rintro rfl; cases h
  rw [stringUnits, h]
  · cases stringUnits cs <;> rfl
  · exact fun _ _ _ _ _ hu => absurd hu he

theorem stringUnits_escape (c : Char) (cs : List Char) :
    stringUnits (escape c ++ cs) =
      (stringUnits cs).map fun (units, rest) => (c.toNat :: units, rest) := by
  obtain ⟨e, he, hescape⟩ | ⟨hcontrol, hescape⟩ | ⟨hquote, hslash, hcontrol, hescape⟩ :=
    escape_cases c
  · rw [hescape]
    exact stringUnits_shortEscape he cs
  · have hvalue := hexValues?_hexDigits (Nat.lt_trans hcontrol (by decide))
    simp only [hescape, List.cons_append, List.nil_append, stringUnits, hvalue]
    cases stringUnits cs <;> rfl
  · have hplain : ¬ (c = '\\' ∨ c.toNat < 0x20) := by simp [hslash, hcontrol]
    rw [hescape, List.singleton_append, stringUnits, if_neg hplain]
    · cases stringUnits cs <;> rfl
    · exact hquote
    · exact fun _ _ _ _ _ h => absurd h hslash
    · exact fun _ _ h => absurd h hslash

theorem stringUnits_quoted (cs rest : List Char) :
    stringUnits (cs.flatMap escape ++ '"' :: rest) = some (cs.map Char.toNat, rest) := by
  induction cs with
  | nil => rfl
  | cons c cs ih =>
    rw [List.flatMap_cons, List.append_assoc, stringUnits_escape, ih]
    rfl

/-- No character has the number of a surrogate. -/
theorem ofUnits?_toNat (cs : List Char) : ofUnits? (cs.map Char.toNat) = some cs := by
  induction cs with
  | nil => rfl
  | cons c cs ih =>
    have hvalid : c.toNat < 0xD800 ∨ 0xDFFF < c.toNat ∧ c.toNat < 0x110000 := c.valid
    have htrail : isTrail c.toNat = false := by simp [isTrail]; omega
    have hlead : isLead c.toNat = false := by simp [isLead]; omega
    rw [List.map_cons, ofUnits?.eq_def]
    simp [htrail, hlead, ih]

end Strings

section Numbers

theorem isDigit_of_mem_toDigits {n : Nat} {c : Char} (h : c ∈ Nat.toDigits 10 n) :
    c.isDigit = true :=
  Nat.isDigit_of_mem_toDigits (by decide) (by decide) h

theorem head?_toDigits {n : Nat} (h : 0 < n) : (Nat.toDigits 10 n).head? ≠ some '0' := by
  induction n using Nat.strongRecOn with
  | ind n ih =>
    obtain hlt | hle := Nat.lt_or_ge n 10
    · rw [Nat.toDigits_of_lt_base hlt]
      exact (by decide : ∀ n < 10, 0 < n → [Nat.digitChar n].head? ≠ some '0') n hlt h
    · have hfront : (Nat.toDigits 10 (n / 10)).head? ≠ some '0' :=
        ih (n / 10) (by omega) (by omega)
      rw [List.head?_eq_some_head Nat.toDigits_ne_nil] at hfront
      rwa [Nat.toDigits_of_base_le (by decide) hle, List.head?_append,
        List.head?_eq_some_head Nat.toDigits_ne_nil, Option.some_or]

theorem magnitude?_toDigits (negative : Bool) (n : Nat) :
    magnitude? negative (Nat.toDigits 10 n) = some (.integer negative n) := by
  have hdigit : ∀ c ∈ Nat.toDigits 10 n, c.isDigit = true := fun c => isDigit_of_mem_toDigits
  have hzeros : ¬ ((Nat.toDigits 10 n).head? = some '0' ∧ Nat.toDigits 10 n ≠ ['0']) := by
    rintro ⟨hhead, hne⟩
    obtain rfl | hpos := n.eq_zero_or_pos
    · exact hne rfl
    · exact head?_toDigits hpos hhead
  rw [magnitude?, List.takeWhile_eq_self_iff.mpr hdigit, List.dropWhile_eq_nil_iff.mpr hdigit]
  simp [hzeros, Nat.toDigits_ne_nil, Nat.ofDigitChars_ten_toDigits]

/-- The text of a whole number. -/
def numeral (negative : Bool) (n : Nat) : List Char :=
  if negative then '-' :: Nat.toDigits 10 n else Nat.toDigits 10 n

theorem number?_numeral (negative : Bool) (n : Nat) :
    number? (numeral negative n) = some (.integer negative n) := by
  cases negative with
  | true => exact magnitude?_toDigits true n
  | false =>
    have hhead : ∀ cs, Nat.toDigits 10 n ≠ '-' :: cs := fun cs hcs => by
      cases isDigit_of_mem_toDigits (hcs ▸ List.mem_cons_self)
    rw [numeral, if_neg (by decide), number?, magnitude?_toDigits]
    exact hhead

theorem isNumberChar_of_mem_numeral {negative : Bool} {n : Nat} {c : Char}
    (h : c ∈ numeral negative n) : isNumberChar c = true := by
  have hdigit : c ∈ Nat.toDigits 10 n → isNumberChar c = true := fun hc => by
    simp [isNumberChar, isDigit_of_mem_toDigits hc]
  cases negative with
  | true =>
    obtain rfl | hc := List.mem_cons.mp h
    · rfl
    · exact hdigit hc
  | false => exact hdigit h

end Numbers

section Scanning
variable {cs rest : List Char} {c : Char} {w : Lexeme} {ws ws' : List Lexeme}

/-- Neither a number nor a word goes on here. -/
def Ends (rest : List Char) : Prop :=
  ∀ c ∈ rest.head?, isNumberChar c = false ∧ c.isAlpha = false

/-- A mark ends what stands in front of it, and it is neither a space nor a quote. -/
theorem mark?_cases (h : mark? c = some w) :
    (isNumberChar c = false ∧ c.isAlpha = false) ∧ isSpace c = false ∧ c ≠ '"' := by
  unfold mark? at h
  split at h <;> first | decide | cases h

theorem ends_cons_of_mark? (h : mark? c = some w) : Ends (c :: rest) := by
  intro d hd
  cases Option.some.inj hd
  exact (mark?_cases h).1

theorem lexemes?_mark (h : mark? c = some w) (rest : List Char) :
    lexemes? (c :: rest) = (lexemes? rest).map (w :: ·) := by
  obtain ⟨-, hspace, hquote⟩ := mark?_cases h
  rw [lexemes?, if_neg (by simp [hspace]), if_neg hquote, h]

theorem span_append {p : Char → Bool} (hcs : ∀ c ∈ cs, p c)
    (hrest : ∀ c ∈ rest.head?, p c = false) :
    (cs ++ rest).takeWhile p = cs ∧ (cs ++ rest).dropWhile p = rest := by
  rw [List.takeWhile_append_of_pos hcs, List.dropWhile_append_of_pos hcs]
  cases rest with
  | nil => simp
  | cons c rest => simp [hrest c rfl]

theorem mark?_of_isNumberChar (h : isNumberChar c = true) : mark? c = none := by
  cases hmark : mark? c with
  | none => rfl
  | some w => cases h.symm.trans (mark?_cases hmark).1.1

theorem isSpace_of_isNumberChar (h : isNumberChar c = true) : isSpace c = false := by
  rw [Bool.eq_false_iff]
  intro hspace
  have hcases : c = ' ' ∨ c = '\t' ∨ c = '\r' ∨ c = '\n' := by simpa [isSpace] using hspace
  obtain rfl | rfl | rfl | rfl := hcases <;> cases h

theorem lexemes?_number (hcs : ∀ c ∈ cs, isNumberChar c = true) (hw : number? cs = some w)
    (hrest : Ends rest) : lexemes? (cs ++ rest) = (lexemes? rest).map (w :: ·) := by
  obtain _ | ⟨c, cs⟩ := cs
  · cases hw
  · have hc : isNumberChar c = true := hcs c List.mem_cons_self
    have hspace : ¬ isSpace c = true := by simp [isSpace_of_isNumberChar hc]
    have hquote : c ≠ '"' := by rintro rfl; cases hc
    obtain ⟨htake, hdrop⟩ := span_append (fun d hd => hcs d (List.mem_cons_of_mem c hd))
      fun d hd => (hrest d hd).1
    rw [List.cons_append, lexemes?, if_neg hspace, if_neg hquote, mark?_of_isNumberChar hc]
    simp only [hc, if_true, htake, hdrop, hw]
    cases lexemes? rest <;> rfl

theorem lexemes?_letters (hw : word? (c :: cs) = some w) (hcs : cs.all Char.isAlpha = true)
    (hspace : ¬ isSpace c = true) (hquote : c ≠ '"') (hmark : mark? c = none)
    (hnumber : ¬ isNumberChar c = true) (hrest : Ends rest) :
    lexemes? (c :: cs ++ rest) = (lexemes? rest).map (w :: ·) := by
  obtain ⟨htake, hdrop⟩ := span_append (List.all_eq_true.mp hcs) fun d hd => (hrest d hd).2
  rw [List.cons_append, lexemes?, if_neg hspace, if_neg hquote, hmark]
  simp only [if_neg hnumber, htake, hdrop, hw]
  cases lexemes? rest <;> rfl

/-- The three words start with letters that start nothing else. -/
theorem lexemes?_word (hw : word? cs = some w) (hrest : Ends rest) :
    lexemes? (cs ++ rest) = (lexemes? rest).map (w :: ·) := by
  have hcases : cs = "null".toList ∨ cs = "true".toList ∨ cs = "false".toList := by
    unfold word? at hw
    split_ifs at hw <;> simp_all
  obtain rfl | rfl | rfl := hcases <;>
    exact lexemes?_letters hw (by decide) (by decide) (by decide) (by decide) (by decide) hrest

theorem lexemes?_quoted (s : String) (rest : List Char) :
    lexemes? (quoted s ++ rest) = (lexemes? rest).map (.string (some s) :: ·) := by
  have hunits : stringUnits (s.toList.flatMap escape ++ ['"'] ++ rest) =
      some (s.toList.map Char.toNat, rest) := by
    rw [List.append_assoc]
    exact stringUnits_quoted s.toList rest
  rw [quoted, List.cons_append, List.cons_append, lexemes?, if_neg (by decide), if_pos rfl]
  split
  · rename_i h
    cases hunits.symm.trans h
  · rename_i units rest' h
    cases hunits.symm.trans h
    rw [ofUnits?_toNat, Option.map_some, String.ofList_toList]

/-- The words of the characters are `ws`, whatever follows them. -/
def Scans (cs : List Char) (ws : List Lexeme) : Prop :=
  ∀ rest, Ends rest → lexemes? (cs ++ rest) = (lexemes? rest).map (ws ++ ·)

theorem scans_nil : Scans [] [] := by
  intro rest _
  simp

theorem scans_quoted (s : String) : Scans (quoted s) [.string (some s)] :=
  fun rest _ => lexemes?_quoted s rest

theorem Scans.cons (h : Scans cs ws) (hw : mark? c = some w) : Scans (c :: cs) (w :: ws) := by
  intro rest hrest
  rw [List.cons_append, lexemes?_mark hw, h rest hrest]
  cases lexemes? rest <;> rfl

/-- A mark ends whatever is in front of it. -/
theorem Scans.append_cons {cs' : List Char} (h : Scans cs ws) (hw : mark? c = some w)
    (h' : Scans cs' ws') : Scans (cs ++ c :: cs') (ws ++ w :: ws') := by
  intro rest hrest
  rw [List.append_assoc, List.cons_append, h _ (ends_cons_of_mark? hw), lexemes?_mark hw,
    h' rest hrest]
  cases lexemes? rest <;> simp

end Scanning

namespace State
variable {w : Lexeme} {ws ws' : List Lexeme} {st st' : State} {stack : List Frame}

/-- The state after words are read. -/
def reads (ws : List Lexeme) (st : State) : Option State :=
  ws.foldlM (fun st w => State.next w st) st

theorem reads_cons (h : State.next w st = some st') : st.reads (w :: ws) = st'.reads ws := by
  rw [reads, List.foldlM_cons, h]
  rfl

theorem reads_append (h : st.reads ws = some st') : st.reads (ws ++ ws') = st'.reads ws' := by
  rw [reads, List.foldlM_append, ← reads, h]
  rfl

/-- Where each word leads to the same state, so do all words. -/
theorem reads_of_next {other : State} (hnil : ws ≠ [])
    (hnext : ∀ w middle, State.next w st = some middle → State.next w other = some middle)
    (h : st.reads ws = some st') : other.reads ws = some st' := by
  obtain _ | ⟨w, ws⟩ := ws
  · exact absurd rfl hnil
  · obtain ⟨middle, hmiddle, hreads⟩ := Option.bind_eq_some_iff.mp h
    rw [reads_cons (hnext w middle hmiddle)]
    exact hreads

/-- An array that may end at once goes on as one that has to have an item. -/
theorem next_valueOrEnd (h : State.next w (.value (.array [] :: stack)) = some st) :
    State.next w (.valueOrEnd stack) = some st := by
  cases w <;> first | exact h | cases h

theorem next_keyOrEnd (h : State.next w (.nextKey [] stack) = some st) :
    State.next w (.keyOrEnd stack) = some st := by
  cases w <;> first | exact h | cases h

end State

/-- Words of a tree: its text is taken apart into them, and they are put together to it. -/
structure Tree.Spelled (t : Tree) (ws : List Lexeme) : Prop where
  scans : Scans t.render ws
  reads (stack : List Frame) : State.reads ws (.value stack) = some (.complete t stack)

/-- Words of the items of an array that is open. -/
structure SpelledItems (items : List Tree) (ws : List Lexeme) : Prop where
  scans : Scans (renderItems items) ws
  reads (items' : List Tree) (stack : List Frame) :
    State.reads ws (.value (.array items' :: stack)) =
      some (.afterItem (items.reverse ++ items') stack)

/-- Words of the members of an object that is open. -/
structure SpelledMembers (members : List (Option String × Tree)) (ws : List Lexeme) : Prop where
  scans : Scans (renderMembers members) ws
  reads (members' : List (Option String × Tree)) (stack : List Frame) :
    State.reads ws (.nextKey members' stack) =
      some (.afterMember (members.reverse ++ members') stack)

theorem Tree.Spelled.item {t : Tree} {ws : List Lexeme} (h : t.Spelled ws) :
    SpelledItems [t] ws where
  scans := h.scans
  reads items' stack := h.reads (.array items' :: stack)

theorem SpelledItems.cons {t u : Tree} {items : List Tree} {ws ws' : List Lexeme}
    (hitems : SpelledItems (u :: items) ws') (h : t.Spelled ws) :
    SpelledItems (t :: u :: items) (ws ++ .comma :: ws') where
  scans := h.scans.append_cons rfl hitems.scans
  reads items' stack := by
    rw [State.reads_append (h.reads (.array items' :: stack)), State.complete,
      State.reads_cons rfl, hitems.reads]
    simp

theorem SpelledItems.array {items : List Tree} {ws : List Lexeme} (h : SpelledItems items ws) :
    Tree.Spelled (.array items) (.openArray :: ws ++ [.closeArray]) where
  scans := (h.scans.cons rfl).append_cons rfl scans_nil
  reads stack := by
    have hreads : State.reads (ws ++ [.closeArray]) (.value (.array [] :: stack)) =
        some (.complete (.array items) stack) := by
      rw [State.reads_append (h.reads [] stack), State.reads_cons rfl]
      simp [State.reads]
    rw [List.cons_append, State.reads_cons rfl]
    exact State.reads_of_next (by simp) (fun _ _ => State.next_valueOrEnd) hreads

theorem Tree.Spelled.member {t : Tree} {ws : List Lexeme} (h : t.Spelled ws) (k : String) :
    SpelledMembers [(some k, t)] (.string (some k) :: .colon :: ws) where
  scans := (scans_quoted k).append_cons rfl h.scans
  reads members' stack := by
    rw [State.reads_cons rfl, State.reads_cons rfl, h.reads]
    rfl

theorem SpelledMembers.cons {t : Tree} {k : String} {m : Option String × Tree}
    {members : List (Option String × Tree)} {ws ws' : List Lexeme}
    (hmembers : SpelledMembers (m :: members) ws') (h : t.Spelled ws) :
    SpelledMembers ((some k, t) :: m :: members)
      (.string (some k) :: .colon :: ws ++ .comma :: ws') where
  scans := (h.member k).scans.append_cons rfl hmembers.scans
  reads members' stack := by
    rw [State.reads_append ((h.member k).reads members' stack), State.reads_cons rfl,
      hmembers.reads]
    simp

theorem SpelledMembers.object {members : List (Option String × Tree)} {ws : List Lexeme}
    (h : SpelledMembers members ws) :
    Tree.Spelled (.object members) (.openObject :: ws ++ [.closeObject]) where
  scans := (h.scans.cons rfl).append_cons rfl scans_nil
  reads stack := by
    have hreads : State.reads (ws ++ [.closeObject]) (.nextKey [] stack) =
        some (.complete (.object members) stack) := by
      rw [State.reads_append (h.reads [] stack), State.reads_cons rfl]
      simp [State.reads]
    rw [List.cons_append, State.reads_cons rfl]
    exact State.reads_of_next (by simp) (fun _ _ => State.next_keyOrEnd) hreads

/-- Every string in the tree has a text, and so has every key. -/
inductive Tree.HasTexts : Tree → Prop
  | null : HasTexts .null
  | bool (b : Bool) : HasTexts (.bool b)
  | integer (negative : Bool) (n : Nat) : HasTexts (.integer negative n)
  | fraction : HasTexts .fraction
  | string (s : String) : HasTexts (ofString s)
  | array {items : List Tree} (h : ∀ t ∈ items, HasTexts t) : HasTexts (.array items)
  | object {members : List (String × Tree)} (h : ∀ m ∈ members, HasTexts m.2) :
    HasTexts (ofMembers members)

theorem exists_spelledItems {t : Tree} {items : List Tree}
    (h : ∀ u ∈ t :: items, ∃ ws, u.Spelled ws) : ∃ ws, SpelledItems (t :: items) ws := by
  induction items generalizing t with
  | nil =>
    obtain ⟨ws, hws⟩ := h t List.mem_cons_self
    exact ⟨ws, hws.item⟩
  | cons u items ih =>
    obtain ⟨ws, hws⟩ := h t List.mem_cons_self
    obtain ⟨ws', hws'⟩ := ih fun v hv => h v (List.mem_cons_of_mem t hv)
    exact ⟨_, hws'.cons hws⟩

theorem exists_spelledMembers {m : String × Tree} {members : List (String × Tree)}
    (h : ∀ n ∈ m :: members, ∃ ws, n.2.Spelled ws) :
    ∃ ws, SpelledMembers ((m :: members).map fun (k, t) => (some k, t)) ws := by
  induction members generalizing m with
  | nil =>
    obtain ⟨ws, hws⟩ := h m List.mem_cons_self
    exact ⟨_, hws.member m.1⟩
  | cons n members ih =>
    obtain ⟨ws, hws⟩ := h m List.mem_cons_self
    obtain ⟨ws', hws'⟩ := ih fun v hv => h v (List.mem_cons_of_mem m hv)
    exact ⟨_, hws'.cons hws⟩

theorem Tree.HasTexts.exists_spelled {t : Tree} (h : t.HasTexts) : ∃ ws, t.Spelled ws := by
  -- Each part has its words by induction; brackets, commas and colons put them together.
  induction h with
  | null => exact ⟨[.null], fun rest hrest => lexemes?_word rfl hrest, fun _ => rfl⟩
  | bool b =>
    refine ⟨[.bool b], fun rest hrest => lexemes?_word ?_ hrest, fun _ => rfl⟩
    cases b <;> rfl
  | integer negative n =>
    exact ⟨[.integer negative n], fun rest hrest =>
      lexemes?_number (fun c => isNumberChar_of_mem_numeral) (number?_numeral negative n) hrest,
      fun _ => rfl⟩
  | fraction =>
    have hchars : ∀ c ∈ "0.0".toList, isNumberChar c = true := List.all_eq_true.mp (by decide)
    exact ⟨[.fraction], fun rest hrest => lexemes?_number hchars (by decide) hrest, fun _ => rfl⟩
  | string s => exact ⟨[.string (some s)], scans_quoted s, fun _ => rfl⟩
  | @array items _ ih =>
    cases items with
    | nil =>
      exact ⟨[.openArray, .closeArray], (scans_nil.cons rfl).cons rfl, fun _ => rfl⟩
    | cons t items =>
      obtain ⟨ws, hws⟩ := exists_spelledItems ih
      exact ⟨_, hws.array⟩
  | @object members _ ih =>
    cases members with
    | nil =>
      exact ⟨[.openObject, .closeObject], (scans_nil.cons rfl).cons rfl, fun _ => rfl⟩
    | cons m members =>
      obtain ⟨ws, hws⟩ := exists_spelledMembers ih
      exact ⟨_, hws.object⟩

/-- A tree is read back from its text. -/
theorem Tree.HasTexts.ofText?_text {t : Tree} (h : t.HasTexts) : ofText? t.text = some t := by
  obtain ⟨ws, hscans, hreads⟩ := h.exists_spelled
  have hlexemes : lexemes? t.render = some ws := by
    simpa [lexemes?] using hscans [] (by simp [Ends])
  have hstate : ws.foldlM (fun st w => State.next w st) (.value []) = some (.done t) := hreads []
  rw [ofText?, text, String.toList_ofList, hlexemes]
  simp [ofLexemes?, hstate]

end GridRules.Json
