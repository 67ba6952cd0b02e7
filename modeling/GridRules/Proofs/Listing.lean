import GridRules.Proofs.CommandGrammar
import GridRules.Proofs.Groups

/-! Commands written out. A text of commands with semicolons between them is read as these
commands again, since their arguments are parts of a list that a scan gave. -/
namespace GridRules

namespace Token

/-- Any part of a list that the scan can give is one as well. -/
theorem WellFormed.part {ts us : List Token} (h : WellFormed ts) (hus : us <:+: ts) :
    WellFormed us :=
  ⟨fun t ht => h.shaped t (hus.subset ht), h.signs.infix hus⟩

theorem infix_intercalate {α : Type} (sep : List α) {x : List α} {xs : List (List α)}
    (h : x ∈ xs) : x <:+: sep.intercalate xs := by
  induction xs with
  | nil => cases h
  | cons y ys ih =>
    cases ys with
    | nil =>
      obtain rfl := List.mem_singleton.mp h
      simp
    | cons z zs =>
      rw [List.intercalate_cons_cons]
      obtain rfl | h := List.mem_cons.mp h
      · exact ((List.prefix_append _ _).trans (List.prefix_append _ _)).isInfix
      · exact (ih h).trans (List.suffix_append _ _).isInfix

/-- What can be scanned at the start can be scanned wherever a value is expected. -/
theorem WellFormed.scan {ts : List Token} (h : WellFormed ts) (offset : Nat)
    {last : Option TokenKind} (hlast : valueExpected last = true) :
    scan checkBody offset last (join ts).toList = .ok ts := by
  obtain ⟨hshaped, hsigns⟩ := wellFormed_iff.mp h
  have hstart : valueExpected last = valueExpected none := hlast
  rw [scan_expected checkBody offset hstart]
  exact scan_join offset hshaped hsigns

theorem scan_single {t : Token} {last : Option TokenKind} (offset : Nat) (h : Admissible last t) :
    scan checkBody offset last t.lexeme.toList = .ok [t] := by
  have hends : Ends [] := by simp [Ends]
  have hlexeme := scan_lexeme offset h hends
  rwa [List.append_nil, scan_nil] at hlexeme

end Token

namespace Command
open Token (WellFormed comma semicolon)
open Expression (opening closing)

/-- A command as a text can give it: its name is a name, and each argument is a group of tokens
that a scan can give. -/
structure Written (c : Command) : Prop where
  name : (⟨.identifier, c.name⟩ : Token).Shaped
  groups : ∀ g ∈ c.arguments, IsGroup g
  wellFormed : ∀ g ∈ c.arguments, WellFormed g

/-- The texts of commands with semicolons between them. -/
def listing (cs : List Command) : String := "; ".intercalate (cs.map text)

/-- The tokens of a command's text. -/
def tokens (c : Command) : List Token :=
  ⟨.identifier, c.name⟩ :: opening :: ([comma].intercalate c.arguments ++ [closing])

variable {ts : List Token} {c : Command} {cs : List Command}

theorem Item.part (h : Item ts (some c)) : ∀ g ∈ c.arguments, g <:+: ts := by
  cases h with
  | bare => exact nofun
  | @call name opening closing groups =>
    intro g hg
    have hlist : g <:+: [comma].intercalate groups ++ [closing] :=
      (Token.infix_intercalate _ hg).trans (List.prefix_append ..).isInfix
    exact hlist.trans (List.suffix_append [_, _] _).isInfix

theorem Item.name_mem (h : Item ts (some c)) : ⟨.identifier, c.name⟩ ∈ ts := by
  cases h with
  | bare | call => simp

theorem Item.written (h : Item ts (some c)) (hts : WellFormed ts) : c.Written :=
  ⟨hts.shaped _ h.name_mem, h.isGroup, fun g hg => hts.part (h.part g hg)⟩

theorem Written.tokenize_arguments (h : c.Written) :
    Token.tokenize (", ".intercalate (c.arguments.map Token.join)) =
      .ok ([comma].intercalate c.arguments) := by
  rw [Token.tokenize, String.toList_intercalate, List.map_map, ← List.map_id c.arguments,
    List.map_map]
  exact Token.scan_intercalate (.inl rfl)
    (fun g hg offset last hlast => (h.wellFormed g hg).scan offset hlast) 0 rfl

/-- The name ends at the parenthesis behind it, and in the parentheses stand the arguments. -/
theorem Written.scan (h : c.Written) (offset : Nat) (last : Option TokenKind) :
    Token.scan Token.checkBody offset last c.text.toList = .ok c.tokens := by
  have htext : c.text.toList = c.name.toList ++
      '(' :: ((", ".intercalate (c.arguments.map Token.join)).toList ++ [')']) := by
    simp [text]
  have hname : Token.Admissible last ⟨.identifier, c.name⟩ :=
    Token.admissible_of_kind h.name (by simp)
  have hstop : Token.IsStop '(' := .inr (by simp)
  obtain ⟨last', hscan⟩ :=
    Token.scan_append (Token.scan_single offset hname) (Token.stops_cons hstop _)
  rw [htext, hscan, Token.scan_group h.tokenize_arguments, Outcome.map_ok]
  rfl

theorem tokenize_listing (h : ∀ c ∈ cs, c.Written) :
    Token.tokenize (listing cs) = .ok ([semicolon].intercalate (cs.map tokens)) := by
  rw [Token.tokenize, listing, String.toList_intercalate, List.map_map]
  exact Token.scan_intercalate (.inr rfl)
    (fun c hc offset last _ => (h c hc).scan offset last) 0 rfl

theorem Written.item (h : c.Written) : Item c.tokens (some c) := .call c.name rfl rfl h.groups

theorem items_tokens (h : ∀ c ∈ cs, c.Written) :
    Items ([semicolon].intercalate (cs.map tokens)) cs := by
  induction cs with
  | nil => exact .last .empty
  | cons c cs ih =>
    obtain ⟨hc, hcs⟩ := List.forall_mem_cons.mp h
    cases cs with
    | nil => simpa using Items.last hc.item
    | cons d cs =>
      rw [List.map_cons, List.map_cons, List.intercalate_cons_cons, List.append_assoc]
      exact .next hc.item (ih hcs)

theorem parse_listing_of_written (h : ∀ c ∈ cs, c.Written) : parse (listing cs) = .ok cs := by
  rw [parse, tokenize_listing h, Outcome.bind_ok]
  exact separate_of_items (items_tokens h)

theorem written_of_parse {text : String} (h : parse text = .ok cs) : ∀ c ∈ cs, c.Written := by
  intro c hc
  obtain ⟨ts, hts, hcs⟩ := Outcome.bind_eq_ok_iff.mp h
  have hform : WellFormed ts := Token.wellFormed_iff.mpr (Token.shaped_of_scan hts)
  obtain ⟨us, hus, hitem⟩ := (items_of_separate hcs).exists_item hc
  exact hitem.written (hform.part hus)

/-- Commands that a text was read as, written out one after the other, are read as the same
commands. -/
theorem parse_listing {text : String} (h : parse text = .ok cs) : parse (listing cs) = .ok cs :=
  parse_listing_of_written (written_of_parse h)

/-- Signs behind a parenthesis and a comma, operators with nothing after them, semicolons in a
string and in an array, items that are empty, and a name without a list. -/
theorem parse_listing_of_signs :
    let text := ";A(-1,-2 - -3 *);; B ( \"x; (y\" ,[\"a\";2] !);C"
    ∃ cs, parse text = .ok cs ∧
      listing cs = "A(-1, -2 - -3 *); B(\"x; (y\", [\"a\";2] !); C()" ∧
      parse (listing cs) = .ok cs := by
  intro text
  let cs : List Command := [
    ⟨"A", [[⟨.numeral, "-1"⟩],
      [⟨.numeral, "-2"⟩, ⟨.arithmetic, "-"⟩, ⟨.numeral, "-3"⟩, ⟨.arithmetic, "*"⟩]]⟩,
    ⟨"B", [[⟨.string, "\"x; (y\""⟩], [⟨.array, "[\"a\";2]"⟩, ⟨.boolean, "!"⟩]]⟩,
    ⟨"C", []⟩]
  have hcs : parse text = .ok cs := by decide +kernel
  exact ⟨cs, hcs, by decide +kernel, parse_listing hcs⟩

end Command
end GridRules
