import GridRules.Command
import GridRules.Proofs.Reordering
import GridRules.Proofs.Separators

/-! The grammar of commands. Between semicolons stand items: nothing, a name, or a name with groups
of tokens in parentheses. What the machine has read of an item is always a beginning of one, so it
accepts what the grammar derives and nothing else, and only a list that ends within parentheses is
unbalanced. -/
namespace GridRules.Command
open Token (comma semicolon)

/-- An argument: some tokens, and no parenthesis or separator among them. -/
structure IsGroup (group : List Token) : Prop where
  ne_nil : group ≠ []
  terms : ∀ t ∈ group, t.isTerm = true

/-- What may stand between two semicolons, and the command that it is, if it is one. -/
inductive Item : List Token → Option Command → Prop where
  | empty : Item [] none
  | bare (name : String) : Item [⟨.identifier, name⟩] (some ⟨name, []⟩)
  | call (name : String) {opening closing : Token} {groups : List (List Token)}
      (ho : opening.kind = .leftParen) (hc : closing.kind = .rightParen)
      (hgroups : ∀ g ∈ groups, IsGroup g) :
      Item (⟨.identifier, name⟩ :: opening :: ([comma].intercalate groups ++ [closing]))
        (some ⟨name, groups⟩)

/-- Items with semicolons between them, and the commands among them in their order. -/
inductive Items : List Token → List Command → Prop where
  | last {ts : List Token} {c : Option Command} (h : Item ts c) : Items ts c.toList
  | next {ts rest : List Token} {c : Option Command} {cs : List Command} (h : Item ts c)
      (hrest : Items rest cs) : Items (ts ++ semicolon :: rest) (c.toList ++ cs)

theorem Item.isGroup {ts : List Token} {c : Command} (h : Item ts (some c)) :
    ∀ g ∈ c.arguments, IsGroup g := by
  cases h with
  | bare => exact nofun
  | call _ _ _ hgroups => exact hgroups

/-- Each of the commands is an item of the list. -/
theorem Items.exists_item {ts : List Token} {cs : List Command} (h : Items ts cs) {c : Command}
    (hc : c ∈ cs) : ∃ us, us <:+: ts ∧ Item us (some c) := by
  induction h with
  | last h =>
    obtain rfl := Option.mem_toList.mp hc
    exact ⟨_, List.infix_rfl, h⟩
  | @next ts rest _ _ h _ ih =>
    obtain hc | hc := List.mem_append.mp hc
    · obtain rfl := Option.mem_toList.mp hc
      exact ⟨ts, (List.prefix_append ..).isInfix, h⟩
    · obtain ⟨us, hus, hitem⟩ := ih hc
      have hrest : rest <:+ ts ++ semicolon :: rest :=
        (List.suffix_cons ..).trans (List.suffix_append ..)
      exact ⟨us, hus.trans hrest.isInfix, hitem⟩

/-- Items with a semicolon after each of them, and then a call whose parenthesis is not closed. Its
last group may still be empty. -/
inductive EndsInside : List Token → Prop where
  | call (name : String) {opening : Token} {groups : List (List Token)} {group : List Token}
      (ho : opening.kind = .leftParen) (hgroups : ∀ g ∈ groups, IsGroup g)
      (hgroup : ∀ t ∈ group, t.isTerm = true) :
      EndsInside (⟨.identifier, name⟩ :: opening :: [comma].intercalate (groups ++ [group]))
  | next {ts rest : List Token} {c : Option Command} (h : Item ts c) (hrest : EndsInside rest) :
      EndsInside (ts ++ semicolon :: rest)

/-- The tokens of an item that have been read at a stage. -/
inductive Reads : Stage → List Token → Prop where
  | idle : Reads .idle []
  | named (name : String) : Reads (.named name) [⟨.identifier, name⟩]
  | inside (name : String) {opening : Token} {groups : List (List Token)} {group : List Token}
      (ho : opening.kind = .leftParen) (hgroups : ∀ g ∈ groups, IsGroup g)
      (hgroup : ∀ t ∈ group, t.isTerm = true) :
      Reads (.inside name groups group)
        (⟨.identifier, name⟩ :: opening :: [comma].intercalate (groups ++ [group]))
  | closed {ts : List Token} {c : Command} (h : Item ts (some c)) : Reads (.closed c) ts

theorem isSemicolon_iff {t : Token} : isSemicolon t = true ↔ t = semicolon := by
  obtain ⟨kind, lexeme⟩ := t
  simp [isSemicolon, semicolon]

theorem intercalate_concat {α : Type} (sep : List α) (xs : List (List α)) (x y : List α) :
    sep.intercalate (xs ++ [x ++ y]) = sep.intercalate (xs ++ [x]) ++ y := by
  induction xs with
  | nil => simp
  | cons z xs ih => cases xs <;> simp_all [List.intercalate_cons_cons]

theorem intercalate_concat_nil {α : Type} (sep : List α) (xs : List (List α)) (x : List α) :
    sep.intercalate (xs ++ [x] ++ [[]]) = sep.intercalate (xs ++ [x]) ++ sep := by
  induction xs with
  | nil => simp [List.intercalate_cons_cons]
  | cons z xs ih => cases xs <;> simp_all [List.intercalate_cons_cons]

variable {st : Stage} {front : List Token}

theorem isGroup_concat {groups : List (List Token)} {group : List Token}
    (hgroups : ∀ g ∈ groups, IsGroup g) (hne : group ≠ []) (hgroup : ∀ t ∈ group, t.isTerm = true) :
    ∀ g ∈ groups ++ [group], IsGroup g :=
  List.forall_mem_append.mpr ⟨hgroups, by simpa using ⟨hne, hgroup⟩⟩

/-- A closing parenthesis ends a call whose groups are all there. -/
theorem closeList_cases (name : String) {opening closing : Token} {groups : List (List Token)}
    {group : List Token} (ho : opening.kind = .leftParen) (hc : closing.kind = .rightParen)
    (hgroups : ∀ g ∈ groups, IsGroup g) (hgroup : ∀ t ∈ group, t.isTerm = true) :
    (∃ c, closeList name groups group = .ok (.closed c) ∧
      Item (⟨.identifier, name⟩ :: opening ::
        ([comma].intercalate (groups ++ [group]) ++ [closing])) (some c)) ∨
    closeList name groups group = .error malformed := by
  by_cases hne : group = []
  · by_cases hnil : groups = []
    · subst hne hnil
      exact .inl ⟨⟨name, []⟩, rfl, .call name ho hc hgroups⟩
    · exact .inr (by simp [closeList, hne, hnil])
  · exact .inl ⟨⟨name, groups ++ [group]⟩, by simp [closeList, hne],
      .call name ho hc (isGroup_concat hgroups hne hgroup)⟩

/-- One token more is read of the item, or the token ends it, or no item goes on with it. -/
theorem Reads.next (h : Reads st front) (t : Token) :
    (∃ st', st.next t = .ok (none, st') ∧ Reads st' (front ++ [t])) ∨
    (∃ c, Item front c ∧ t = semicolon ∧ st.next t = .ok (c, .idle)) ∨
    st.next t = .error malformed := by
  cases h with
  | idle =>
    by_cases hs : isSemicolon t = true
    · exact .inr (.inl ⟨none, .empty, isSemicolon_iff.mp hs, by simp [Stage.next, hs]⟩)
    by_cases hk : t.kind = .identifier
    · have ht : t = ⟨.identifier, t.lexeme⟩ := by rw [← hk]
      refine .inl ⟨.named t.lexeme, by simp [Stage.next, hs, hk], ?_⟩
      rw [ht]
      exact .named t.lexeme
    · exact .inr (.inr (by simp [Stage.next, hs, hk]))
  | named name =>
    by_cases hk : t.kind = .leftParen
    · have hgroups : ∀ g ∈ ([] : List (List Token)), IsGroup g := nofun
      have hgroup : ∀ t ∈ ([] : List Token), t.isTerm = true := nofun
      exact .inl ⟨.inside name [] [], by simp [Stage.next, hk], .inside name hk hgroups hgroup⟩
    by_cases hs : isSemicolon t = true
    · exact .inr (.inl ⟨_, .bare name, isSemicolon_iff.mp hs, by simp [Stage.next, hs, hk]⟩)
    · exact .inr (.inr (by simp [Stage.next, hs, hk]))
  | @inside name opening groups group ho hgroups hgroup =>
    have hterm (ht : t.isTerm = true) : Reads (.inside name groups (group ++ [t]))
        (⟨.identifier, name⟩ :: opening :: [comma].intercalate (groups ++ [group]) ++ [t]) := by
      rw [List.cons_append, List.cons_append, ← intercalate_concat]
      exact .inside name ho hgroups (List.forall_mem_append.mpr ⟨hgroup, by simpa using ht⟩)
    obtain ⟨kind, lexeme⟩ := t
    cases kind with
    | leftParen => exact .inr (.inr rfl)
    | rightParen =>
      have hc : (⟨.rightParen, lexeme⟩ : Token).kind = .rightParen := rfl
      obtain ⟨c, hclose, hitem⟩ | hclose := closeList_cases name ho hc hgroups hgroup
      · exact .inl ⟨.closed c, by simp [Stage.next, hclose], .closed hitem⟩
      · exact .inr (.inr (by simp [Stage.next, hclose]))
    | separator =>
      by_cases hcomma : lexeme = "," ∧ group ≠ []
      · obtain ⟨rfl, hne⟩ := hcomma
        refine .inl ⟨.inside name (groups ++ [group]) [], by simp [Stage.next, hne], ?_⟩
        rw [List.cons_append, List.cons_append]
        have hread := intercalate_concat_nil [comma] groups group
        exact hread ▸ .inside name ho (isGroup_concat hgroups hne hgroup) nofun
      · exact .inr (.inr (by simp only [Stage.next, if_neg hcomma]))
    | _ => exact .inl ⟨_, rfl, hterm rfl⟩
  | @closed _ c h =>
    by_cases hs : isSemicolon t = true
    · exact .inr (.inl ⟨some c, h, isSemicolon_iff.mp hs, by simp [Stage.next, hs]⟩)
    · exact .inr (.inr (by simp [Stage.next, hs]))

/-- At the end of the tokens an item is complete or a parenthesis is open. -/
theorem Reads.finish (h : Reads st front) :
    (∃ c, Item front c ∧ st.finish = .ok c.toList) ∨
    (EndsInside front ∧ st.finish = .error Token.unbalanced) := by
  cases h with
  | idle => exact .inl ⟨none, .empty, rfl⟩
  | named name => exact .inl ⟨_, .bare name, rfl⟩
  | inside name ho hgroups hgroup => exact .inr ⟨.call name ho hgroups hgroup, rfl⟩
  | closed h => exact .inl ⟨_, h, rfl⟩

/-! What the machine accepts, and with which fault it refuses all else. -/

theorem separateFrom_cons {st' : Stage} {t : Token} {c : Option Command}
    (h : st.next t = .ok (c, st')) (ts : List Token) :
    separateFrom st (t :: ts) = (separateFrom st' ts).map (c.toList ++ ·) := by
  simp only [separateFrom, h, Outcome.bind_ok]
  cases separateFrom st' ts <;> rfl

theorem separateFrom_cons_none {st' : Stage} {t : Token} (h : st.next t = .ok (none, st'))
    (ts : List Token) : separateFrom st (t :: ts) = separateFrom st' ts := by
  rw [separateFrom_cons h]
  cases separateFrom st' ts <;> rfl

theorem separateFrom_error {t : Token} {e : SyntaxFault} (h : st.next t = .error e)
    (ts : List Token) : separateFrom st (t :: ts) = .error e := by
  rw [separateFrom, h, Outcome.bind_error]

/-- From what has been read on, the outcome tells which part of the grammar the list is in. -/
theorem Reads.outcome (h : Reads st front) (ts : List Token) :
    (∃ cs, separateFrom st ts = .ok cs ∧ Items (front ++ ts) cs) ∨
    (separateFrom st ts = .error Token.unbalanced ∧ EndsInside (front ++ ts)) ∨
    separateFrom st ts = .error malformed := by
  induction ts generalizing st front with
  | nil =>
    rw [List.append_nil]
    obtain ⟨c, hitem, hfinish⟩ | ⟨hinside, hfinish⟩ := h.finish
    · exact .inl ⟨_, hfinish, .last hitem⟩
    · exact .inr (.inl ⟨hfinish, hinside⟩)
  | cons t ts ih =>
    obtain ⟨st', hnext, hread⟩ | ⟨c, hitem, rfl, hnext⟩ | hnext := h.next t
    · obtain ⟨cs, hcs, hitems⟩ | ⟨herror, hinside⟩ | herror := ih hread
      · exact .inl ⟨cs, by rw [separateFrom_cons_none hnext, hcs], by simpa using hitems⟩
      · exact .inr (.inl ⟨by rw [separateFrom_cons_none hnext, herror], by simpa using hinside⟩)
      · exact .inr (.inr (by rw [separateFrom_cons_none hnext, herror]))
    · obtain ⟨cs, hcs, hitems⟩ | ⟨herror, hinside⟩ | herror := ih .idle
      · exact .inl ⟨_, by rw [separateFrom_cons hnext, hcs, Outcome.map_ok], .next hitem hitems⟩
      · exact .inr (.inl ⟨by rw [separateFrom_cons hnext, herror, Outcome.map_error],
          .next hitem hinside⟩)
      · exact .inr (.inr (by rw [separateFrom_cons hnext, herror, Outcome.map_error]))
    · exact .inr (.inr (separateFrom_error hnext ts))

/-! The machine comes through everything that can be read of an item. -/

theorem separateFrom_group (name : String) (groups : List (List Token)) (group : List Token)
    {more : List Token} (h : ∀ t ∈ more, t.isTerm = true) (ts : List Token) :
    separateFrom (.inside name groups group) (more ++ ts) =
      separateFrom (.inside name groups (group ++ more)) ts := by
  induction more generalizing group with
  | nil => simp
  | cons t more ih =>
    obtain ⟨ht, hmore⟩ := List.forall_mem_cons.mp h
    have hnext : Stage.next t (.inside name groups group) =
        .ok (none, .inside name groups (group ++ [t])) := by
      obtain ⟨kind, lexeme⟩ := t
      cases kind with
      | leftParen | rightParen | separator => cases ht
      | _ => rfl
    rw [List.cons_append, separateFrom_cons_none hnext, ih _ hmore, List.append_assoc,
      List.singleton_append]

theorem separateFrom_groups (name : String) (done : List (List Token)) {groups : List (List Token)}
    {group : List Token} (hgroups : ∀ g ∈ groups, IsGroup g)
    (hgroup : ∀ t ∈ group, t.isTerm = true) (ts : List Token) :
    separateFrom (.inside name done []) ([comma].intercalate (groups ++ [group]) ++ ts) =
      separateFrom (.inside name (done ++ groups) group) ts := by
  induction groups generalizing done with
  | nil => simp [separateFrom_group name done [] hgroup]
  | cons g groups ih =>
    obtain ⟨hg, hgroups⟩ := List.forall_mem_cons.mp hgroups
    have hnext : Stage.next comma (.inside name done g) =
        .ok (none, .inside name (done ++ [g]) []) := by
      simp [Stage.next, comma, hg.ne_nil]
    rw [List.cons_append, List.intercalate_cons_of_ne_nil (by simp), List.append_assoc,
      List.append_assoc, separateFrom_group name done [] hg.terms, List.nil_append,
      List.singleton_append, separateFrom_cons_none hnext, ih _ hgroups, List.append_assoc,
      List.singleton_append]

theorem separateFrom_opening (name : String) {opening : Token} (ho : opening.kind = .leftParen)
    (ts : List Token) :
    separateFrom .idle (⟨.identifier, name⟩ :: opening :: ts) =
      separateFrom (.inside name [] []) ts := by
  have hname : Stage.next ⟨.identifier, name⟩ .idle = .ok (none, .named name) := rfl
  have hopening : Stage.next opening (.named name) = .ok (none, .inside name [] []) := by
    simp [Stage.next, ho]
  rw [separateFrom_cons_none hname, separateFrom_cons_none hopening]

/-- After an item the machine is at a stage where it has the item's command. -/
theorem separateFrom_item {ts : List Token} {c : Option Command} (h : Item ts c) :
    ∃ st : Stage, (∀ rest, separateFrom .idle (ts ++ rest) = separateFrom st rest) ∧
      st.finish = .ok c.toList ∧ st.next semicolon = .ok (c, .idle) := by
  cases h with
  | empty => exact ⟨.idle, fun _ => rfl, rfl, rfl⟩
  | bare name =>
    have hname : Stage.next ⟨.identifier, name⟩ .idle = .ok (none, .named name) := rfl
    exact ⟨.named name, separateFrom_cons_none hname, rfl, rfl⟩
  | @call name opening closing groups ho hc hgroups =>
    refine ⟨.closed ⟨name, groups⟩, fun rest => ?_, rfl, rfl⟩
    rw [List.cons_append, List.cons_append, List.append_assoc, List.singleton_append,
      separateFrom_opening name ho]
    obtain rfl | ⟨groups, group, rfl⟩ := groups.eq_nil_or_concat
    · have hclosing : Stage.next closing (.inside name [] []) = .ok (none, .closed ⟨name, []⟩) := by
        simp [Stage.next, hc, closeList]
      exact separateFrom_cons_none hclosing rest
    · rw [List.concat_eq_append] at hgroups ⊢
      obtain ⟨hgroups, hgroup⟩ := List.forall_mem_append.mp hgroups
      have hg : IsGroup group := hgroup group (by simp)
      have hclosing : Stage.next closing (.inside name ([] ++ groups) group) =
          .ok (none, .closed ⟨name, groups ++ [group]⟩) := by
        simp [Stage.next, hc, closeList, hg.ne_nil]
      rw [separateFrom_groups name [] hgroups hg.terms, separateFrom_cons_none hclosing]

theorem separate_of_items {ts : List Token} {cs : List Command} (h : Items ts cs) :
    separate ts = .ok cs := by
  rw [separate]
  induction h with
  | last h =>
    obtain ⟨st, hst, hfinish, -⟩ := separateFrom_item h
    have hend := hst []
    rw [List.append_nil] at hend
    exact hend.trans hfinish
  | next h _ ih =>
    obtain ⟨st, hst, -, hnext⟩ := separateFrom_item h
    rw [hst, separateFrom_cons hnext, ih, Outcome.map_ok]

theorem separate_of_endsInside {ts : List Token} (h : EndsInside ts) :
    separate ts = .error Token.unbalanced := by
  rw [separate]
  induction h with
  | call name ho hgroups hgroup =>
    rw [separateFrom_opening name ho, ← List.append_nil (List.intercalate ..),
      separateFrom_groups name [] hgroups hgroup]
    rfl
  | next h _ ih =>
    obtain ⟨st, hst, -, hnext⟩ := separateFrom_item h
    rw [hst, separateFrom_cons hnext, ih, Outcome.map_error]

theorem separate_cases (ts : List Token) :
    (∃ cs, separate ts = .ok cs ∧ Items ts cs) ∨
    (separate ts = .error Token.unbalanced ∧ EndsInside ts) ∨ separate ts = .error malformed :=
  Reads.idle.outcome ts

theorem items_of_separate {ts : List Token} {cs : List Command} (h : separate ts = .ok cs) :
    Items ts cs := by
  obtain ⟨cs', hcs, hitems⟩ | ⟨herror, -⟩ | herror := separate_cases ts
  · cases h.symm.trans hcs
    exact hitems
  · cases h.symm.trans herror
  · cases h.symm.trans herror

/-- The commands of a list of tokens are those that the grammar gives it. A list with an open
parenthesis at its end and no other fault is unbalanced, and every other one is malformed. -/
theorem separate_iff (ts : List Token) :
    (∀ cs, separate ts = .ok cs ↔ Items ts cs) ∧
      (separate ts = .error Token.unbalanced ↔ EndsInside ts) ∧
      (separate ts = .error malformed ↔ (¬ ∃ cs, Items ts cs) ∧ ¬ EndsInside ts) := by
  have hne : Token.unbalanced ≠ malformed := by decide
  refine ⟨fun cs => ⟨items_of_separate, separate_of_items⟩,
    ⟨fun h => ?_, separate_of_endsInside⟩, fun h => ⟨?_, ?_⟩, fun ⟨hitems, hinside⟩ => ?_⟩
  · obtain ⟨cs', hcs, -⟩ | ⟨-, hinside⟩ | herror := separate_cases ts
    · cases h.symm.trans hcs
    · exact hinside
    · exact absurd (Except.error.inj (h.symm.trans herror)) hne
  · rintro ⟨cs, hitems⟩
    cases h.symm.trans (separate_of_items hitems)
  · intro hinside
    exact hne (Except.error.inj ((separate_of_endsInside hinside).symm.trans h))
  · obtain ⟨cs, -, h⟩ | ⟨-, h⟩ | herror := separate_cases ts
    · exact absurd ⟨cs, h⟩ hitems
    · exact absurd h hinside
    · exact herror

end GridRules.Command
