import TypeLayer.Proofs.TypeExpr.Reading

/-!
# Printed type expressions

Printing puts every arrow into parentheses, so that each printed expression is an atom of
the grammar, and reading drops the parentheses again.  `Spells` says what tokens a piece of
text is made of, whatever follows it, and has one rule for each way the printer puts pieces
together.  With these rules `spelled_of_printable` finds, by induction on the expression, a
derivation for its printed form that stands for the expression again.

Not every tree can be printed and read: a word has to be a word of the language, and a tuple
of one item would be read as the item.  `Printable` are the trees without such nodes, and
reading gives no others (`printable_of_parse`).
-/

namespace TypeLayer

open Grammar

/-! ## Words -/

/-- The name is a word: an ASCII letter or an underscore, followed by letters, digits and
underscores. -/
def IsWord (name : String) : Prop :=
  ∃ c cs, name.toList = c :: cs ∧ isWordStart c ∧ ∀ d ∈ cs, isWordPart d

theorem isWord_iff {name : String} : IsWord name ↔
    (name.toList.head?.any isWordStart && name.toList.tail.all isWordPart) = true := by
  unfold IsWord
  cases name.toList with
  | nil => simp
  | cons c cs =>
    simp only [List.head?_cons, List.tail_cons, Option.any_some, Bool.and_eq_true, List.all_eq_true]
    constructor
    · rintro ⟨d, ds, heq, hd, hds⟩
      cases heq
      exact ⟨hd, hds⟩
    · intro h
      exact ⟨c, cs, rfl, h⟩

instance (name : String) : Decidable (IsWord name) :=
  decidable_of_iff _ isWord_iff.symm

theorem isWord_of_all {name : String} {c : Char} {cs : List Char} (hname : name.toList = c :: cs)
    (hc : isWordStart c = true) (hcs : cs.all isWordPart = true) : IsWord name :=
  ⟨c, cs, hname, hc, List.all_eq_true.1 hcs⟩

/-- A word is none of the two names that are written in a form of their own. -/
theorem IsWord.ne_arrowName {name : String} (h : IsWord name) : name ≠ arrowName := by
  obtain ⟨c, cs, hname, hc, -⟩ := h
  rintro rfl
  cases hname
  exact absurd hc (by decide)

theorem IsWord.ne_tupleName {name : String} (h : IsWord name) : name ≠ tupleName := by
  obtain ⟨c, cs, hname, hc, -⟩ := h
  rintro rfl
  cases hname
  exact absurd hc (by decide)

theorem isDigit_of_mem_repr {n : Nat} {c : Char} (h : c ∈ n.repr.toList) : c.isDigit = true := by
  rw [Nat.toList_repr] at h
  exact Nat.isDigit_of_mem_toDigits (by decide) (by decide) h

theorem repr_inj {n m : Nat} (h : n.repr.toList = m.repr.toList) : n = m := by
  rw [Nat.toList_repr, Nat.toList_repr] at h
  rw [← Nat.ofDigitChars_ten_toDigits (n := n), h, Nat.ofDigitChars_ten_toDigits]

theorem Lexes.isWord {offset : Nat} {cs : List Char} {tokens : List Token}
    (h : Lexes offset cs tokens) {name : String} {span : Span}
    (hmem : ⟨.word name, span⟩ ∈ tokens) : IsWord name := by
  induction h with
  | done => cases hmem
  | blank _ _ ih => exact ih hmem
  | mark hkind _ ih =>
    rcases List.mem_cons.1 hmem with heq | hmem
    · cases heq
      exact absurd hkind id
    · exact ih hmem
  | @word _ c cs _ _ hc hcs _ _ ih =>
    rcases List.mem_cons.1 hmem with heq | hmem
    · cases heq
      exact ⟨c, cs, String.toList_ofList, hc, hcs⟩
    · exact ih hmem

/-! ## Text in front of other text -/

/-- The text between two offsets is made of the tokens, in front of any text that does not
go on with its last word. -/
def Spells (offset stop : Nat) (cs : List Char) (tokens : List Token) : Prop :=
  ∀ rest later, (∀ d ∈ rest.head?, ¬ isWordPart d) → Lexes stop rest later →
    Lexes offset (cs ++ rest) (tokens ++ later)

section
variable {offset middle stop : Nat} {cs cs' : List Char} {tokens tokens' : List Token}
  {kind : Token.Kind}

theorem Spells.lexes (h : Spells offset stop cs tokens) : Lexes offset cs tokens := by
  have hend := h [] [] (fun d hd => nomatch hd) .done
  rwa [List.append_nil, List.append_nil] at hend

theorem spells_nil (offset : Nat) : Spells offset offset [] [] :=
  fun _ _ _ h => h

theorem spells_word {name : String} (h : IsWord name) (offset : Nat) :
    Spells offset (offset + name.toList.length) name.toList
      [⟨.word name, ⟨offset, offset + name.toList.length⟩⟩] := by
  obtain ⟨c, cs, hname, hc, hcs⟩ := h
  intro rest later hrest hlater
  have hword : name = String.ofList (c :: cs) := by rw [← hname, String.ofList_toList]
  rw [hname] at hlater ⊢
  rw [hword]
  exact .word hc hcs hrest hlater

/-- A mark may stand in front of anything. -/
theorem Spells.mark (hkind : kind.IsMark)
    (h : Spells (offset + kind.text.length) stop cs tokens) :
    Spells offset stop (kind.text.toList ++ cs)
      (⟨kind, ⟨offset, offset + kind.text.length⟩⟩ :: tokens) := by
  intro rest later hrest hlater
  rw [List.append_assoc, List.cons_append]
  exact .mark hkind (h rest later hrest hlater)

theorem Spells.blank {c : Char} (hc : Text.isBlank c)
    (h : Spells (offset + c.utf8Size) stop cs tokens) : Spells offset stop (c :: cs) tokens := by
  intro rest later hrest hlater
  exact .blank hc (h rest later hrest hlater)

theorem Spells.space (h : Spells (offset + 1) stop cs tokens) :
    Spells offset stop (' ' :: cs) tokens := by
  have hspace : Text.isBlank ' ' := by decide
  exact .blank hspace h

/-- Any text may stand in front of text that does not begin like the middle of a word. -/
theorem Spells.append {d : Char} (h : Spells offset middle cs tokens) (hd : isWordPart d = false)
    (h' : Spells middle stop (d :: cs') tokens') :
    Spells offset stop (cs ++ d :: cs') (tokens ++ tokens') := by
  intro rest later hrest hlater
  rw [List.append_assoc, List.append_assoc]
  refine h _ _ (fun e he => ?_) (h' rest later hrest hlater)
  obtain rfl : d = e := Option.some.inj he
  rw [hd]
  exact Bool.false_ne_true

theorem exists_text_of_isMark (hkind : kind.IsMark) :
    ∃ d ds, kind.text.toList = d :: ds ∧ isWordPart d = false := by
  cases kind with
  | word name => cases hkind
  | opening d | closing d => cases d <;> exact ⟨_, _, rfl, by decide⟩
  | comma | arrow => exact ⟨_, _, rfl, by decide⟩

theorem Spells.append_mark (h : Spells offset middle cs tokens) (hkind : kind.IsMark)
    (h' : Spells (middle + kind.text.length) stop cs' tokens') :
    Spells offset stop (cs ++ (kind.text.toList ++ cs'))
      (tokens ++ ⟨kind, ⟨middle, middle + kind.text.length⟩⟩ :: tokens') := by
  obtain ⟨d, ds, htext, hd⟩ := exists_text_of_isMark hkind
  have hmark := h'.mark hkind
  rw [htext] at hmark ⊢
  exact h.append hd hmark

/-- Text between two delimiters. -/
theorem Spells.enclosed (d : Delimiter) (h : Spells (offset + 1) stop cs tokens) :
    Spells offset (stop + 1) (d.opening :: (cs ++ [d.closing]))
      (⟨.opening d, ⟨offset, offset + 1⟩⟩ :: (tokens ++ [⟨.closing d, ⟨stop, stop + 1⟩⟩])) := by
  have hopening : (Token.Kind.opening d).IsMark := trivial
  have hclosing : (Token.Kind.closing d).IsMark := trivial
  have htexts : (Token.Kind.opening d).text.toList = [d.opening] ∧
      (Token.Kind.closing d).text.toList = [d.closing] := by cases d <;> exact ⟨rfl, rfl⟩
  have hlengths : (Token.Kind.opening d).text.length = 1 ∧
      (Token.Kind.closing d).text.length = 1 := by cases d <;> exact ⟨rfl, rfl⟩
  have hinner := h.append_mark hclosing (spells_nil _)
  rw [htexts.2, hlengths.2] at hinner
  rw [← hlengths.1] at hinner
  have houter := hinner.mark hopening
  rw [htexts.1, hlengths.1] at houter
  exact houter

end

namespace TypeExpr

/-! ## Trees that can be printed -/

/-- The name starts with one of the letters `A` to `Z`. -/
def StartsUpper (name : String) : Prop :=
  ∃ c ∈ name.toList.head?, 'A' ≤ c ∧ c ≤ 'Z'

/-- The trees whose printed form can be read. -/
inductive Printable : TypeExpr → Prop
  | parameter {name : String} {params : List TypeExpr} {span : Span} :
    IsWord name → ¬ StartsUpper name → (∀ p ∈ params, Printable p) →
    Printable ⟨name, params, true, span⟩
  | constructor {name : String} {params : List TypeExpr} {span : Span} :
    IsWord name → StartsUpper name → (∀ p ∈ params, Printable p) →
    Printable ⟨name, params, false, span⟩
  | arrow {domain codomain : TypeExpr} {span : Span} : Printable domain → Printable codomain →
    Printable ⟨arrowName, [domain, codomain], false, span⟩
  | tuple {items : List TypeExpr} {span : Span} : items.length ≠ 1 → (∀ p ∈ items, Printable p) →
    Printable ⟨tupleName, items, false, span⟩

mutual
/-- The tree without its spans. -/
def bare : TypeExpr → TypeExpr
  | { name, params, parameter, span := _ } =>
    { name, params := bareAll params, parameter, span := default }
def bareAll : List TypeExpr → List TypeExpr
  | [] => []
  | e :: rest => bare e :: bareAll rest
end

theorem bareAll_eq_map (es : List TypeExpr) : bareAll es = es.map bare := by
  induction es with
  | nil => rfl
  | cons e rest ih => rw [bareAll, ih, List.map_cons]

/-- Spans are not printed. -/
theorem render_bare (e : TypeExpr) : e.bare.render = e.render := by
  induction e using TypeExpr.induction_on with
  | node name params parameter span ih =>
    have hparams : renderAll (bareAll params) = renderAll params := by
      rw [renderAll_eq_map, renderAll_eq_map, bareAll_eq_map, List.map_map]
      exact List.map_congr_left ih
    rw [bare, render, render, hparams]

theorem startsUpper_iff {name : String} :
    StartsUpper name ↔ (name.toList.head?.any fun c => 'A' ≤ c ∧ c ≤ 'Z') = true := by
  unfold StartsUpper
  cases name.toList.head? <;> simp

instance (name : String) : Decidable (StartsUpper name) :=
  decidable_of_iff _ startsUpper_iff.symm

theorem node_of_startsUpper {name : String} (h : StartsUpper name) (params : List TypeExpr)
    (span : Span) : node name params span = ⟨name, params, false, span⟩ := by
  rw [node, startsUpper_iff.1 h]
  rfl

theorem node_of_not_startsUpper {name : String} (h : ¬ StartsUpper name) (params : List TypeExpr)
    (span : Span) : node name params span = ⟨name, params, true, span⟩ := by
  rw [node, Bool.eq_false_iff.2 fun hupper => h (startsUpper_iff.2 hupper)]
  rfl

theorem printable_node {name : String} {params : List TypeExpr} (hname : IsWord name)
    (hparams : ∀ p ∈ params, Printable p) (span : Span) : (node name params span).Printable := by
  by_cases hupper : StartsUpper name
  · rw [node_of_startsUpper hupper]
    exact .constructor hname hupper hparams
  · rw [node_of_not_startsUpper hupper]
    exact .parameter hname hupper hparams

theorem isWord_sliceName : IsWord sliceName :=
  isWord_of_all rfl rfl rfl

theorem startsUpper_sliceName : StartsUpper sliceName :=
  startsUpper_iff.2 rfl

/-- What a phrase stands for can be printed. -/
def AllPrintable : {n : Nonterminal} → n.Tree → Prop
  | .type, t => Printable t
  | .atom, t => Printable t
  | .list, ts => ∀ t ∈ ts, Printable t

/-- Derivations whose words are words of the language stand for trees that can be printed. -/
theorem allPrintable_tree {n : Nonterminal} (d : Derivation n)
    (hwords : ∀ name span, ⟨.word name, span⟩ ∈ d.yield → IsWord name) :
    AllPrintable d.tree := by
  induction d with
  | atom a ih => exact ih hwords
  | arrow domain span codomain ihd ihc =>
    refine .arrow (ihd fun name s hmem => hwords name s ?_)
      (ihc fun name s hmem => hwords name s ?_)
    · exact List.mem_append_left _ hmem
    · exact List.mem_append_right _ (List.mem_cons_of_mem _ hmem)
  | word name span =>
    exact printable_node (hwords name span List.mem_cons_self) (List.forall_mem_nil _) span
  | applied name span opening items closing ih =>
    refine printable_node (hwords name span List.mem_cons_self) (ih fun name s hmem => ?_) _
    refine hwords name s (List.mem_cons_of_mem _ (List.mem_cons_of_mem _ ?_))
    exact List.mem_append_left _ hmem
  | unit opening closing =>
    exact .tuple (by simp) (List.forall_mem_nil _)
  | group opening items closing ih =>
    have hitems : ∀ t ∈ items.tree, Printable t := by
      refine ih fun name s hmem => hwords name s (List.mem_cons_of_mem _ ?_)
      exact List.mem_append_left _ hmem
    -- One type in parentheses is the type itself, so that no tuple of one item comes up.
    show Printable (grouped _ items.tree)
    by_cases hone : items.tree.length = 1
    · obtain ⟨t, ht⟩ := List.length_eq_one_iff.1 hone
      rw [ht] at hitems ⊢
      exact hitems t List.mem_cons_self
    · rw [grouped_of_ne_one hone]
      exact .tuple hone hitems
  | slice opening element closing ih =>
    have helement : Printable element.tree := by
      refine ih fun name s hmem => hwords name s (List.mem_cons_of_mem _ ?_)
      exact List.mem_append_left _ hmem
    refine .constructor isWord_sliceName startsUpper_sliceName fun p hp => ?_
    obtain rfl := List.mem_singleton.1 hp
    exact helement
  | one t ih =>
    intro u hu
    obtain rfl := List.mem_singleton.1 hu
    exact ih hwords
  | more t comma rest ih ihr =>
    refine List.forall_mem_cons.2 ⟨ih fun name s hmem => hwords name s ?_,
      ihr fun name s hmem => hwords name s ?_⟩
    · exact List.mem_append_left _ hmem
    · exact List.mem_append_right _ (List.mem_cons_of_mem _ hmem)

/-! ## Printed forms are spelled as the grammar asks -/

/-- From every offset, the printed form is spelled like an atom that stands for the
expression. -/
def Spelled (e : TypeExpr) : Prop :=
  ∀ offset, ∃ stop, ∃ a : Derivation .atom,
    Spells offset stop e.render.toList a.yield ∧ a.tree.bare = e.bare

theorem exists_spelled_list {es : List TypeExpr} (hne : es ≠ []) (hes : ∀ e ∈ es, Spelled e)
    (offset : Nat) : ∃ stop, ∃ items : Derivation .list,
      Spells offset stop (Application.list (renderAll es)).toList items.yield ∧
        bareAll items.tree = bareAll es := by
  induction es generalizing offset with
  | nil => exact absurd rfl hne
  | cons e rest ih =>
    rw [List.forall_mem_cons] at hes
    obtain ⟨middle, a, ha, htree⟩ := hes.1 offset
    cases rest with
    | nil =>
      refine ⟨middle, .one (.atom a), ?_, ?_⟩
      · rw [renderAll, renderAll, Application.list, String.intercalate_singleton]
        exact ha
      · show [a.tree.bare] = [e.bare]
        rw [htree]
    | cons e' rest =>
      obtain ⟨stop, items, hitems, htrees⟩ := ih (List.cons_ne_nil _ _) hes.2 (middle + 1 + 1)
      have hcomma : Token.Kind.comma.IsMark := trivial
      refine ⟨stop, .more (.atom a) ⟨middle, middle + 1⟩ items, ?_, ?_⟩
      · rw [renderAll, renderAll, Application.list, String.intercalate_cons_cons,
          String.toList_append, String.toList_append, List.append_assoc]
        exact ha.append_mark hcomma hitems.space
      · show a.tree.bare :: bareAll items.tree = e.bare :: bareAll (e' :: rest)
        rw [htree, htrees]

theorem spelled_plain {name : String} {params : List TypeExpr} {parameter : Bool}
    (hname : IsWord name) (hflag : ∀ params span, node name params span =
      ⟨name, params, parameter, span⟩) (hparams : ∀ p ∈ params, Spelled p) (span : Span)
    (offset : Nat) : ∃ stop, ∃ a : Derivation .atom,
      Spells offset stop (Application.plain name (renderAll params)).toList a.yield ∧
        a.tree.bare = bare ⟨name, params, parameter, span⟩ := by
  have hword := spells_word hname offset
  cases params with
  | nil =>
    refine ⟨offset + name.toList.length, .word name ⟨offset, offset + name.toList.length⟩, ?_, ?_⟩
    · rw [renderAll]
      exact hword
    · show (node name [] _).bare = _
      rw [hflag, bare, bare]
  | cons p rest =>
    obtain ⟨middle, items, hitems, htrees⟩ :=
      exists_spelled_list (List.cons_ne_nil p rest) hparams (offset + name.toList.length + 1)
    have htext : (Application.plain name (renderAll (p :: rest))).toList = name.toList ++
        '{' :: ((Application.list (renderAll (p :: rest))).toList ++ ['}']) := by
      simp [Application.plain, renderAll]
    refine ⟨middle + 1, .applied name ⟨offset, offset + name.toList.length⟩
      ⟨offset + name.toList.length, offset + name.toList.length + 1⟩ items ⟨middle, middle + 1⟩,
      ?_, ?_⟩
    · rw [htext, Derivation.yield]
      exact hword.append (by decide) (hitems.enclosed .brace)
    · show (node name items.tree _).bare = _
      rw [hflag, bare, bare, htrees]

theorem spelled_arrow {domain codomain : TypeExpr} (hdomain : Spelled domain)
    (hcodomain : Spelled codomain) (span : Span) :
    Spelled ⟨arrowName, [domain, codomain], false, span⟩ := by
  intro offset
  obtain ⟨middle, a, ha, hatree⟩ := hdomain (offset + 1)
  obtain ⟨stop, b, hb, hbtree⟩ := hcodomain (middle + 1 + 2 + 1)
  have harrow : Token.Kind.arrow.IsMark := trivial
  have htext : (render ⟨arrowName, [domain, codomain], false, span⟩).toList =
      '(' :: ((domain.render.toList ++ ' ' :: '-' :: '>' :: ' ' :: codomain.render.toList) ++
        [')']) := by
    simp [render, renderAll, Application.written]
  refine ⟨stop + 1, .group ⟨offset, offset + 1⟩ (.one (.arrow a ⟨middle + 1, middle + 1 + 2⟩
    (.atom b))) ⟨stop, stop + 1⟩, ?_, ?_⟩
  · rw [htext, Derivation.yield, Derivation.yield, Derivation.yield, Derivation.yield]
    exact (ha.append (by decide) (hb.space.mark harrow).space).enclosed .paren
  · show bare ⟨arrowName, [a.tree, b.tree], false, _⟩ = _
    simp only [bare, bareAll, hatree, hbtree]

theorem render_tuple (items : List TypeExpr) (span : Span) :
    (render ⟨tupleName, items, false, span⟩).toList =
      '(' :: ((Application.list (renderAll items)).toList ++ [')']) := by
  have hwritten : render ⟨tupleName, items, false, span⟩ =
      "(" ++ Application.list (renderAll items) ++ ")" := by
    rw [render, if_neg Bool.false_ne_true, Application.written.eq_def]
    split
    · rw [if_neg (by decide), if_pos rfl]
    · rw [if_pos rfl]
  rw [hwritten]
  simp

theorem spelled_tuple {items : List TypeExpr} (hlength : items.length ≠ 1)
    (hitems : ∀ p ∈ items, Spelled p) (span : Span) : Spelled ⟨tupleName, items, false, span⟩ := by
  intro offset
  rw [render_tuple]
  cases items with
  | nil =>
    refine ⟨offset + 1 + 1, .unit ⟨offset, offset + 1⟩ ⟨offset + 1, offset + 1 + 1⟩, ?_, ?_⟩
    · rw [renderAll]
      exact (spells_nil (offset + 1)).enclosed .paren
    show bare ⟨tupleName, [], false, _⟩ = _
    rw [bare, bare]
  | cons p rest =>
    obtain ⟨middle, list, hlist, htrees⟩ :=
      exists_spelled_list (List.cons_ne_nil p rest) hitems (offset + 1)
    have hmany : list.tree.length ≠ 1 := by
      have hlengths := congrArg List.length htrees
      rw [bareAll_eq_map, bareAll_eq_map, List.length_map, List.length_map] at hlengths
      rwa [hlengths]
    refine ⟨middle + 1, .group ⟨offset, offset + 1⟩ list ⟨middle, middle + 1⟩, ?_, ?_⟩
    · rw [Derivation.yield]
      exact hlist.enclosed .paren
    · show (grouped _ list.tree).bare = _
      rw [grouped_of_ne_one hmany]
      show bare ⟨tupleName, list.tree, false, _⟩ = _
      rw [bare, bare, htrees]

theorem written_of_isWord {name : String} (h : IsWord name) (args : List String) :
    Application.written name args = Application.plain name args := by
  rw [Application.written.eq_def]
  split
  · rw [if_neg h.ne_arrowName, if_neg h.ne_tupleName]
  · rw [if_neg h.ne_tupleName]

theorem spelled_of_printable {e : TypeExpr} (h : e.Printable) : e.Spelled := by
  induction h with
  | parameter hname hlower _ ih =>
    intro offset
    rw [render, if_pos rfl]
    exact spelled_plain hname (node_of_not_startsUpper hlower) ih _ offset
  | constructor hname hupper _ ih =>
    intro offset
    rw [render, if_neg Bool.false_ne_true, written_of_isWord hname]
    exact spelled_plain hname (node_of_startsUpper hupper) ih _ offset
  | arrow _ _ ihd ihc => exact spelled_arrow ihd ihc _
  | tuple hlength _ ih => exact spelled_tuple hlength ih _

/-! ## Reading what was printed -/

theorem exists_parse_render {e : TypeExpr} (h : e.Printable) :
    ∃ e', parse e.render = .ok e' ∧ e'.bare = e.bare := by
  obtain ⟨stop, a, hspells, htree⟩ := spelled_of_printable h 0
  exact ⟨a.tree, parse_of_lexes (d := .atom a) hspells.lexes, htree⟩

theorem printable_of_parse {source : String} {e : TypeExpr} (h : parse source = .ok e) :
    e.Printable := by
  obtain ⟨d, hlexes, rfl⟩ := exists_lexes_of_parse h
  exact allPrintable_tree d fun name span hmem => hlexes.isWord hmem

theorem bare_eq_of_render_eq {e e' : TypeExpr} (he : e.Printable) (he' : e'.Printable)
    (h : e.render = e'.render) : e.bare = e'.bare := by
  obtain ⟨t, hparse, ht⟩ := exists_parse_render he
  obtain ⟨t', hparse', ht'⟩ := exists_parse_render he'
  rw [h, hparse'] at hparse
  cases hparse
  exact ht.symm.trans ht'

/-- Printing and reading undo each other, up to spans. What can be printed is read back as it
was, and what has been read can be printed. Two texts have the same printed form if and only
if they are read as the same tree, so that the printed form is a canonical one. -/
theorem parse_render :
    (∀ e : TypeExpr, e.Printable → ∃ e', parse e.render = .ok e' ∧ e'.bare = e.bare) ∧
    (∀ source e, parse source = .ok e →
      e.Printable ∧ ∃ e', parse e.render = .ok e' ∧ e'.bare = e.bare ∧ e'.render = e.render) ∧
    ∀ source source' e e', parse source = .ok e → parse source' = .ok e' →
      (e.render = e'.render ↔ e.bare = e'.bare) := by
  refine ⟨fun e he => exists_parse_render he, fun source e h => ?_, fun _ _ e e' h h' => ⟨?_, ?_⟩⟩
  · have he := printable_of_parse h
    obtain ⟨e', hparse, hbare⟩ := exists_parse_render he
    refine ⟨he, e', hparse, hbare, ?_⟩
    rw [← render_bare e', hbare, render_bare]
  · exact bare_eq_of_render_eq (printable_of_parse h) (printable_of_parse h')
  · intro hbare
    rw [← render_bare e, hbare, render_bare]

/-- A parameter applied to an arrow from the unit type to a pair. -/
theorem parse_render_applied :
    let int : TypeExpr := ⟨"Int", [], false, ⟨3, 9⟩⟩
    let pair : TypeExpr := ⟨tupleName, [int, ⟨"_a", [], true, default⟩], false, default⟩
    let e : TypeExpr := ⟨"f", [⟨arrowName, [⟨tupleName, [], false, ⟨5, 2⟩⟩, pair], false, default⟩],
      true, ⟨0, 1⟩⟩
    e.Printable ∧ e.render = "f" ++ Text.braced "(() -> (Int, _a))" ∧
      ∃ e', parse e.render = .ok e' ∧ e'.bare = e.bare ∧
        ∃ e'', parse e'.render = .ok e'' ∧ e''.render = e'.render ∧ e''.bare = e'.bare := by
  intro int pair e
  have hint : int.Printable :=
    .constructor (isWord_of_all rfl rfl rfl) (by decide) (List.forall_mem_nil _)
  have ha : Printable ⟨"_a", [], true, default⟩ :=
    .parameter (isWord_of_all rfl rfl rfl) (by decide) (List.forall_mem_nil _)
  have hpair : pair.Printable :=
    .tuple (by decide) (List.forall_mem_cons.2 ⟨hint, List.forall_mem_singleton.2 ha⟩)
  have he : e.Printable :=
    .parameter (isWord_of_all rfl rfl rfl) (by decide)
      (List.forall_mem_singleton.2 (.arrow (.tuple (by decide) (List.forall_mem_nil _)) hpair))
  obtain ⟨e', hparse, hbare⟩ := parse_render.1 e he
  obtain ⟨-, e'', hparse', -, hrender⟩ := parse_render.2.1 _ e' hparse
  have hsame := (parse_render.2.2 _ _ e'' e' hparse' hparse).1 hrender
  exact ⟨he, by decide +kernel, e', hparse, hbare, e'', hparse', hrender, hsame⟩

end TypeExpr

end TypeLayer
