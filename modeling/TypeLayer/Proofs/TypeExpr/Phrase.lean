import TypeLayer.Proofs.TypeExpr.Sentence
import TypeLayer.Proofs.TypeExpr.Spans

/-!
# Reading the text of a node

The text at the span of a node is part of a text that was read.  Is it a type expression by
itself, and is it read as that node?  The main result `TypeExpr.parse_text_of_node` answers this
from the phrase that stands for the node.

If no parentheses are left out at its ends, then the text spells the whole phrase.  The same text
at another place has the same tokens, moved (`Lexes.exists_shift`), and the grammar does not look
at places (`Derivation.tree_shift`).  Otherwise the text has lost one half of a pair of
parentheses, and what is not balanced cannot be read (`Derivation.not_balanced_core`).  This
happens to an arrow with a first or a last operand in parentheses (`parse_text_unbalanced`).
-/

namespace TypeLayer

/-! ## Moving -/

def Span.shift (k : Nat) (span : Span) : Span :=
  ⟨span.start + k, span.stop + k⟩

theorem Span.shift_merge (k : Nat) (a b : Span) :
    (a.merge b).shift k = (a.shift k).merge (b.shift k) := by
  simp only [Span.shift, Span.merge, Span.mk.injEq]
  omega

def Token.shift (k : Nat) (token : Token) : Token :=
  ⟨token.kind, token.span.shift k⟩

theorem map_kind_shift (k : Nat) (tokens : List Token) :
    (tokens.map (Token.shift k)).map Token.kind = tokens.map Token.kind := by
  simp [Token.shift]

/-- A text spells the same tokens at any place. -/
theorem Lexes.exists_shift {offset k : Nat} {cs : List Char} {tokens : List Token}
    (h : Lexes (offset + k) cs tokens) :
    ∃ tokens', Lexes offset cs tokens' ∧ tokens'.map (Token.shift k) = tokens := by
  generalize hplace : offset + k = place at h
  induction h generalizing offset with
  | done => exact ⟨[], .done, rfl⟩
  | @blank place c rest tokens hc _ ih =>
    obtain ⟨tokens', hlexes, hmap⟩ := ih (show offset + c.utf8Size + k = _ by omega)
    exact ⟨tokens', .blank hc hlexes, hmap⟩
  | @mark place kind rest tokens hkind _ ih =>
    obtain ⟨tokens', hlexes, rfl⟩ := ih (show offset + kind.text.length + k = _ by omega)
    refine ⟨_, .mark hkind hlexes, ?_⟩
    simp only [List.map_cons, Token.shift, Span.shift, ← hplace]
    congr 3
    omega
  | @word place c cs rest tokens hc hcs hrest _ ih =>
    obtain ⟨tokens', hlexes, rfl⟩ := ih (show offset + (c :: cs).length + k = _ by omega)
    refine ⟨_, .word hc hcs hrest hlexes, ?_⟩
    simp only [List.map_cons, Token.shift, Span.shift, ← hplace]
    congr 3
    omega

namespace TypeExpr

mutual
/-- The same expression, read further to the right. -/
def shift (k : Nat) : TypeExpr → TypeExpr
  | ⟨name, params, parameter, span⟩ => ⟨name, shiftAll k params, parameter, span.shift k⟩
def shiftAll (k : Nat) : List TypeExpr → List TypeExpr
  | [] => []
  | e :: rest => shift k e :: shiftAll k rest
end

theorem shiftAll_eq_map (k : Nat) (es : List TypeExpr) : shiftAll k es = es.map (shift k) := by
  induction es with
  | nil => rfl
  | cons e es ih => simp [shiftAll, ih]

theorem shift_mk (k : Nat) (name : String) (params : List TypeExpr) (parameter : Bool)
    (span : Span) : shift k ⟨name, params, parameter, span⟩ =
      ⟨name, params.map (shift k), parameter, span.shift k⟩ := by
  rw [shift, shiftAll_eq_map]

theorem span_shift (k : Nat) (e : TypeExpr) : (e.shift k).span = e.span.shift k := by
  cases e
  rfl

end TypeExpr

namespace Grammar

variable {n : Nonterminal}

def Nonterminal.shiftTree (k : Nat) : {n : Nonterminal} → n.Tree → n.Tree
  | .type, t => t.shift k
  | .atom, t => t.shift k
  | .list, ts => ts.map (TypeExpr.shift k)

theorem shift_grouped (k : Nat) (span : Span) (ts : List TypeExpr) :
    (grouped span ts).shift k = grouped (span.shift k) (ts.map (TypeExpr.shift k)) := by
  by_cases h : ts.length = 1
  · obtain ⟨t, rfl⟩ := List.length_eq_one_iff.1 h
    rfl
  · rw [grouped_of_ne_one h, grouped_of_ne_one (by simpa using h)]
    exact TypeExpr.shift_mk ..

namespace Derivation

def shift (k : Nat) : {n : Nonterminal} → Derivation n → Derivation n
  | _, .atom a => .atom (a.shift k)
  | _, .arrow domain span codomain => .arrow (domain.shift k) (span.shift k) (codomain.shift k)
  | _, .word name span => .word name (span.shift k)
  | _, .applied name span opening items closing =>
    .applied name (span.shift k) (opening.shift k) (items.shift k) (closing.shift k)
  | _, .unit opening closing => .unit (opening.shift k) (closing.shift k)
  | _, .group opening items closing =>
    .group (opening.shift k) (items.shift k) (closing.shift k)
  | _, .slice opening element closing =>
    .slice (opening.shift k) (element.shift k) (closing.shift k)
  | _, .one t => .one (t.shift k)
  | _, .more t comma rest => .more (t.shift k) (comma.shift k) (rest.shift k)

theorem yield_shift (k : Nat) (d : Derivation n) :
    (d.shift k).yield = d.yield.map (Token.shift k) := by
  induction d with
  | atom a ih => exact ih
  | arrow domain span codomain ihd ihc => simp [shift, yield, ihd, ihc, Token.shift]
  | word name span => rfl
  | applied name span opening items closing ih => simp [shift, yield, ih, Token.shift]
  | unit opening closing => rfl
  | group opening items closing ih => simp [shift, yield, ih, Token.shift]
  | slice opening element closing ih => simp [shift, yield, ih, Token.shift]
  | one t ih => exact ih
  | more t comma rest ih ihr => simp [shift, yield, ih, ihr, Token.shift]

theorem tree_shift (k : Nat) (d : Derivation n) :
    (d.shift k).tree = Nonterminal.shiftTree k d.tree := by
  induction d with
  | atom a ih => exact ih
  | arrow domain span codomain ihd ihc =>
    simp only [shift, tree, ihd, ihc, Nonterminal.shiftTree, TypeExpr.arrow, TypeExpr.apply,
      TypeExpr.shift_mk, TypeExpr.span_shift, Span.shift_merge, List.map_cons, List.map_nil]
  | word name span => rfl
  | applied name span opening items closing ih =>
    simp only [shift, tree, ih, Nonterminal.shiftTree, node, TypeExpr.shift_mk, Span.shift_merge]
  | unit opening closing =>
    simp only [shift, tree, Nonterminal.shiftTree, TypeExpr.tuple, TypeExpr.apply,
      TypeExpr.shift_mk, Span.shift_merge, List.map_nil]
  | group opening items closing ih =>
    simp only [shift, tree, ih, Nonterminal.shiftTree, shift_grouped, Span.shift_merge]
  | slice opening element closing ih =>
    simp only [shift, tree, ih, Nonterminal.shiftTree, TypeExpr.slice, TypeExpr.apply,
      TypeExpr.shift_mk, Span.shift_merge, List.map_cons, List.map_nil]
  | one t ih => simp only [shift, tree, ih, Nonterminal.shiftTree, List.map_cons, List.map_nil]
  | more t comma rest ih ihr =>
    simp only [shift, tree, ih, ihr, Nonterminal.shiftTree, List.map_cons]

/-! ## Lost parentheses -/

theorem surplus_leading (d : Derivation n) :
    surplus (d.leading.map Token.kind) = d.leading.length := by
  induction d with
  | atom a ih => exact ih
  | arrow domain span codomain ihd _ => exact ihd
  | group opening items closing ih =>
    cases items with
    | one t =>
      replace ih : surplus (t.leading.map Token.kind) = t.leading.length := ih
      simp only [leading, List.map_cons, surplus, Token.Kind.turn, ih, List.length_cons]
      omega
    | more t comma rest => simp [leading, surplus]
  | one t ih => exact ih
  | word | applied | unit | slice | more => simp [leading, surplus]

theorem surplus_trailing (d : Derivation n) :
    surplus (d.trailing.map Token.kind) = -d.trailing.length := by
  induction d with
  | atom a ih => exact ih
  | arrow domain span codomain _ ihc => exact ihc
  | group opening items closing ih =>
    cases items with
    | one t =>
      replace ih : surplus (t.trailing.map Token.kind) = -t.trailing.length := ih
      simp only [trailing, List.map_append, surplus_append, ih, List.map_cons, List.map_nil,
        surplus, Token.Kind.turn, List.length_append, List.length_cons, List.length_nil]
      omega
    | more t comma rest => simp [trailing, surplus]
  | one t ih => exact ih
  | word | applied | unit | slice | more => simp [trailing, surplus]

theorem surplus_core (d : Derivation n) :
    surplus (d.core.map Token.kind) = d.trailing.length - d.leading.length := by
  have hyield := d.balanced_yield.surplus_eq_zero
  rw [d.yield_eq_leading_append] at hyield
  simp only [List.map_append, surplus_append, surplus_leading, surplus_trailing] at hyield
  omega

/-- Only an arrow can begin or end with parentheses that leave no node, if it is bare. -/
theorem exists_arrow_of_edges {phrase : Derivation .type} (hbare : phrase.IsBare)
    (h : phrase.leading ≠ [] ∨ phrase.trailing ≠ []) :
    ∃ domain span codomain, phrase = .arrow domain span codomain := by
  cases phrase with
  | arrow domain span codomain => exact ⟨domain, span, codomain, rfl⟩
  | atom a =>
    have hgrouped := hbare a rfl
    simp only [leading, trailing] at h
    cases a with
    | group opening items closing =>
      cases items with
      | one t => exact absurd trivial hgrouped
      | more t comma rest => simp [leading, trailing] at h
    | word | applied | unit | slice => simp [leading, trailing] at h

/-- The core of a bare phrase has only one half of such parentheses. -/
theorem not_balanced_core {phrase : Derivation .type} (hbare : phrase.IsBare)
    (h : phrase.leading ≠ [] ∨ phrase.trailing ≠ []) :
    ¬ Balanced (phrase.core.map Token.kind) := by
  intro hbalanced
  have htotal := phrase.surplus_core
  rw [hbalanced.surplus_eq_zero] at htotal
  obtain ⟨domain, span, codomain, rfl⟩ := exists_arrow_of_edges hbare h
  -- Up to the arrow, as many parentheses are closed too many as have been left out.
  have hfront : surplus ((domain.core ++ domain.trailing).map Token.kind) =
      -domain.leading.length := by
    rw [List.map_append, surplus_append, surplus_core, surplus_trailing]
    omega
  simp only [core] at hbalanced
  rw [← List.append_assoc, List.map_append] at hbalanced
  have hnonneg := hbalanced.surplus_nonneg
  rw [hfront] at hnonneg
  have hleading : (arrow domain span codomain).leading.length = 0 := by
    show domain.leading.length = 0
    omega
  have htrailing : (arrow domain span codomain).trailing.length = 0 := by omega
  exact h.elim (absurd (List.length_eq_zero_iff.1 hleading))
    (absurd (List.length_eq_zero_iff.1 htrailing))

end Derivation

end Grammar

/-! ## The text of a node -/

namespace TypeExpr

open Grammar

variable {source : String} {e node : TypeExpr}

/-- A node is read again from a text that spells the whole of its phrase. -/
theorem exists_parse_of_lexes {phrase : Derivation .type} {text : String} {offset : Nat}
    (h : Lexes offset text.toList phrase.yield) :
    ∃ t, parse text = .ok t ∧ t.shift offset = phrase.tree := by
  rw [← Nat.zero_add offset] at h
  obtain ⟨tokens, hlexes, hshift⟩ := h.exists_shift
  have hkinds : tokens.map Token.kind = phrase.yield.map Token.kind := by
    rw [← hshift, map_kind_shift]
  obtain ⟨phrase', rfl⟩ := phrase.exists_yield_eq hkinds
  have hsame : phrase'.shift offset = phrase := by
    apply Derivation.yield_injective
    rw [Derivation.yield_shift, hshift]
  exact ⟨phrase'.tree, parse_of_lexes hlexes, by rw [← hsame, Derivation.tree_shift]; rfl⟩

/-- What is read is balanced, wherever it stands. -/
theorem balanced_of_parse {text : String} {offset : Nat} {tokens : List Token}
    (h : Lexes offset text.toList tokens) (hparse : parse text = .ok e) :
    Balanced (tokens.map Token.kind) := by
  rw [← Nat.zero_add offset] at h
  obtain ⟨tokens', hlexes, rfl⟩ := h.exists_shift
  obtain ⟨d, hd, -⟩ := exists_lexes_of_parse hparse
  rw [map_kind_shift, hlexes.unique hd]
  exact d.balanced_yield

/-- A node stands for a phrase of the text. If no parentheses are left out at the ends of the
phrase, then the text at the span of the node is a type expression of its own and is read as the
node, up to its place. Otherwise the node is an arrow, and the text is refused. -/
theorem parse_text_of_node (h : parse source = .ok e) (hnode : node ∈ e.nodes) :
    ∃ (phrase : Derivation .type) (text : String), phrase.tree = node ∧ phrase.IsBare ∧
      (∃ before after, Lexes 0 source.toList (before ++ (phrase.yield ++ after))) ∧
      node.span.Covers source text ∧
      (phrase.leading = [] ∧ phrase.trailing = [] →
        ∃ t, parse text = .ok t ∧ t.shift node.span.start = node) ∧
      (phrase.leading ≠ [] ∨ phrase.trailing ≠ [] →
        node.isArrow ∧ ∃ error, parse text = .error error) := by
  obtain ⟨phrase, text, rfl, hbare, hphrase, hcovers, hcore⟩ := exists_phrase_text h hnode
  refine ⟨phrase, text, rfl, hbare, hphrase, hcovers, ?_, ?_⟩
  · rintro ⟨hleading, htrailing⟩
    have hyield := phrase.yield_eq_leading_append
    simp only [hleading, htrailing, List.nil_append, List.append_nil] at hyield
    rw [← hyield] at hcore
    exact exists_parse_of_lexes hcore
  · intro hedges
    constructor
    · obtain ⟨domain, span, codomain, rfl⟩ := Derivation.exists_arrow_of_edges hbare hedges
      rfl
    · cases hparse : parse text with
      | error error => exact ⟨error, rfl⟩
      | ok t =>
        have hbalanced := balanced_of_parse hcore hparse
        exact absurd hbalanced (Derivation.not_balanced_core hbare hedges)

/-- A slice in parentheses: its span is within them. -/
theorem parse_text_of_node_slice :
    let slice : TypeExpr := ⟨sliceName, [⟨"a", [], true, ⟨2, 3⟩⟩], false, ⟨1, 4⟩⟩
    let e : TypeExpr := ⟨arrowName, [slice, ⟨"b", [], true, ⟨9, 10⟩⟩], false, ⟨1, 10⟩⟩
    parse "([a]) -> b" = .ok e ∧ slice ∈ e.nodes ∧
      ∃ t, parse "[a]" = .ok t ∧ t.shift 1 = slice := by
  intro slice e
  have ha : IsWord "a" := isWord_of_all rfl rfl rfl
  have hb : IsWord "b" := isWord_of_all rfl rfl rfl
  have harrow : Token.Kind.arrow.IsMark := trivial
  have hslice := ((spells_word ha 2).enclosed .bracket).enclosed .paren
  have hlexes : Lexes 0 "([a]) -> b".toList
      [⟨.opening .paren, ⟨0, 1⟩⟩, ⟨.opening .bracket, ⟨1, 2⟩⟩, ⟨.word "a", ⟨2, 3⟩⟩,
        ⟨.closing .bracket, ⟨3, 4⟩⟩, ⟨.closing .paren, ⟨4, 5⟩⟩, ⟨.arrow, ⟨6, 8⟩⟩,
        ⟨.word "b", ⟨9, 10⟩⟩] :=
    (hslice.append (by decide) ((spells_word hb 9).space.mark harrow).space).lexes
  have hparse : parse "([a]) -> b" = .ok e := by
    rw [parse, tokenize, tokensFrom_of_lexes hlexes]
    rfl
  have hmem : slice ∈ e.nodes := by decide +kernel
  refine ⟨hparse, hmem, ?_⟩
  obtain ⟨phrase, text, -, -, -, hcovers, hread, hrefused⟩ := parse_text_of_node hparse hmem
  have hthere : slice.span.Covers "([a]) -> b" "[a]" :=
    ⟨"(", ") -> b", by decide +kernel, by decide +kernel, by decide +kernel⟩
  obtain rfl := hcovers.unique hthere
  by_cases hedges : phrase.leading = [] ∧ phrase.trailing = []
  · exact hread hedges
  · obtain ⟨harrow, -⟩ := hrefused (Classical.not_and_iff_not_or_not.1 hedges)
    exact absurd harrow (by decide +kernel)

/-- An arrow whose first operand is in parentheses: its span begins after the first one, so that
the text there has a parenthesis too many and is no type expression. -/
theorem parse_text_unbalanced :
    let domain : TypeExpr := ⟨arrowName, [⟨"a", [], true, ⟨1, 2⟩⟩, ⟨"b", [], true, ⟨6, 7⟩⟩], false,
      ⟨1, 7⟩⟩
    let e : TypeExpr := ⟨arrowName, [domain, ⟨"c", [], true, ⟨12, 13⟩⟩], false, ⟨1, 13⟩⟩
    parse "(a -> b) -> c" = .ok e ∧ e ∈ e.nodes ∧
      e.span.Covers "(a -> b) -> c" "a -> b) -> c" ∧
      parse "a -> b) -> c" = .error ⟨.unexpectedToken ")" "end of input", ⟨6, 7⟩⟩ := by
  intro domain e
  have ha : IsWord "a" := isWord_of_all rfl rfl rfl
  have hb : IsWord "b" := isWord_of_all rfl rfl rfl
  have hc : IsWord "c" := isWord_of_all rfl rfl rfl
  have harrow : Token.Kind.arrow.IsMark := trivial
  have hclosing : (Token.Kind.closing .paren).IsMark := trivial
  have hdomain := (spells_word ha 1).append (by decide) ((spells_word hb 6).space.mark harrow).space
  have hlexes : Lexes 0 "(a -> b) -> c".toList
      [⟨.opening .paren, ⟨0, 1⟩⟩, ⟨.word "a", ⟨1, 2⟩⟩, ⟨.arrow, ⟨3, 5⟩⟩, ⟨.word "b", ⟨6, 7⟩⟩,
        ⟨.closing .paren, ⟨7, 8⟩⟩, ⟨.arrow, ⟨9, 11⟩⟩, ⟨.word "c", ⟨12, 13⟩⟩] :=
    ((hdomain.enclosed .paren).append (by decide)
      ((spells_word hc 12).space.mark harrow).space).lexes
  have hlexes' : Lexes 0 "a -> b) -> c".toList
      [⟨.word "a", ⟨0, 1⟩⟩, ⟨.arrow, ⟨2, 4⟩⟩, ⟨.word "b", ⟨5, 6⟩⟩, ⟨.closing .paren, ⟨6, 7⟩⟩,
        ⟨.arrow, ⟨8, 10⟩⟩, ⟨.word "c", ⟨11, 12⟩⟩] :=
    ((spells_word ha 0).append (by decide) (((spells_word hb 5).append_mark hclosing
      ((spells_word hc 11).space.mark harrow).space).space.mark harrow).space).lexes
  refine ⟨?_, by decide +kernel,
    ⟨"(", "", by decide +kernel, by decide +kernel, by decide +kernel⟩, ?_⟩
  · rw [parse, tokenize, tokensFrom_of_lexes hlexes]
    rfl
  · rw [parse, tokenize, tokensFrom_of_lexes hlexes']
    rfl

end TypeExpr

end TypeLayer
