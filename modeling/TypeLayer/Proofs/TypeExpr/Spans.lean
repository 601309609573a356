import TypeLayer.Proofs.TypeExpr.Placement
import TypeLayer.Proofs.TypeExpr.Printing

/-!
# Where the nodes of a type expression stand

A node gets its span in four ways: from a word, from a word or an opening delimiter together
with the closing one, from the two operands of an arrow, or from within parentheses that leave
no node of their own.  Such parentheses are the reason why a node can begin after the first
token of its phrase and end before the last one.  They are the `leading` and the `trailing`
tokens of the phrase, and the span reaches from the first to the last token of its `core`.

The main result is `TypeExpr.parse_spans_nest`.  It is an induction on the derivation: where its
tokens stand between two offsets, so do its trees.
-/

namespace TypeLayer

/-! ## Nodes -/

namespace TypeExpr

mutual
/-- A type expression and all that it is made of. -/
def nodes : TypeExpr → List TypeExpr
  | ⟨name, params, parameter, span⟩ => ⟨name, params, parameter, span⟩ :: nodesAll params
def nodesAll : List TypeExpr → List TypeExpr
  | [] => []
  | e :: rest => nodes e ++ nodesAll rest
end

theorem nodesAll_eq_flatMap (es : List TypeExpr) : nodesAll es = es.flatMap nodes := by
  induction es with
  | nil => rfl
  | cons e es ih => simp [nodesAll, ih]

theorem mem_nodes {node e : TypeExpr} :
    node ∈ e.nodes ↔ node = e ∨ ∃ p ∈ e.params, node ∈ p.nodes := by
  obtain ⟨name, params, parameter, span⟩ := e
  rw [nodes, nodesAll_eq_flatMap, List.mem_cons, List.mem_flatMap]

/-- A node spans something, and its arguments stand in order within its span. -/
structure Nests (node : TypeExpr) : Prop where
  nonempty : node.span.start < node.span.stop
  params : Placed node.span.start (node.params.map span) node.span.stop

end TypeExpr

/-! ## Trees stand where their tokens do -/

namespace Grammar

variable {n : Nonterminal} {lo hi : Nat}

/-- The type expressions that a phrase stands for: one, or those of a list. -/
def Nonterminal.toTrees : {n : Nonterminal} → n.Tree → List TypeExpr
  | .type, t => [t]
  | .atom, t => [t]
  | .list, ts => ts

namespace Derivation

def trees (d : Derivation n) : List TypeExpr :=
  Nonterminal.toTrees d.tree

/-- All nodes of the trees nest, and the trees stand in order between two offsets. -/
structure Nested (lo hi : Nat) (trees : List TypeExpr) : Prop where
  placed : Placed lo (trees.map TypeExpr.span) hi
  nests : ∀ t ∈ trees, ∀ node ∈ t.nodes, node.Nests

theorem Nested.mono {lo' hi' : Nat} {ts : List TypeExpr} (h : Nested lo hi ts) (hlo : lo' ≤ lo)
    (hhi : hi ≤ hi') : Nested lo' hi' ts :=
  ⟨h.placed.mono hlo hhi, h.nests⟩

theorem Nested.append {mid : Nat} {ts us : List TypeExpr} (h : Nested lo mid ts)
    (h' : Nested mid hi us) : Nested lo hi (ts ++ us) := by
  constructor
  · rw [List.map_append]
    exact placed_append.2 ⟨mid, h.placed, h'.placed⟩
  · intro t ht
    rcases List.mem_append.1 ht with ht | ht
    · exact h.nests t ht
    · exact h'.nests t ht

theorem Nested.node {ts : List TypeExpr} {name : String} {parameter : Bool} {span : Span}
    (h : Nested span.start span.stop ts) (hlo : lo ≤ span.start) (hlt : span.start < span.stop)
    (hhi : span.stop ≤ hi) : Nested lo hi [⟨name, ts, parameter, span⟩] := by
  refine ⟨by simp [hlo, hlt, hhi], ?_⟩
  simp only [List.forall_mem_singleton]
  intro node hnode
  rcases TypeExpr.mem_nodes.1 hnode with rfl | ⟨t, ht, hnode⟩
  · exact ⟨hlt, h.placed⟩
  · exact h.nests t ht node hnode

/-- A node whose arguments stand between the end of one token and the beginning of another
spans both tokens. -/
theorem Nested.between {ts : List TypeExpr} {name : String} {parameter : Bool} {first last : Span}
    (h : Nested first.stop last.start ts) (hlo : lo ≤ first.start)
    (hfirst : first.start < first.stop) (hlast : last.start < last.stop) (hhi : last.stop ≤ hi) :
    Nested lo hi [⟨name, ts, parameter, first.merge last⟩] := by
  have hle := h.placed.le
  refine Nested.node (h.mono ?_ ?_) ?_ ?_ ?_
  all_goals simp only [Span.merge]
  all_goals omega

theorem Nested.arrow {domain codomain : TypeExpr} (h : Nested lo hi [domain, codomain]) :
    Nested lo hi [TypeExpr.arrow domain codomain] := by
  obtain ⟨hplaced, hnests⟩ := h
  simp only [List.map_cons, List.map_nil, placed_cons, placed_nil] at hplaced
  refine Nested.node ⟨?_, hnests⟩ ?_ ?_ ?_
  all_goals simp only [List.map_cons, List.map_nil, placed_cons, placed_nil, Span.merge]
  all_goals omega

theorem nested_trees (d : Derivation n) (h : Placed lo (d.yield.map Token.span) hi) :
    Nested lo hi d.trees := by
  induction d generalizing lo hi with
  | atom a ih => exact ih h
  | arrow domain span codomain ihd ihc =>
    simp only [yield, List.map_append, List.map_cons, placed_append, placed_cons] at h
    obtain ⟨mid, hdomain, hmid, hspan, hcodomain⟩ := h
    exact ((ihd hdomain).append ((ihc hcodomain).mono (by omega) (Nat.le_refl _))).arrow
  | word name span =>
    simp only [yield, List.map_cons, List.map_nil, placed_cons, placed_nil] at h
    obtain ⟨hlo, hlt, hhi⟩ := h
    exact Nested.node ⟨by simpa using Nat.le_of_lt hlt, by simp⟩ hlo hlt hhi
  | applied name span opening items closing ih =>
    simp only [yield, List.map_append, List.map_cons, List.map_nil, placed_append, placed_cons,
      placed_nil] at h
    obtain ⟨hlo, hword, hgap, hopening, mid, hitems, hmid, hclosing, hhi⟩ := h
    exact ((ih hitems).mono (by omega) hmid).between hlo hword hclosing hhi
  | unit opening closing =>
    simp only [yield, List.map_cons, List.map_nil, placed_cons, placed_nil] at h
    obtain ⟨hlo, hopening, hgap, hclosing, hhi⟩ := h
    have hnone : Nested opening.stop closing.start [] := ⟨by simpa using hgap, by simp⟩
    exact hnone.between hlo hopening hclosing hhi
  | group opening items closing ih =>
    simp only [yield, List.map_append, List.map_cons, List.map_nil, placed_append, placed_cons,
      placed_nil] at h
    obtain ⟨hlo, hopening, mid, hitems, hmid, hclosing, hhi⟩ := h
    have hnested := ih hitems
    simp only [trees, Nonterminal.toTrees, tree] at hnested ⊢
    by_cases hone : items.tree.length = 1
    · obtain ⟨t, ht⟩ := List.length_eq_one_iff.1 hone
      rw [ht] at hnested ⊢
      exact hnested.mono (by omega) (by omega)
    · rw [grouped_of_ne_one hone]
      exact (hnested.mono (Nat.le_refl _) hmid).between hlo hopening hclosing hhi
  | slice opening element closing ih =>
    simp only [yield, List.map_append, List.map_cons, List.map_nil, placed_append, placed_cons,
      placed_nil] at h
    obtain ⟨hlo, hopening, mid, helement, hmid, hclosing, hhi⟩ := h
    exact ((ih helement).mono (Nat.le_refl _) hmid).between hlo hopening hclosing hhi
  | one t ih => exact ih h
  | more t comma rest ih ihr =>
    simp only [yield, List.map_append, List.map_cons, placed_append, placed_cons] at h
    obtain ⟨mid, ht, hmid, hcomma, hrest⟩ := h
    exact (ih ht).append ((ihr hrest).mono (by omega) (Nat.le_refl _))

/-! ## Phrases and their cores -/

/-- A type in parentheses. -/
def IsGrouped : Derivation .atom → Prop
  | .group _ (.one _) _ => True
  | _ => False

/-- The phrase is not as a whole in parentheses. -/
def IsBare (phrase : Derivation .type) : Prop :=
  ∀ a, phrase = .atom a → ¬ a.IsGrouped

/-- The opening parentheses at the beginning of a phrase that leave no node. -/
def leading : {n : Nonterminal} → Derivation n → List Token
  | _, .atom a => a.leading
  | _, .arrow domain _ _ => domain.leading
  | _, .group opening (.one t) _ => ⟨.opening .paren, opening⟩ :: t.leading
  | _, .one t => t.leading
  | _, _ => []

/-- The closing parentheses at the end of a phrase that leave no node. -/
def trailing : {n : Nonterminal} → Derivation n → List Token
  | _, .atom a => a.trailing
  | _, .arrow _ _ codomain => codomain.trailing
  | _, .group _ (.one t) closing => t.trailing ++ [⟨.closing .paren, closing⟩]
  | _, .one t => t.trailing
  | _, _ => []

/-- The tokens of a phrase without the parentheses at both ends. -/
def core : {n : Nonterminal} → Derivation n → List Token
  | _, .atom a => a.core
  | _, .arrow domain span codomain =>
    domain.core ++ (domain.trailing ++ ⟨.arrow, span⟩ :: (codomain.leading ++ codomain.core))
  | _, .group _ (.one t) _ => t.core
  | _, .one t => t.core
  | _, d => d.yield

theorem yield_eq_leading_append (d : Derivation n) :
    d.yield = d.leading ++ (d.core ++ d.trailing) := by
  induction d with
  | atom a ih => exact ih
  | arrow domain span codomain ihd ihc => simp [yield, leading, core, trailing, ihd, ihc]
  | group opening items closing ih =>
    cases items with
    | one t =>
      replace ih : t.yield = t.leading ++ (t.core ++ t.trailing) := ih
      simp [yield, leading, core, trailing, ih]
    | more t comma rest => simp [leading, core, trailing]
  | one t ih => exact ih
  | word | applied | unit | slice | more => simp [leading, core, trailing]

theorem tree_ne_nil (d : Derivation .list) : d.tree ≠ [] := by
  cases d with
  | one t => simp [tree]
  | more t comma rest => simp [tree]

theorem tree_group_more (opening : Span) (t : Derivation .type) (comma : Span)
    (rest : Derivation .list) (closing : Span) : (group opening (more t comma rest) closing).tree =
      .tuple (more t comma rest).tree (opening.merge closing) := by
  have hlength : (more t comma rest).tree.length ≠ 1 := by simp [tree, rest.tree_ne_nil]
  exact grouped_of_ne_one hlength _

theorem reaches_core (d : Derivation n) (h : Placed lo (d.yield.map Token.span) hi) {t : TypeExpr}
    (ht : d.trees = [t]) : t.span.Reaches d.core := by
  induction d generalizing lo hi t with
  | atom a ih => exact ih h ht
  | arrow domain span codomain ihd ihc =>
    cases ht
    simp only [yield, List.map_append, List.map_cons, placed_append, placed_cons] at h
    obtain ⟨mid, hdomain, hmid, hspan, hcodomain⟩ := h
    obtain ⟨hstart, -⟩ := ihd hdomain rfl
    obtain ⟨-, hstop⟩ := ihc hcodomain rfl
    have hd := (domain.nested_trees hdomain).placed.within (List.mem_cons_self ..)
    have hc := (codomain.nested_trees hcodomain).placed.within (List.mem_cons_self ..)
    have hspans : (TypeExpr.arrow domain.tree codomain.tree).span =
        ⟨domain.tree.span.start, codomain.tree.span.stop⟩ := by
      simp only [TypeExpr.arrow, TypeExpr.apply, Span.merge, Span.mk.injEq]
      omega
    refine ⟨?_, ?_⟩
    · show StartsAt _ (TypeExpr.arrow domain.tree codomain.tree).span.start
      rw [hspans]
      exact hstart.append _
    · show StopsAt (domain.core ++ (domain.trailing ++ ⟨.arrow, span⟩ ::
        (codomain.leading ++ codomain.core))) (TypeExpr.arrow domain.tree codomain.tree).span.stop
      rw [hspans]
      exact (((hstop.append _).append [_]).append _).append _
  | word name span =>
    cases ht
    exact ⟨⟨_, [], rfl, rfl⟩, [], _, rfl, rfl⟩
  | applied name span opening items closing _ =>
    cases ht
    exact Placed.reaches (show Placed lo ((⟨.word name, span⟩ ::
      (⟨.opening .brace, opening⟩ :: items.yield ++ [⟨.closing .brace, closing⟩])).map
        Token.span) hi from h)
  | unit opening closing =>
    cases ht
    exact Placed.reaches (show Placed lo ((⟨.opening .paren, opening⟩ ::
      ([] ++ [⟨.closing .paren, closing⟩])).map Token.span) hi from h)
  | group opening items closing ih =>
    cases items with
    | one u =>
      simp only [yield, List.map_append, List.map_cons, List.map_nil, placed_append,
        placed_cons] at h
      obtain ⟨-, -, mid, hu, -⟩ := h
      exact ih hu ht
    | more u comma rest =>
      replace ht : [(group opening (more u comma rest) closing).tree] = [t] := ht
      rw [tree_group_more] at ht
      cases ht
      exact Placed.reaches h
  | slice opening element closing _ =>
    cases ht
    exact Placed.reaches h
  | one t ih => exact ih h ht
  | more t comma rest => exact absurd (List.cons.inj ht).2 rest.tree_ne_nil

/-- Among the tokens is a bare phrase that stands for the node. -/
def Phrased (tokens : List Token) (node : TypeExpr) : Prop :=
  ∃ phrase : Derivation .type, phrase.tree = node ∧ phrase.IsBare ∧ phrase.yield <:+: tokens

theorem Phrased.mono {tokens tokens' : List Token} {node : TypeExpr} (h : Phrased tokens node)
    (hsub : tokens <:+: tokens') : Phrased tokens' node := by
  obtain ⟨phrase, htree, hbare, hinfix⟩ := h
  exact ⟨phrase, htree, hbare, hinfix.trans hsub⟩

theorem phrased_of_bare {phrase : Derivation .type} (hbare : phrase.IsBare) {node : TypeExpr}
    (hparams : ∀ p ∈ phrase.tree.params, ∀ node ∈ p.nodes, Phrased phrase.yield node)
    (hnode : node ∈ phrase.tree.nodes) : Phrased phrase.yield node := by
  rcases TypeExpr.mem_nodes.1 hnode with rfl | ⟨p, hp, hnode⟩
  · exact ⟨phrase, rfl, hbare, List.infix_rfl⟩
  · exact hparams p hp node hnode

theorem phrased_of_not_isGrouped {a : Derivation .atom} (h : ¬ a.IsGrouped) {node : TypeExpr}
    (hparams : ∀ p ∈ a.tree.params, ∀ node ∈ p.nodes, Phrased a.yield node)
    (hnode : node ∈ a.tree.nodes) : Phrased a.yield node := by
  have hbare : IsBare (.atom a) := by
    intro a' ha
    cases ha
    exact h
  exact phrased_of_bare hbare hparams hnode

theorem isBare_arrow (domain : Derivation .atom) (span : Span) (codomain : Derivation .type) :
    IsBare (.arrow domain span codomain) := by
  intro a ha
  cases ha

/-- Every node is written as a phrase. -/
theorem phrased_of_mem_nodes (d : Derivation n) {t node : TypeExpr} (ht : t ∈ d.trees)
    (hnode : node ∈ t.nodes) : Phrased d.yield node := by
  induction d generalizing t node with
  | atom a ih => exact ih ht hnode
  | arrow domain span codomain ihd ihc =>
    cases List.mem_singleton.1 ht
    refine phrased_of_bare (isBare_arrow domain span codomain) ?_ hnode
    intro p hp node hnode
    replace hp : p ∈ [domain.tree, codomain.tree] := hp
    simp only [List.mem_cons, List.not_mem_nil, or_false] at hp
    rcases hp with rfl | rfl
    · exact (ihd (List.mem_cons_self ..) hnode).mono (List.prefix_append _ _).isInfix
    · exact (ihc (List.mem_cons_self ..) hnode).mono
        ⟨domain.yield ++ [⟨.arrow, span⟩], [], by simp [yield]⟩
  | word name span =>
    cases List.mem_singleton.1 ht
    exact phrased_of_not_isGrouped id (List.forall_mem_nil _) hnode
  | applied name span opening items closing ih =>
    cases List.mem_singleton.1 ht
    refine phrased_of_not_isGrouped id (fun p hp node hnode => ?_) hnode
    exact (ih hp hnode).mono ⟨[_, _], [_], rfl⟩
  | unit opening closing =>
    cases List.mem_singleton.1 ht
    exact phrased_of_not_isGrouped id (List.forall_mem_nil _) hnode
  | group opening items closing ih =>
    have hinfix : items.yield <:+: (group opening items closing).yield := ⟨[_], [_], rfl⟩
    cases items with
    | one u => exact (ih ht hnode).mono hinfix
    | more u comma rest =>
      cases List.mem_singleton.1 ht
      refine phrased_of_not_isGrouped id (fun p hp node hnode => ?_) hnode
      replace hp : p ∈ (group opening (more u comma rest) closing).tree.params := hp
      rw [tree_group_more] at hp
      exact (ih hp hnode).mono hinfix
  | slice opening element closing ih =>
    cases List.mem_singleton.1 ht
    refine phrased_of_not_isGrouped id (fun p hp node hnode => ?_) hnode
    exact (ih hp hnode).mono ⟨[_], [_], rfl⟩
  | one t ih => exact ih ht hnode
  | more u comma rest ih ihr =>
    rcases List.mem_cons.1 ht with rfl | ht
    · exact (ih (List.mem_cons_self ..) hnode).mono (List.prefix_append _ _).isInfix
    · exact (ihr ht hnode).mono ⟨u.yield ++ [⟨.comma, comma⟩], [], by simp [yield]⟩

end Derivation

end Grammar

namespace TypeExpr

open Grammar

variable {source : String} {e node : TypeExpr}

/-- The text at the span of a node spells the core of a phrase that stands for the node. -/
theorem exists_phrase_text (h : parse source = .ok e) (hnode : node ∈ e.nodes) :
    ∃ (phrase : Derivation .type) (text : String), phrase.tree = node ∧ phrase.IsBare ∧
      (∃ before after, Lexes 0 source.toList (before ++ (phrase.yield ++ after))) ∧
      node.span.Covers source text ∧ Lexes node.span.start text.toList phrase.core := by
  obtain ⟨d, hlexes, rfl⟩ := exists_lexes_of_parse h
  obtain ⟨phrase, rfl, hbare, before, after, hyield⟩ :=
    d.phrased_of_mem_nodes (List.mem_singleton_self _) hnode
  rw [← hyield, List.append_assoc] at hlexes
  have hplaced := hlexes.placed
  rw [List.map_append, List.map_append, placed_append] at hplaced
  obtain ⟨lo, -, hplaced⟩ := hplaced
  obtain ⟨hi, hplaced, -⟩ := placed_append.1 hplaced
  obtain ⟨hstart, hstop⟩ := phrase.reaches_core hplaced rfl
  have hcore := hlexes
  rw [phrase.yield_eq_leading_append] at hcore
  simp only [List.append_assoc] at hcore
  rw [← List.append_assoc] at hcore
  obtain ⟨text, hcovers, htext⟩ := hcore.excerpt hstart hstop
  exact ⟨phrase, text, rfl, hbare, ⟨before, after, hlexes⟩, hcovers, htext⟩

/-- Spans nest like the tree. The span of every node is not empty and designates a part of the
text; it contains the spans of the arguments, which follow each other without overlap. -/
theorem parse_spans_nest (h : parse source = .ok e) (hnode : node ∈ e.nodes) :
    node.span.start < node.span.stop ∧ (∃ text, node.span.Covers source text) ∧
      (∀ p ∈ node.params, node.span.start ≤ p.span.start ∧ p.span.stop ≤ node.span.stop) ∧
      node.params.Pairwise fun p q => p.span.stop ≤ q.span.start := by
  obtain ⟨phrase, text, -, -, -, hcovers, -⟩ := exists_phrase_text h hnode
  obtain ⟨d, hlexes, rfl⟩ := exists_lexes_of_parse h
  obtain ⟨hnonempty, hparams⟩ :=
    (d.nested_trees hlexes.placed).nests d.tree (List.mem_singleton_self _) node hnode
  refine ⟨hnonempty, ⟨text, hcovers⟩, fun p hp => ?_, List.pairwise_map.1 hparams.pairwise⟩
  obtain ⟨hstart, -, hstop⟩ := hparams.within (List.mem_map_of_mem hp)
  exact ⟨hstart, hstop⟩

/-- A pair within an arrow, with a blank of two bytes. -/
theorem parse_spans_nest_pair :
    let a : TypeExpr := ⟨"a", [], true, ⟨1, 2⟩⟩
    let b : TypeExpr := ⟨"b", [], true, ⟨5, 6⟩⟩
    let pair : TypeExpr := ⟨tupleName, [a, b], false, ⟨0, 7⟩⟩
    let e : TypeExpr := ⟨arrowName, [pair, ⟨"c", [], true, ⟨11, 12⟩⟩], false, ⟨0, 12⟩⟩
    parse "(a,\u00a0b) -> c" = .ok e ∧ pair ∈ e.nodes ∧
      (∃ text, pair.span.Covers "(a,\u00a0b) -> c" text) ∧
      a.span.stop ≤ b.span.start ∧ b.span.stop ≤ pair.span.stop := by
  intro a b pair e
  have ha : IsWord "a" := isWord_of_all rfl rfl rfl
  have hb : IsWord "b" := isWord_of_all rfl rfl rfl
  have hc : IsWord "c" := isWord_of_all rfl rfl rfl
  have hcomma : Token.Kind.comma.IsMark := trivial
  have harrow : Token.Kind.arrow.IsMark := trivial
  have hblank : Text.isBlank '\u00a0' := by decide
  have hpair := ((spells_word ha 1).append_mark hcomma ((spells_word hb 5).blank hblank)).enclosed
    .paren
  have hlexes : Lexes 0 "(a,\u00a0b) -> c".toList
      [⟨.opening .paren, ⟨0, 1⟩⟩, ⟨.word "a", ⟨1, 2⟩⟩, ⟨.comma, ⟨2, 3⟩⟩, ⟨.word "b", ⟨5, 6⟩⟩,
        ⟨.closing .paren, ⟨6, 7⟩⟩, ⟨.arrow, ⟨8, 10⟩⟩, ⟨.word "c", ⟨11, 12⟩⟩] :=
    (hpair.append (by decide) ((spells_word hc 11).space.mark harrow).space).lexes
  have hparse : parse "(a,\u00a0b) -> c" = .ok e := by
    rw [parse, tokenize, tokensFrom_of_lexes hlexes]
    rfl
  have hmem : pair ∈ e.nodes := by decide +kernel
  obtain ⟨-, hcovers, hwithin, hordered⟩ := parse_spans_nest hparse hmem
  refine ⟨hparse, hmem, hcovers, ?_, ?_⟩
  · exact (List.pairwise_cons.1 hordered).1 b (List.mem_singleton_self b)
  · exact (hwithin b (by decide)).2

end TypeExpr

end TypeLayer
