import TypeLayer.TypeExpr.Basic
import TypeLayer.TypeExpr.Token

/-!
# The grammar of type expressions

    type := atom | atom "->" type
    atom := WORD | WORD "{" list "}" | "(" ")" | "(" list ")" | "[" type "]"
    list := type | type "," list

A `Derivation` is built from these productions.  It keeps the spans of its tokens, so
that its `yield` is a sequence of tokens as a text spells them, and its `tree` a type
expression with spans.

The grammar is unambiguous (`Derivation.yield_injective`).  A phrase can only go on
with the tokens of `Nonterminal.continuations`; where it is followed by another token, both
the phrase and what follows it can be told from the tokens (`Derivation.told`), which is shown
for one production at a time.
-/

namespace TypeLayer.Grammar

inductive Nonterminal where
  | type
  | atom
  | list

/-- Derivations in the grammar, one constructor for each production. -/
inductive Derivation : Nonterminal → Type
  | atom (a : Derivation .atom) : Derivation .type
  | arrow (domain : Derivation .atom) (arrow : Span) (codomain : Derivation .type) :
    Derivation .type
  | word (name : String) (span : Span) : Derivation .atom
  | applied (name : String) (span opening : Span) (items : Derivation .list) (closing : Span) :
    Derivation .atom
  | unit (opening closing : Span) : Derivation .atom
  | group (opening : Span) (items : Derivation .list) (closing : Span) : Derivation .atom
  | slice (opening : Span) (element : Derivation .type) (closing : Span) : Derivation .atom
  | one (t : Derivation .type) : Derivation .list
  | more (t : Derivation .type) (comma : Span) (rest : Derivation .list) : Derivation .list

/-! ## Trees -/

/-- A name with its arguments. It is a type parameter unless it starts with one of the
letters `A` to `Z`. -/
def node (name : String) (params : List TypeExpr) (span : Span) : TypeExpr :=
  { name, params, parameter := !name.toList.head?.any fun c => 'A' ≤ c ∧ c ≤ 'Z', span }

/-- What a phrase stands for. -/
abbrev Nonterminal.Tree : Nonterminal → Type
  | .type => TypeExpr
  | .atom => TypeExpr
  | .list => List TypeExpr

/-- One type in parentheses is that type itself; more of them are a tuple. -/
def grouped (span : Span) : List TypeExpr → TypeExpr
  | [t] => t
  | ts => .tuple ts span

theorem grouped_of_ne_one {ts : List TypeExpr} (h : ts.length ≠ 1) (span : Span) :
    grouped span ts = .tuple ts span := by
  unfold grouped
  split
  · exact absurd rfl h
  · rfl

namespace Derivation

variable {n : Nonterminal}

/-- The tokens of a derivation, from left to right. -/
def yield : {n : Nonterminal} → Derivation n → List Token
  | _, .atom a => a.yield
  | _, .arrow domain span codomain => domain.yield ++ ⟨.arrow, span⟩ :: codomain.yield
  | _, .word name span => [⟨.word name, span⟩]
  | _, .applied name span opening items closing =>
    ⟨.word name, span⟩ :: ⟨.opening .brace, opening⟩ ::
      (items.yield ++ [⟨.closing .brace, closing⟩])
  | _, .unit opening closing => [⟨.opening .paren, opening⟩, ⟨.closing .paren, closing⟩]
  | _, .group opening items closing =>
    ⟨.opening .paren, opening⟩ :: (items.yield ++ [⟨.closing .paren, closing⟩])
  | _, .slice opening element closing =>
    ⟨.opening .bracket, opening⟩ :: (element.yield ++ [⟨.closing .bracket, closing⟩])
  | _, .one t => t.yield
  | _, .more t comma rest => t.yield ++ ⟨.comma, comma⟩ :: rest.yield

/-- The type expression that a derivation stands for. -/
def tree : {n : Nonterminal} → Derivation n → n.Tree
  | _, .atom a => a.tree
  | _, .arrow domain _ codomain => TypeExpr.arrow domain.tree codomain.tree
  | _, .word name span => node name [] span
  | _, .applied name span _ items closing => node name items.tree (span.merge closing)
  | _, .unit opening closing => TypeExpr.tuple [] (opening.merge closing)
  | _, .group opening items closing => grouped (opening.merge closing) items.tree
  | _, .slice opening element closing => TypeExpr.slice element.tree (opening.merge closing)
  | _, .one t => [t.tree]
  | _, .more t _ rest => t.tree :: rest.tree

end Derivation

/-! ## Unambiguity -/

namespace Nonterminal

/-- The tokens that a phrase can go on with where it could also end. -/
def continuations : Nonterminal → List Token.Kind
  | .atom => [.opening .brace]
  | .type => [.opening .brace, .arrow]
  | .list => [.opening .brace, .arrow, .comma]

/-- The tokens do not continue a phrase. -/
def Stops (n : Nonterminal) (tokens : List Token) : Prop :=
  ∀ token ∈ tokens.head?, token.kind ∉ n.continuations

variable {tokens : List Token}

theorem stops_cons {n : Nonterminal} {kind : Token.Kind} {span : Span} :
    n.Stops (⟨kind, span⟩ :: tokens) ↔ kind ∉ n.continuations := by
  simp [Stops]

theorem Stops.mono {n m : Nonterminal} (h : n.Stops tokens)
    (hsub : m.continuations ⊆ n.continuations) : m.Stops tokens :=
  fun token htoken hmem => h token htoken (hsub hmem)

theorem Stops.atom (h : Nonterminal.type.Stops tokens) : Nonterminal.atom.Stops tokens :=
  h.mono (by decide)

theorem Stops.type (h : Nonterminal.list.Stops tokens) : Nonterminal.type.Stops tokens :=
  h.mono (by decide)

end Nonterminal

namespace Derivation

variable {n : Nonterminal}

/-- No phrase begins with a closing delimiter. -/
theorem exists_yield_eq_cons (d : Derivation n) :
    ∃ token tokens, d.yield = token :: tokens ∧ ∀ delimiter, token.kind ≠ .closing delimiter := by
  induction d with
  | atom a ih => exact ih
  | arrow domain span codomain ih =>
    obtain ⟨token, tokens, heq, hkind⟩ := ih
    exact ⟨token, _, by rw [yield, heq, List.cons_append], hkind⟩
  | word name span => exact ⟨_, _, rfl, by simp⟩
  | applied name span opening items closing => exact ⟨_, _, rfl, by simp⟩
  | unit opening closing => exact ⟨_, _, rfl, by simp⟩
  | group opening items closing => exact ⟨_, _, rfl, by simp⟩
  | slice opening element closing => exact ⟨_, _, rfl, by simp⟩
  | one t ih => exact ih
  | more t comma rest ih =>
    obtain ⟨token, tokens, heq, hkind⟩ := ih
    exact ⟨token, _, by rw [yield, heq, List.cons_append], hkind⟩

theorem not_yield_append_eq_closing (d : Derivation n) (tokens rest : List Token)
    (delimiter : Delimiter) (span : Span) :
    d.yield ++ tokens ≠ ⟨.closing delimiter, span⟩ :: rest := by
  obtain ⟨token, tail, heq, hkind⟩ := d.exists_yield_eq_cons
  rw [heq]
  intro h
  refine hkind delimiter ?_
  rw [(List.cons.inj h).1]

/-- The derivation can be told from its tokens, and so can the place where it ends, if no
token follows that could continue it. -/
def Told (d : Derivation n) : Prop :=
  ∀ (d' : Derivation n) {rest rest' : List Token}, d.yield ++ rest = d'.yield ++ rest' →
    n.Stops rest → n.Stops rest' → d = d' ∧ rest = rest'

/-- A token that does not continue a phrase tells where the phrase ends. -/
theorem Told.before {d d' : Derivation n} (hd : d.Told) {kind : Token.Kind} {span span' : Span}
    {rest rest' : List Token} (hkind : kind ∉ n.continuations)
    (h : d.yield ++ ⟨kind, span⟩ :: rest = d'.yield ++ ⟨kind, span'⟩ :: rest') :
    d = d' ∧ span = span' ∧ rest = rest' := by
  obtain ⟨rfl, htail⟩ :=
    hd d' h (Nonterminal.stops_cons.2 hkind) (Nonterminal.stops_cons.2 hkind)
  cases htail
  exact ⟨rfl, rfl, rfl⟩

theorem told_atom {a : Derivation .atom} (ha : a.Told) : (Derivation.atom a).Told := by
  intro d' rest rest' h hrest hrest'
  cases d' with
  | atom a' =>
    obtain ⟨rfl, rfl⟩ := ha a' h hrest.atom hrest'.atom
    exact ⟨rfl, rfl⟩
  | arrow domain' span' codomain' =>
    simp only [yield, List.append_assoc, List.cons_append] at h
    obtain ⟨rfl, rfl⟩ := ha domain' h hrest.atom (Nonterminal.stops_cons.2 (by decide))
    exact absurd (by decide) (Nonterminal.stops_cons.1 hrest)

theorem told_arrow {domain : Derivation .atom} {span : Span} {codomain : Derivation .type}
    (hdomain : domain.Told) (hcodomain : codomain.Told) : (arrow domain span codomain).Told := by
  intro d' rest rest' h hrest hrest'
  cases d' with
  | atom a' =>
    simp only [yield, List.append_assoc, List.cons_append] at h
    obtain ⟨rfl, rfl⟩ := hdomain a' h (Nonterminal.stops_cons.2 (by decide)) hrest'.atom
    exact absurd (by decide) (Nonterminal.stops_cons.1 hrest')
  | arrow domain' span' codomain' =>
    simp only [yield, List.append_assoc, List.cons_append] at h
    obtain ⟨rfl, rfl, hafter⟩ := hdomain.before (by decide) h
    obtain ⟨rfl, rfl⟩ := hcodomain codomain' hafter hrest hrest'
    exact ⟨rfl, rfl⟩

theorem told_word {name : String} {span : Span} : (word name span).Told := by
  intro d' rest rest' h hrest _
  cases d' with
  | word name' span' =>
    cases h
    exact ⟨rfl, rfl⟩
  | applied name' span' opening' items' closing' =>
    cases h
    exact absurd (by decide) (Nonterminal.stops_cons.1 hrest)
  | unit | group | slice => cases h

theorem told_applied {name : String} {span opening closing : Span} {items : Derivation .list}
    (hitems : items.Told) : (applied name span opening items closing).Told := by
  intro d' rest rest' h _ hrest'
  cases d' with
  | word name' span' =>
    cases h
    exact absurd (by decide) (Nonterminal.stops_cons.1 hrest')
  | applied name' span' opening' items' closing' =>
    simp only [yield, List.cons_append, List.append_assoc, List.nil_append, List.cons.injEq,
      Token.mk.injEq, Token.Kind.word.injEq, true_and] at h
    obtain ⟨⟨rfl, rfl⟩, rfl, h⟩ := h
    obtain ⟨rfl, rfl, rfl⟩ := hitems.before (by decide) h
    exact ⟨rfl, rfl⟩
  | unit | group | slice => cases h

theorem told_unit {opening closing : Span} : (unit opening closing).Told := by
  intro d' rest rest' h _ _
  cases d' with
  | unit opening' closing' =>
    cases h
    exact ⟨rfl, rfl⟩
  | group opening' items' closing' =>
    simp only [yield, List.cons_append, List.append_assoc, List.cons.injEq] at h
    exact absurd h.2.symm (items'.not_yield_append_eq_closing _ _ _ _)
  | word | applied | slice => cases h

theorem told_group {opening closing : Span} {items : Derivation .list} (hitems : items.Told) :
    (group opening items closing).Told := by
  intro d' rest rest' h _ _
  cases d' with
  | unit opening' closing' =>
    simp only [yield, List.cons_append, List.append_assoc, List.cons.injEq] at h
    exact absurd h.2 (items.not_yield_append_eq_closing _ _ _ _)
  | group opening' items' closing' =>
    simp only [yield, List.cons_append, List.append_assoc, List.nil_append, List.cons.injEq,
      Token.mk.injEq, true_and] at h
    obtain ⟨rfl, h⟩ := h
    obtain ⟨rfl, rfl, rfl⟩ := hitems.before (by decide) h
    exact ⟨rfl, rfl⟩
  | word | applied | slice => cases h

theorem told_slice {opening closing : Span} {element : Derivation .type}
    (helement : element.Told) : (slice opening element closing).Told := by
  intro d' rest rest' h _ _
  cases d' with
  | slice opening' element' closing' =>
    simp only [yield, List.cons_append, List.append_assoc, List.nil_append, List.cons.injEq,
      Token.mk.injEq, true_and] at h
    obtain ⟨rfl, h⟩ := h
    obtain ⟨rfl, rfl, rfl⟩ := helement.before (by decide) h
    exact ⟨rfl, rfl⟩
  | word | applied | unit | group => cases h

theorem told_one {t : Derivation .type} (ht : t.Told) : (one t).Told := by
  intro d' rest rest' h hrest hrest'
  cases d' with
  | one t' =>
    obtain ⟨rfl, rfl⟩ := ht t' h hrest.type hrest'.type
    exact ⟨rfl, rfl⟩
  | more t' comma' later' =>
    simp only [yield, List.append_assoc, List.cons_append] at h
    obtain ⟨rfl, rfl⟩ := ht t' h hrest.type (Nonterminal.stops_cons.2 (by decide))
    exact absurd (by decide) (Nonterminal.stops_cons.1 hrest)

theorem told_more {t : Derivation .type} {comma : Span} {later : Derivation .list} (ht : t.Told)
    (hlater : later.Told) : (more t comma later).Told := by
  intro d' rest rest' h hrest hrest'
  cases d' with
  | one t' =>
    simp only [yield, List.append_assoc, List.cons_append] at h
    obtain ⟨rfl, rfl⟩ := ht t' h (Nonterminal.stops_cons.2 (by decide)) hrest'.type
    exact absurd (by decide) (Nonterminal.stops_cons.1 hrest')
  | more t' comma' later' =>
    simp only [yield, List.append_assoc, List.cons_append] at h
    obtain ⟨rfl, rfl, hafter⟩ := ht.before (by decide) h
    obtain ⟨rfl, rfl⟩ := hlater later' hafter hrest hrest'
    exact ⟨rfl, rfl⟩

theorem told (d : Derivation n) : d.Told := by
  induction d with
  | atom a ih => exact told_atom ih
  | arrow domain span codomain ih ih' => exact told_arrow ih ih'
  | word name span => exact told_word
  | applied name span opening items closing ih => exact told_applied ih
  | unit opening closing => exact told_unit
  | group opening items closing ih => exact told_group ih
  | slice opening element closing ih => exact told_slice ih
  | one t ih => exact told_one ih
  | more t comma later ih ih' => exact told_more ih ih'

/-- A sequence of tokens has at most one derivation. -/
theorem yield_injective {d d' : Derivation n} (h : d.yield = d'.yield) : d = d' :=
  (d.told d' (congrArg (· ++ []) h) (fun _ ht => nomatch ht) (fun _ ht => nomatch ht)).1

end Derivation

end TypeLayer.Grammar
