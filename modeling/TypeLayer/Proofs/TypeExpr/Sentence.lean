import TypeLayer.Proofs.TypeExpr.Printing

/-!
# Sentences

A sentence of the grammar is what a derivation spells, without the places where its tokens
stand.  Places do not matter to the grammar: if some tokens have the kinds of a sentence, then
they are themselves spelled by a derivation (`Derivation.exists_yield_eq`).

The delimiters of a sentence are balanced (`Derivation.balanced_yield`).  In balanced tokens
every opening delimiter has a partner, and there is no closing one too many; so the last
opening delimiter without a partner is the one after which everything is balanced.
-/

namespace TypeLayer

/-- What a token adds to the number of open delimiters. -/
def Token.Kind.turn : Token.Kind → Int
  | .opening _ => 1
  | .closing _ => -1
  | .word _ | .comma | .arrow => 0

namespace Grammar

variable {n : Nonterminal}

/-! ## Kinds of tokens -/

/-- The kinds of the tokens that some derivation spells with words of the language. -/
def Sentence (kinds : List Token.Kind) : Prop :=
  (∃ d : Derivation .type, d.yield.map Token.kind = kinds) ∧
    ∀ name, .word name ∈ kinds → IsWord name

/-- The tokens can be the beginning of a sentence. -/
def Viable (kinds : List Token.Kind) : Prop :=
  ∃ rest, Sentence (kinds ++ rest)

/-- The tokens are the beginning of a longer sentence. -/
def Extensible (kinds : List Token.Kind) : Prop :=
  ∃ rest, rest ≠ [] ∧ Sentence (kinds ++ rest)

/-- Any tokens of the same kinds are spelled by a derivation too. -/
theorem Derivation.exists_yield_eq (d : Derivation n) {tokens : List Token}
    (h : tokens.map Token.kind = d.yield.map Token.kind) :
    ∃ d' : Derivation n, d'.yield = tokens := by
  induction d generalizing tokens with
  | atom a ih =>
    obtain ⟨a', rfl⟩ := ih h
    exact ⟨.atom a', rfl⟩
  | arrow domain span codomain ihd ihc =>
    simp only [yield, List.map_append, List.map_cons, List.map_eq_append_iff,
      List.map_eq_cons_iff] at h
    obtain ⟨left, _, rfl, hleft, ⟨_, span'⟩, right, rfl, rfl, hright⟩ := h
    obtain ⟨domain', rfl⟩ := ihd hleft
    obtain ⟨codomain', rfl⟩ := ihc hright
    exact ⟨.arrow domain' span' codomain', rfl⟩
  | word name span =>
    simp only [yield, List.map_cons, List.map_nil, List.map_eq_cons_iff, List.map_eq_nil_iff] at h
    obtain ⟨⟨_, span'⟩, _, rfl, rfl, rfl⟩ := h
    exact ⟨.word name span', rfl⟩
  | applied name span opening items closing ih =>
    simp only [yield, List.map_append, List.map_cons, List.map_nil, List.map_eq_append_iff,
      List.map_eq_cons_iff, List.map_eq_nil_iff] at h
    obtain ⟨⟨_, span'⟩, _, rfl, rfl, ⟨_, opening'⟩, _, rfl, rfl, inner, _, rfl, hinner,
      ⟨_, closing'⟩, _, rfl, rfl, rfl⟩ := h
    obtain ⟨items', rfl⟩ := ih hinner
    exact ⟨.applied name span' opening' items' closing', rfl⟩
  | unit opening closing =>
    simp only [yield, List.map_cons, List.map_nil, List.map_eq_cons_iff, List.map_eq_nil_iff] at h
    obtain ⟨⟨_, opening'⟩, _, rfl, rfl, ⟨_, closing'⟩, _, rfl, rfl, rfl⟩ := h
    exact ⟨.unit opening' closing', rfl⟩
  | group opening items closing ih =>
    simp only [yield, List.map_append, List.map_cons, List.map_nil, List.map_eq_append_iff,
      List.map_eq_cons_iff, List.map_eq_nil_iff] at h
    obtain ⟨⟨_, opening'⟩, _, rfl, rfl, inner, _, rfl, hinner, ⟨_, closing'⟩, _, rfl, rfl,
      rfl⟩ := h
    obtain ⟨items', rfl⟩ := ih hinner
    exact ⟨.group opening' items' closing', rfl⟩
  | slice opening element closing ih =>
    simp only [yield, List.map_append, List.map_cons, List.map_nil, List.map_eq_append_iff,
      List.map_eq_cons_iff, List.map_eq_nil_iff] at h
    obtain ⟨⟨_, opening'⟩, _, rfl, rfl, inner, _, rfl, hinner, ⟨_, closing'⟩, _, rfl, rfl,
      rfl⟩ := h
    obtain ⟨element', rfl⟩ := ih hinner
    exact ⟨.slice opening' element' closing', rfl⟩
  | one t ih =>
    obtain ⟨t', rfl⟩ := ih h
    exact ⟨.one t', rfl⟩
  | more t comma rest ih ihr =>
    simp only [yield, List.map_append, List.map_cons, List.map_eq_append_iff,
      List.map_eq_cons_iff] at h
    obtain ⟨left, _, rfl, hleft, ⟨_, comma'⟩, right, rfl, rfl, hright⟩ := h
    obtain ⟨t', rfl⟩ := ih hleft
    obtain ⟨rest', rfl⟩ := ihr hright
    exact ⟨.more t' comma' rest', rfl⟩

/-! ## Balanced delimiters -/

/-- How many more delimiters are opened than closed. -/
def surplus : List Token.Kind → Int
  | [] => 0
  | kind :: rest => kind.turn + surplus rest

theorem surplus_append (ks ls : List Token.Kind) :
    surplus (ks ++ ls) = surplus ks + surplus ls := by
  induction ks with
  | nil => simp [surplus]
  | cons k ks ih =>
    simp only [List.cons_append, surplus, ih]
    omega

/-- Every delimiter has a partner of its own sort, and the pairs nest. -/
inductive Balanced : List Token.Kind → Prop
  | nil : Balanced []
  | plain {kind : Token.Kind} {rest : List Token.Kind} :
    kind.turn = 0 → Balanced rest → Balanced (kind :: rest)
  | pair {inner rest : List Token.Kind} (d : Delimiter) : Balanced inner → Balanced rest →
    Balanced (.opening d :: (inner ++ .closing d :: rest))

/-- Among the tokens after an opening delimiter is its partner. -/
def Partnered (d : Delimiter) (after : List Token.Kind) : Prop :=
  ∃ inner rest, Balanced inner ∧ after = inner ++ .closing d :: rest

theorem Partnered.append {d : Delimiter} {ks : List Token.Kind} (h : Partnered d ks)
    (ls : List Token.Kind) : Partnered d (ks ++ ls) := by
  obtain ⟨inner, rest, hinner, rfl⟩ := h
  exact ⟨inner, rest ++ ls, hinner, by simp⟩

namespace Balanced

variable {ks ls before after : List Token.Kind} {d : Delimiter}

theorem append (h : Balanced ks) (h' : Balanced ls) : Balanced (ks ++ ls) := by
  induction h with
  | nil => exact h'
  | plain hkind _ ih => exact .plain hkind ih
  | pair d hinner _ _ ih =>
    simp only [List.cons_append, List.append_assoc]
    exact .pair d hinner ih

theorem enclosed (d : Delimiter) (h : Balanced ks) :
    Balanced (.opening d :: (ks ++ [.closing d])) :=
  .pair d h .nil

theorem surplus_eq_zero (h : Balanced ks) : surplus ks = 0 := by
  induction h with
  | nil => rfl
  | plain hkind _ ih => simp [surplus, hkind, ih]
  | pair d _ _ ihi ihr => simp [surplus, surplus_append, Token.Kind.turn, ihi, ihr]

/-- Nothing is closed that has not been opened. -/
theorem surplus_nonneg (h : Balanced (before ++ after)) : 0 ≤ surplus before := by
  generalize hks : before ++ after = ks at h
  induction h generalizing before after with
  | nil =>
    obtain ⟨rfl, -⟩ := List.append_eq_nil_iff.1 hks
    simp [surplus]
  | plain hkind _ ih =>
    rcases List.append_eq_cons_iff.1 hks with ⟨rfl, -⟩ | ⟨tail, rfl, hrest⟩
    · simp [surplus]
    · simpa [surplus, hkind] using ih hrest.symm
  | @pair inner rest d hinner _ ihi ihr =>
    rcases List.append_eq_cons_iff.1 hks with ⟨rfl, -⟩ | ⟨tail, rfl, htail⟩
    · simp [surplus]
    simp only [surplus, Token.Kind.turn]
    -- The prefix ends inside the pair, right before its end, or after it.
    rcases List.append_eq_append_iff.1 htail.symm with ⟨mid, hmid, -⟩ | ⟨mid, rfl, hmid⟩
    · have := ihi hmid.symm
      omega
    · rcases List.append_eq_cons_iff.1 hmid.symm with ⟨rfl, -⟩ | ⟨mid', rfl, hrest⟩
      · simp [hinner.surplus_eq_zero]
      · have := ihr hrest.symm
        simp only [surplus_append, surplus, Token.Kind.turn, hinner.surplus_eq_zero]
        omega

theorem partnered (h : Balanced (before ++ .opening d :: after)) : Partnered d after := by
  generalize hks : before ++ .opening d :: after = ks at h
  induction h generalizing before after with
  | nil => simp at hks
  | plain hkind _ ih =>
    rcases List.append_eq_cons_iff.1 hks with ⟨rfl, heq⟩ | ⟨tail, rfl, hrest⟩
    · cases heq
      simp [Token.Kind.turn] at hkind
    · exact ih hrest.symm
  | @pair inner rest d' hinner _ ihi ihr =>
    rcases List.append_eq_cons_iff.1 hks with ⟨rfl, heq⟩ | ⟨tail, rfl, htail⟩
    · cases heq
      exact ⟨inner, rest, hinner, rfl⟩
    -- The delimiter stands after the pair, or inside it.
    rcases List.append_eq_append_iff.1 htail with ⟨mid, rfl, hmid⟩ | ⟨mid, hinner', hmid⟩
    · rcases List.append_eq_cons_iff.1 hmid.symm with ⟨-, heq⟩ | ⟨mid', -, hrest⟩
      · cases heq
      · exact ihr hrest.symm
    · rcases List.append_eq_cons_iff.1 hmid.symm with ⟨-, heq⟩ | ⟨mid', rfl, rfl⟩
      · cases heq
      · exact (ihi hinner'.symm).append _

/-- Where everything is balanced, there is no partner for what came before. -/
theorem not_partnered (h : Balanced after) : ¬ Partnered d after := by
  rintro ⟨inner, rest, hinner, rfl⟩
  rw [← List.singleton_append, ← List.append_assoc] at h
  have hnonneg := h.surplus_nonneg
  simp [surplus_append, surplus, Token.Kind.turn, hinner.surplus_eq_zero] at hnonneg

end Balanced

theorem Derivation.balanced_yield (d : Derivation n) : Balanced (d.yield.map Token.kind) := by
  induction d with
  | atom a ih => exact ih
  | arrow domain span codomain ihd ihc =>
    simp only [yield, List.map_append, List.map_cons]
    exact ihd.append (.plain rfl ihc)
  | word name span => exact .plain rfl .nil
  | applied name span opening items closing ih =>
    simp only [yield, List.map_append, List.map_cons, List.map_nil]
    exact .plain rfl (ih.enclosed .brace)
  | unit opening closing => exact Balanced.nil.enclosed .paren
  | group opening items closing ih =>
    simp only [yield, List.map_append, List.map_cons, List.map_nil]
    exact ih.enclosed .paren
  | slice opening element closing ih =>
    simp only [yield, List.map_append, List.map_cons, List.map_nil]
    exact ih.enclosed .bracket
  | one t ih => exact ih
  | more t comma rest ih ihr =>
    simp only [yield, List.map_append, List.map_cons]
    exact ih.append (.plain rfl ihr)

end Grammar

end TypeLayer
