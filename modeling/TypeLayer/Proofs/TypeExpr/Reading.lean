import TypeLayer.Proofs.TypeExpr.Grammar
import TypeLayer.Proofs.TypeExpr.Lexing
import TypeLayer.TypeExpr.Reader

/-!
# Reading accepts the grammar

From any open constructs, the tokens of a derivation lead the reader to the tree of the
derivation (`Derivation.reads`), by induction on the derivation.  Conversely the tokens that
the reader has taken are those of the constructs that it holds open, followed by what it
has read since (`Consumed`), and every step keeps this.

The main result `TypeExpr.parse_grammar` puts both together with the spelling of tokens: a
text is accepted if and only if it spells a derivation, which is then the only one, and the
result is the tree of the derivation.
-/

namespace TypeLayer

open Grammar

namespace Reader

variable {frames : List Frame} {token : Token} {tokens : List Token}

theorem named_eq_node (name : String) (params : List TypeExpr) (span : Span) :
    named name params span = node name params span := by
  have hflag : isParameter name = !name.toList.head?.any fun c => 'A' ≤ c ∧ c ≤ 'Z' := by
    unfold isParameter
    cases name.toList with
    | nil => rfl
    | cons c rest =>
      have hupper : c.isUpper = decide ('A' ≤ c ∧ c ≤ 'Z') := by
        rw [Bool.eq_iff_iff, isUpper_iff, decide_eq_true_iff]
      simp only [hupper, List.head?_cons, Option.any_some]
  rw [named, node, hflag]

/-- The reader after some tokens. -/
def run (r : Reader) (tokens : List Token) : Except ReadError Reader :=
  tokens.foldlM step r

variable {r r' : Reader}

theorem run_cons (h : step r token = .ok r') : run r (token :: tokens) = run r' tokens := by
  rw [run, List.foldlM_cons, h]
  rfl

theorem run_append {later : List Token} (h : run r tokens = .ok r') :
    run r (tokens ++ later) = run r' later := by
  rw [run] at h
  rw [run, List.foldlM_append, h]
  rfl

/-! ## Derivations are read -/

/-- What the reader holds once it has read an atom. A word may still take arguments. -/
def focusOf : Derivation .atom → Focus
  | .word name span => .word name span
  | a => .atom a.tree

theorem step_focusOf (a : Derivation .atom) (h : token.kind ≠ .opening .brace) :
    step ⟨frames, focusOf a⟩ token = afterAtom frames a.tree token := by
  cases a with
  | word name span =>
    simp only [focusOf, step, if_neg h, named_eq_node]
    rfl
  | _ => rfl

theorem finish_focusOf (a : Derivation .atom) (offset : Nat) :
    finish ⟨frames, focusOf a⟩ offset = endInput frames a.tree := by
  cases a with
  | word name span =>
    simp only [focusOf, finish, named_eq_node]
    rfl
  | _ => rfl

/-- The reader has read a type inside the given constructs: any token that does not
continue the type completes its arrows, and so does the end of the input. -/
structure HasRead (r : Reader) (frames : List Frame) (node : TypeExpr) : Prop where
  step : ∀ token : Token, token.kind ∉ Nonterminal.type.continuations →
    r.step token = endType (closeArrows frames node).1 (closeArrows frames node).2 token
  finish : ∀ offset, r.finish offset = endInput frames node

theorem hasRead_atom (a : Derivation .atom) (frames : List Frame) :
    HasRead ⟨frames, focusOf a⟩ frames a.tree := by
  refine ⟨fun token h => ?_, finish_focusOf a⟩
  have hbrace : token.kind ≠ .opening .brace := by
    intro heq
    simp [heq, Nonterminal.continuations] at h
  have harrow : token.kind ≠ .arrow := by
    intro heq
    simp [heq, Nonterminal.continuations] at h
  rw [step_focusOf a hbrace, afterAtom, if_neg harrow]

/-- A construct that holds a list of types: commas add to the list, and a closing delimiter
builds an atom from it. Items are kept newest first. -/
structure Listing (frame : List TypeExpr → Frame) (close : Delimiter)
    (build : List TypeExpr → Span → TypeExpr) : Prop where
  closeArrows : ∀ items frames node,
    Reader.closeArrows (frame items :: frames) node = (frame items :: frames, node)
  comma : ∀ items frames node span, endType (frame items :: frames) node ⟨.comma, span⟩ =
    .ok ⟨frame (node :: items) :: frames, .nothing⟩
  close : ∀ items frames node span, endType (frame items :: frames) node ⟨.closing close, span⟩ =
    .ok ⟨frames, .atom (build (node :: items) span)⟩

theorem listing_arguments (name : String) (span opening : Span) :
    Listing (.arguments name span opening) .brace fun items closing =>
      node name items.reverse (span.merge closing) :=
  ⟨fun _ _ _ => rfl, fun _ _ _ _ => rfl, fun _ _ _ _ => by simp only [endType, named_eq_node]⟩

theorem listing_group (opening : Span) :
    Listing (.group opening) .paren fun items closing =>
      grouped (opening.merge closing) items.reverse := by
  refine ⟨fun _ _ _ => rfl, fun _ _ _ _ => rfl, fun items frames node span => ?_⟩
  cases items with
  | nil => rfl
  | cons item items =>
    rw [grouped_of_ne_one (by simp)]
    rfl

/-- The reader takes the tokens of a phrase, inside any open constructs. -/
def Reads : {n : Nonterminal} → Derivation n → Prop
  | .type, d => ∀ frames, ∃ r, run ⟨frames, .nothing⟩ d.yield = .ok r ∧ HasRead r frames d.tree
  | .atom, d => ∀ frames, run ⟨frames, .nothing⟩ d.yield = .ok ⟨frames, focusOf d⟩
  | .list, d => ∀ frame close build, Listing frame close build → ∀ items frames span,
    run ⟨frame items :: frames, .nothing⟩ (d.yield ++ [⟨.closing close, span⟩]) =
      .ok ⟨frames, .atom (build (d.tree.reverse ++ items) span)⟩

theorem reads {n : Nonterminal} (d : Derivation n) : Reads d := by
  induction d with
  | atom a ih => exact fun frames => ⟨_, ih frames, hasRead_atom a frames⟩
  | arrow domain span codomain ihd ihc =>
    intro frames
    obtain ⟨r, hrun, hread⟩ := ihc (.codomain domain.tree :: frames)
    have harrow : step ⟨frames, focusOf domain⟩ ⟨.arrow, span⟩ =
        .ok ⟨.codomain domain.tree :: frames, .nothing⟩ := by
      rw [step_focusOf domain (by simp)]
      rfl
    refine ⟨r, ?_, hread.step, hread.finish⟩
    rw [Derivation.yield, run_append (ihd frames), run_cons harrow]
    exact hrun
  | word name span => exact fun frames => rfl
  | applied name span opening items closing ih =>
    intro frames
    have hlist := ih _ _ _ (listing_arguments name span opening) [] frames closing
    rw [List.append_nil, List.reverse_reverse] at hlist
    exact hlist
  | unit opening closing => exact fun frames => rfl
  | group opening items closing ih =>
    intro frames
    have hlist := ih _ _ _ (listing_group opening) [] frames closing
    rw [List.append_nil, List.reverse_reverse] at hlist
    exact hlist
  | slice opening element closing ih =>
    intro frames
    obtain ⟨r, hrun, hread⟩ := ih (.element opening :: frames)
    have hstep := hread.step ⟨.closing .bracket, closing⟩ (by simp [Nonterminal.continuations])
    rw [Derivation.yield, run_cons rfl, run_append hrun, run_cons hstep]
    rfl
  | one t ih =>
    intro frame close build h items frames span
    obtain ⟨r, hrun, hread⟩ := ih (frame items :: frames)
    have hstep := hread.step ⟨.closing close, span⟩ (by simp [Nonterminal.continuations])
    rw [h.closeArrows, h.close] at hstep
    rw [Derivation.yield, run_append hrun, run_cons hstep]
    rfl
  | more t comma rest ih ihr =>
    intro frame close build h items frames span
    obtain ⟨r, hrun, hread⟩ := ih (frame items :: frames)
    have hstep := hread.step ⟨.comma, comma⟩ (by simp [Nonterminal.continuations])
    rw [h.closeArrows, h.comma] at hstep
    rw [Derivation.yield, List.append_assoc, run_append hrun, List.cons_append, run_cons hstep,
      ihr _ _ _ h]
    simp [Derivation.tree]

/-! ## What is read is a derivation -/

/-- The tokens of some types, each with a comma after it. -/
def separated (items : List (Derivation .type × Span)) : List Token :=
  items.flatMap fun item => item.1.yield ++ [⟨.comma, item.2⟩]

/-- The list that ends with the given type. -/
def listOf (items : List (Derivation .type × Span)) (last : Derivation .type) :
    Derivation .list :=
  items.foldr (fun item rest => .more item.1 item.2 rest) (.one last)

theorem yield_listOf (items : List (Derivation .type × Span)) (last : Derivation .type) :
    (listOf items last).yield = separated items ++ last.yield := by
  induction items with
  | nil => rfl
  | cons item items ih =>
    rw [listOf, List.foldr_cons, Derivation.yield, ← listOf, ih]
    simp [separated]

theorem tree_listOf (items : List (Derivation .type × Span)) (last : Derivation .type) :
    (listOf items last).tree = items.map (fun item => item.1.tree) ++ [last.tree] := by
  induction items with
  | nil => rfl
  | cons item items ih =>
    rw [listOf, List.foldr_cons, Derivation.tree, ← listOf, ih]
    rfl

/-- The tokens that the open constructs have taken. -/
inductive Opens : List Frame → List Token → Prop
  | none : Opens [] []
  | codomain {frames : List Frame} {tokens : List Token} (domain : Derivation .atom)
      (span : Span) : Opens frames tokens →
    Opens (.codomain domain.tree :: frames) (tokens ++ (domain.yield ++ [⟨.arrow, span⟩]))
  | arguments {frames : List Frame} {tokens : List Token} (name : String) (span opening : Span)
      (items : List (Derivation .type × Span)) : Opens frames tokens →
    Opens (.arguments name span opening (items.map fun item => item.1.tree).reverse :: frames)
      (tokens ++ (⟨.word name, span⟩ :: ⟨.opening .brace, opening⟩ :: separated items))
  | group {frames : List Frame} {tokens : List Token} (opening : Span)
      (items : List (Derivation .type × Span)) : Opens frames tokens →
    Opens (.group opening (items.map fun item => item.1.tree).reverse :: frames)
      (tokens ++ (⟨.opening .paren, opening⟩ :: separated items))
  | element {frames : List Frame} {tokens : List Token} (opening : Span) : Opens frames tokens →
    Opens (.element opening :: frames) (tokens ++ [⟨.opening .bracket, opening⟩])

/-- The tokens that the reader has taken. -/
inductive Consumed : Reader → List Token → Prop
  | nothing {frames : List Frame} {tokens : List Token} : Opens frames tokens →
    Consumed ⟨frames, .nothing⟩ tokens
  | word {frames : List Frame} {tokens : List Token} (name : String) (span : Span) :
    Opens frames tokens → Consumed ⟨frames, .word name span⟩ (tokens ++ [⟨.word name, span⟩])
  | atom {frames : List Frame} {tokens : List Token} (a : Derivation .atom) :
    Opens frames tokens → Consumed ⟨frames, .atom a.tree⟩ (tokens ++ a.yield)

/-- Completing arrows completes a derivation. -/
theorem Opens.closeArrows (h : Opens frames tokens) (d : Derivation .type) :
    ∃ (frames' : List Frame) (tokens' : List Token) (d' : Derivation .type),
      Reader.closeArrows frames d.tree = (frames', d'.tree) ∧ Opens frames' tokens' ∧
      tokens' ++ d'.yield = tokens ++ d.yield ∧
      ∀ domain later, frames' ≠ .codomain domain :: later := by
  induction h generalizing d with
  | none => exact ⟨_, _, d, rfl, .none, rfl, by simp⟩
  | codomain domain span _ ih =>
    obtain ⟨frames', tokens', d', hclose, hopens, hyield, hhead⟩ := ih (.arrow domain span d)
    refine ⟨frames', tokens', d', hclose, hopens, ?_, hhead⟩
    rw [hyield, Derivation.yield]
    simp
  | arguments name span opening items h => exact ⟨_, _, d, rfl, .arguments _ _ _ _ h, rfl, by simp⟩
  | group opening items h => exact ⟨_, _, d, rfl, .group _ _ h, rfl, by simp⟩
  | element opening h => exact ⟨_, _, d, rfl, .element _ h, rfl, by simp⟩

theorem Opens.exists_arguments {name : String} {span opening : Span} {trees : List TypeExpr}
    (h : Opens (.arguments name span opening trees :: frames) tokens) :
    ∃ items tokens', trees = (items.map fun item => item.1.tree).reverse ∧ Opens frames tokens' ∧
      tokens = tokens' ++
        (⟨.word name, span⟩ :: ⟨.opening .brace, opening⟩ :: separated items) := by
  generalize hframes : Frame.arguments name span opening trees :: frames = frames₀ at h
  cases h with
  | arguments name span opening items h =>
    cases hframes
    exact ⟨items, _, rfl, h, rfl⟩
  | _ => cases hframes

theorem Opens.exists_group {opening : Span} {trees : List TypeExpr}
    (h : Opens (.group opening trees :: frames) tokens) :
    ∃ items tokens', trees = (items.map fun item => item.1.tree).reverse ∧ Opens frames tokens' ∧
      tokens = tokens' ++ (⟨.opening .paren, opening⟩ :: separated items) := by
  generalize hframes : Frame.group opening trees :: frames = frames₀ at h
  cases h with
  | group opening items h =>
    cases hframes
    exact ⟨items, _, rfl, h, rfl⟩
  | _ => cases hframes

theorem Opens.exists_element {opening : Span} (h : Opens (.element opening :: frames) tokens) :
    ∃ tokens', Opens frames tokens' ∧ tokens = tokens' ++ [⟨.opening .bracket, opening⟩] := by
  cases h with
  | element opening h => exact ⟨_, h, rfl⟩

theorem Opens.beginType (h : Opens frames tokens) (hstep : beginType frames token = .ok r') :
    Consumed r' (tokens ++ [token]) := by
  obtain ⟨kind, span⟩ := token
  unfold Reader.beginType at hstep
  split at hstep
  · rename_i name hkind
    cases hkind
    cases hstep
    exact .word name span h
  · rename_i hkind
    cases hkind
    cases hstep
    exact .nothing (.group span [] h)
  · rename_i hkind
    cases hkind
    cases hstep
    exact .nothing (.element span h)
  · rename_i opening later hkind
    cases hkind
    cases hstep
    obtain ⟨items, tokens', hitems, hlater, rfl⟩ := h.exists_group
    obtain rfl : items = [] := by simpa using hitems.symm
    have hunit := Consumed.atom (.unit opening span) hlater
    simpa [separated, Derivation.yield, Derivation.tree] using hunit
  · cases hstep

theorem Opens.endType (h : Opens frames tokens) {d : Derivation .type}
    (hstep : endType frames d.tree token = .ok r') :
    Consumed r' (tokens ++ d.yield ++ [token]) := by
  obtain ⟨kind, span⟩ := token
  unfold Reader.endType at hstep
  split at hstep
  · rename_i name word opening trees later hkind
    cases hkind
    cases hstep
    obtain ⟨items, tokens', rfl, hlater, rfl⟩ := h.exists_arguments
    have hnext := Consumed.nothing (.arguments name word opening (items ++ [(d, span)]) hlater)
    simpa [separated] using hnext
  · rename_i name word opening trees later hkind
    cases hkind
    cases hstep
    obtain ⟨items, tokens', rfl, hlater, rfl⟩ := h.exists_arguments
    have hatom := Consumed.atom (.applied name word opening (listOf items d) span) hlater
    simpa [Derivation.yield, Derivation.tree, yield_listOf, tree_listOf, named_eq_node] using hatom
  · rename_i opening trees later hkind
    cases hkind
    cases hstep
    obtain ⟨items, tokens', rfl, hlater, rfl⟩ := h.exists_group
    have hnext := Consumed.nothing (.group opening (items ++ [(d, span)]) hlater)
    simpa [separated] using hnext
  · rename_i opening trees later hkind
    cases hkind
    cases hstep
    obtain ⟨items, tokens', rfl, hlater, rfl⟩ := h.exists_group
    have hatom := Consumed.atom (.group opening (listOf items d) span) hlater
    have htree : (Derivation.group opening (listOf items d) span).tree =
        if (items.map fun item => item.1.tree).reverse.isEmpty then d.tree
        else .tuple (d.tree :: (items.map fun item => item.1.tree).reverse).reverse
          (opening.merge span) := by
      rw [Derivation.tree, tree_listOf]
      cases items with
      | nil => rfl
      | cons item items =>
        rw [grouped_of_ne_one (by simp)]
        simp
    rw [htree] at hatom
    simpa [Derivation.yield, yield_listOf] using hatom
  · rename_i opening later hkind
    cases hkind
    cases hstep
    obtain ⟨tokens', hlater, rfl⟩ := h.exists_element
    have hatom := Consumed.atom (.slice opening d span) hlater
    simpa [Derivation.yield, Derivation.tree] using hatom
  · cases hstep

theorem Opens.afterAtom (h : Opens frames tokens) {a : Derivation .atom}
    (hstep : afterAtom frames a.tree token = .ok r') :
    Consumed r' (tokens ++ a.yield ++ [token]) := by
  unfold Reader.afterAtom at hstep
  split at hstep
  · rename_i hkind
    cases hstep
    obtain ⟨kind, span⟩ := token
    cases hkind
    rw [List.append_assoc]
    exact .nothing (.codomain a span h)
  · obtain ⟨frames', tokens', d, hclose, hopens, hyield, _⟩ := h.closeArrows (.atom a)
    have htree : (Derivation.atom a).tree = a.tree := rfl
    rw [htree] at hclose
    rw [hclose] at hstep
    have hend := hopens.endType hstep
    rw [hyield] at hend
    exact hend

theorem Consumed.step (h : Consumed r tokens) (hstep : step r token = .ok r') :
    Consumed r' (tokens ++ [token]) := by
  cases h with
  | nothing h => exact h.beginType hstep
  | word name span h =>
    simp only [Reader.step] at hstep
    split at hstep
    · rename_i hkind
      cases hstep
      obtain ⟨kind, opening⟩ := token
      cases hkind
      rw [List.append_assoc]
      exact .nothing (.arguments name span opening [] h)
    · rw [named_eq_node] at hstep
      exact h.afterAtom (a := .word name span) hstep
  | atom a h => exact h.afterAtom hstep

theorem Consumed.run (h : Consumed r tokens) {later : List Token} (hrun : run r later = .ok r') :
    Consumed r' (tokens ++ later) := by
  induction later generalizing r tokens with
  | nil =>
    cases hrun
    simpa using h
  | cons token later ih =>
    rw [Reader.run, List.foldlM_cons] at hrun
    cases hstep : Reader.step r token with
    | error e =>
      rw [hstep] at hrun
      cases hrun
    | ok r₁ =>
      rw [hstep] at hrun
      have hlater := ih (h.step hstep) hrun
      rw [List.append_assoc] at hlater
      exact hlater

theorem Opens.endInput (h : Opens frames tokens) {d : Derivation .type} {t : TypeExpr}
    (hend : endInput frames d.tree = .ok t) :
    ∃ d' : Derivation .type, d'.yield = tokens ++ d.yield ∧ d'.tree = t := by
  obtain ⟨frames', tokens', d', hclose, hopens, hyield, hhead⟩ := h.closeArrows d
  unfold Reader.endInput at hend
  rw [hclose] at hend
  cases hopens with
  | none =>
    cases hend
    exact ⟨d', hyield, rfl⟩
  | codomain domain span => exact absurd rfl (hhead _ _)
  | arguments | group | element => cases hend

theorem Consumed.finish (h : Consumed r tokens) {offset : Nat} {t : TypeExpr}
    (hfinish : finish r offset = .ok t) :
    ∃ d : Derivation .type, d.yield = tokens ∧ d.tree = t := by
  cases h with
  | nothing h => cases hfinish
  | word name span h =>
    simp only [Reader.finish, named_eq_node] at hfinish
    exact h.endInput (d := .atom (.word name span)) hfinish
  | atom a h => exact h.endInput (d := .atom a) hfinish

end Reader

namespace TypeExpr

theorem parse_eq_ok_iff {source : String} {t : TypeExpr} :
    parse source = .ok t ↔ ∃ tokens r, tokensFrom 0 source.toList = .ok tokens ∧
      Reader.start.run tokens = .ok r ∧ r.finish source.utf8ByteSize = .ok t := by
  unfold parse tokenize Reader.run
  cases tokensFrom 0 source.toList with
  | error e => simp [Bind.bind, Except.bind]
  | ok tokens =>
    simp only [Bind.bind, Except.bind, Except.ok.injEq, exists_and_left, exists_eq_left']
    cases List.foldlM Reader.step Reader.start tokens <;> simp

/-- A text that spells a derivation is read as its tree. -/
theorem parse_of_lexes {source : String} {d : Derivation .type}
    (h : Lexes 0 source.toList d.yield) : parse source = .ok d.tree := by
  obtain ⟨r, hrun, hread⟩ := Reader.reads d []
  exact parse_eq_ok_iff.2 ⟨d.yield, r, tokensFrom_of_lexes h, hrun, hread.finish _⟩

/-- Only the spelling of a derivation is read. -/
theorem exists_lexes_of_parse {source : String} {t : TypeExpr} (h : parse source = .ok t) :
    ∃ d : Derivation .type, Lexes 0 source.toList d.yield ∧ d.tree = t := by
  obtain ⟨tokens, r, htokens, hrun, hfinish⟩ := parse_eq_ok_iff.1 h
  obtain ⟨d, hyield, htree⟩ := ((Reader.Consumed.nothing .none).run hrun).finish hfinish
  refine ⟨d, ?_, htree⟩
  rw [hyield]
  exact lexes_of_tokensFrom htokens

/-- Reading accepts exactly the grammar. A text is accepted if and only if it spells the tokens
of a derivation, and the result is then the tree of the derivation. The text determines the
derivation. -/
theorem parse_grammar (source : String) :
    (∀ t, parse source = .ok t ↔
      ∃ d : Derivation .type, Lexes 0 source.toList d.yield ∧ d.tree = t) ∧
    ∀ d d' : Derivation .type, Lexes 0 source.toList d.yield → Lexes 0 source.toList d'.yield →
      d = d' := by
  refine ⟨fun t => ⟨exists_lexes_of_parse, ?_⟩, fun d d' h h' => ?_⟩
  · rintro ⟨d, hlexes, rfl⟩
    exact parse_of_lexes hlexes
  · rw [← tokensFrom_eq_ok_iff] at h h'
    rw [h] at h'
    exact Derivation.yield_injective (Except.ok.inj h')

end TypeExpr

end TypeLayer
