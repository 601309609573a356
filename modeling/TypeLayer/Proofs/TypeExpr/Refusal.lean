import TypeLayer.Proofs.TypeExpr.Sentence
import TypeLayer.Proofs.TypeExpr.Stray

/-!
# Where reading fails

A text that cannot be read is refused at the first place that cannot be right.  If a character
belongs to no token, it is the first one that does not.  Otherwise it is the first token that
no sentence has after the tokens before it, or the end of the text.

That the tokens before can be the beginning of a sentence is shown by completing what the
reader holds open (`Consumed.exists_completion`).  That no sentence goes on with the refused
token needs no look at the states of the reader: it takes the tokens of every derivation, and
derivations do not depend on where their tokens stand (`not_viable_of_run`).
-/

namespace TypeLayer

open Grammar

namespace Reader

variable {frames : List Frame} {r r' : Reader} {token : Token} {tokens : List Token}
  {e : ReadError}

/-! ## What has been read can be completed -/

/-- The words among the tokens are words of the language. -/
def Worded (tokens : List Token) : Prop :=
  ∀ name span, ⟨.word name, span⟩ ∈ tokens → IsWord name

theorem worded_of_closing {rest : List Token}
    (h : ∀ t ∈ rest, ∃ delimiter, t.kind = .closing delimiter) : Worded rest := by
  intro name span hmem
  obtain ⟨delimiter, hkind⟩ := h _ hmem
  cases hkind

/-- Whatever is open can be closed after a type. -/
theorem Opens.exists_completion (h : Opens frames tokens) (d : Derivation .type) :
    ∃ (rest : List Token) (d' : Derivation .type), d'.yield = tokens ++ (d.yield ++ rest) ∧
      ∀ t ∈ rest, ∃ delimiter, t.kind = .closing delimiter := by
  induction h generalizing d with
  | none => exact ⟨[], d, by simp, by simp⟩
  | codomain domain span _ ih =>
    obtain ⟨rest, d', hyield, hrest⟩ := ih (.arrow domain span d)
    exact ⟨rest, d', by simp [hyield, Derivation.yield], hrest⟩
  | arguments name span opening items _ ih =>
    obtain ⟨rest, d', hyield, hrest⟩ :=
      ih (.atom (.applied name span opening (listOf items d) default))
    refine ⟨⟨.closing .brace, default⟩ :: rest, d', ?_, by simpa using hrest⟩
    simp [hyield, Derivation.yield, yield_listOf]
  | group opening items _ ih =>
    obtain ⟨rest, d', hyield, hrest⟩ := ih (.atom (.group opening (listOf items d) default))
    refine ⟨⟨.closing .paren, default⟩ :: rest, d', ?_, by simpa using hrest⟩
    simp [hyield, Derivation.yield, yield_listOf]
  | element opening _ ih =>
    obtain ⟨rest, d', hyield, hrest⟩ := ih (.atom (.slice opening d default))
    refine ⟨⟨.closing .bracket, default⟩ :: rest, d', ?_, by simpa using hrest⟩
    simp [hyield, Derivation.yield]

/-- What the reader has taken goes on to a derivation: with a word where a type has to
follow, and then with closing delimiters. -/
theorem Consumed.exists_completion (h : Consumed r tokens) :
    ∃ (rest : List Token) (d : Derivation .type), d.yield = tokens ++ rest ∧ Worded rest := by
  cases h with
  | nothing h =>
    obtain ⟨rest, d, hyield, hrest⟩ := h.exists_completion (.atom (.word "t" default))
    refine ⟨_, d, hyield, fun name span hmem => ?_⟩
    rcases List.mem_cons.1 hmem with heq | hmem
    · cases heq
      exact isWord_of_all rfl rfl rfl
    · exact worded_of_closing hrest name span hmem
  | word name span h =>
    obtain ⟨rest, d, hyield, hrest⟩ := h.exists_completion (.atom (.word name span))
    exact ⟨rest, d, by simp [hyield, Derivation.yield], worded_of_closing hrest⟩
  | atom a h =>
    obtain ⟨rest, d, hyield, hrest⟩ := h.exists_completion (.atom a)
    exact ⟨rest, d, by simp [hyield, Derivation.yield], worded_of_closing hrest⟩

theorem sentence_of_yield {d : Derivation .type} {rest : List Token}
    (h : d.yield = tokens ++ rest) (htokens : Worded tokens) (hrest : Worded rest) :
    Sentence (tokens.map Token.kind ++ rest.map Token.kind) := by
  refine ⟨⟨d, by simp [h]⟩, fun name hmem => ?_⟩
  rw [← List.map_append, List.mem_map] at hmem
  obtain ⟨⟨kind, span⟩, hmem, rfl⟩ := hmem
  rcases List.mem_append.1 hmem with hmem | hmem
  · exact htokens name span hmem
  · exact hrest name span hmem

theorem Consumed.viable (h : Consumed r tokens) (htokens : Worded tokens) :
    Viable (tokens.map Token.kind) := by
  obtain ⟨rest, d, hyield, hrest⟩ := h.exists_completion
  exact ⟨_, sentence_of_yield hyield htokens hrest⟩

/-! ## No sentence goes on with a refused token -/

theorem run_append_of_error (h : run r tokens = .error e) (later : List Token) :
    run r (tokens ++ later) = .error e := by
  rw [run] at h
  rw [run, List.foldlM_append, h]
  rfl

theorem not_viable_of_run (h : run start tokens = .error e) : ¬ Viable (tokens.map Token.kind) := by
  rintro ⟨rest, ⟨d, hd⟩, -⟩
  obtain ⟨tokens', later, hyield, hkinds, -⟩ := List.map_eq_append_iff.1 hd
  -- The same sentence, with its first tokens where they stand here.
  obtain ⟨d', hd'⟩ : ∃ d' : Derivation .type, d'.yield = tokens ++ later :=
    d.exists_yield_eq (by simp [hyield, hkinds])
  obtain ⟨r, hrun, -⟩ := reads d' []
  rw [hd'] at hrun
  cases hrun.symm.trans (run_append_of_error h later)

/-- A run fails at one of its tokens. -/
theorem exists_step_of_run (h : run r tokens = .error e) :
    ∃ before token after r', tokens = before ++ token :: after ∧ run r before = .ok r' ∧
      step r' token = .error e := by
  induction tokens generalizing r with
  | nil => cases h
  | cons token tokens ih =>
    cases hstep : step r token with
    | error e' =>
      rw [run, List.foldlM_cons, hstep] at h
      cases h
      exact ⟨[], token, tokens, r, rfl, rfl, hstep⟩
    | ok r₁ =>
      rw [run_cons hstep] at h
      obtain ⟨before, token', after, r', rfl, hrun, hstep'⟩ := ih h
      exact ⟨token :: before, token', after, r', rfl, by rw [run_cons hstep, hrun], hstep'⟩

theorem endType_eq_error {node : TypeExpr} (h : endType frames node token = .error e) :
    ∃ expected, e = unexpected token expected := by
  unfold endType at h
  split at h
  all_goals cases h
  exact ⟨_, rfl⟩

theorem afterAtom_eq_error {node : TypeExpr} (h : afterAtom frames node token = .error e) :
    ∃ expected, e = unexpected token expected := by
  unfold afterAtom at h
  split at h
  · cases h
  · exact endType_eq_error h

/-- Whatever the reader holds, it is the token that it refuses. -/
theorem step_eq_error (h : step r token = .error e) :
    ∃ expected, e = unexpected token expected := by
  unfold step at h
  split at h
  · unfold beginType at h
    split at h
    all_goals cases h
    exact ⟨_, rfl⟩
  · split at h
    · cases h
    · exact afterAtom_eq_error h
  · exact afterAtom_eq_error h

/-! ## The end of the text -/

/-- There are no tokens, or the last one is an opening delimiter, a comma or an arrow. -/
def AwaitsType (tokens : List Token) : Prop :=
  ∀ token ∈ tokens.getLast?,
    (∃ d, token.kind = .opening d) ∨ token.kind = .comma ∨ token.kind = .arrow

theorem awaitsType_append {init : List Token} {token : Token} :
    AwaitsType (init ++ [token]) ↔
      (∃ d, token.kind = .opening d) ∨ token.kind = .comma ∨ token.kind = .arrow := by
  simp [AwaitsType]

/-- Right after an opening delimiter or a comma. -/
theorem awaitsType_separated (init : List Token) (d : Delimiter) (opening : Span)
    (items : List (Derivation .type × Span)) :
    AwaitsType (init ++ ⟨.opening d, opening⟩ :: separated items) := by
  rcases List.eq_nil_or_concat items with rfl | ⟨items', item, rfl⟩
  · exact awaitsType_append.2 (.inl ⟨d, rfl⟩)
  · have hsplit : init ++ ⟨.opening d, opening⟩ :: separated (items'.concat item) =
        (init ++ ⟨.opening d, opening⟩ :: (separated items' ++ item.1.yield)) ++
          [⟨.comma, item.2⟩] := by
      simp [separated]
    rw [hsplit]
    exact awaitsType_append.2 (.inr (.inl rfl))

theorem Opens.awaitsType (h : Opens frames tokens) : AwaitsType tokens := by
  cases h with
  | none => simp [AwaitsType]
  | codomain domain span _ =>
    rw [← List.append_assoc]
    exact awaitsType_append.2 (.inr (.inr rfl))
  | @arguments frames tokens name span opening items _ =>
    have := awaitsType_separated (tokens ++ [⟨.word name, span⟩]) .brace opening items
    simpa using this
  | group opening items _ => exact awaitsType_separated _ .paren opening items
  | element opening _ => exact awaitsType_append.2 (.inl ⟨_, rfl⟩)

/-- An atom ends with a word or a closing delimiter. -/
theorem not_awaitsType_atom (init : List Token) (a : Derivation .atom) :
    ¬ AwaitsType (init ++ a.yield) := by
  obtain ⟨inner, token, hyield, hkind⟩ : ∃ inner token, a.yield = inner ++ [token] ∧
      ((∃ name, token.kind = .word name) ∨ ∃ d, token.kind = .closing d) := by
    cases a with
    | word name span => exact ⟨[], _, rfl, .inl ⟨name, rfl⟩⟩
    | applied name span opening items closing => exact ⟨_ :: _ :: _, _, rfl, .inr ⟨_, rfl⟩⟩
    | unit opening closing => exact ⟨[_], _, rfl, .inr ⟨_, rfl⟩⟩
    | group opening items closing => exact ⟨_ :: _, _, rfl, .inr ⟨_, rfl⟩⟩
    | slice opening element closing => exact ⟨_ :: _, _, rfl, .inr ⟨_, rfl⟩⟩
  rw [hyield, ← List.append_assoc, awaitsType_append]
  rcases hkind with ⟨name, hkind⟩ | ⟨d, hkind⟩ <;> simp [hkind]

/-- The delimiter is the last one that is opened and not closed. -/
structure LastUnclosed (tokens before : List Token) (d : Delimiter) (span : Span)
    (after : List Token) : Prop where
  split : tokens = before ++ ⟨.opening d, span⟩ :: after
  unclosed : ¬ Partnered d (after.map Token.kind)
  last : ∀ before' d' span' after', after = before' ++ ⟨.opening d', span'⟩ :: after' →
    Partnered d' (after'.map Token.kind)

theorem lastUnclosed_of_balanced {before after : List Token} {d : Delimiter} {span : Span}
    (h : tokens = before ++ ⟨.opening d, span⟩ :: after)
    (hafter : Balanced (after.map Token.kind)) : LastUnclosed tokens before d span after where
  split := h
  unclosed := hafter.not_partnered
  last before' d' span' after' heq := by
    rw [heq, List.map_append, List.map_cons] at hafter
    exact hafter.partnered

/-- At the end of the text, the innermost open delimiter is reported. -/
theorem Opens.endInput_eq_error (h : Opens frames tokens) {d : Derivation .type}
    (hend : Reader.endInput frames d.tree = .error e) :
    ∃ before delimiter after, LastUnclosed (tokens ++ d.yield) before delimiter e.span after ∧
      e.kind = .unclosedDelimiter delimiter.opening := by
  obtain ⟨frames', tokens', d', hclose, hopens, hyield, hhead⟩ := h.closeArrows d
  unfold Reader.endInput at hend
  rw [hclose] at hend
  rw [← hyield]
  cases hopens with
  | none => cases hend
  | codomain domain span => exact absurd rfl (hhead _ _)
  | @arguments frames tokens name span opening items _ =>
    cases hend
    refine ⟨tokens ++ [⟨.word name, span⟩], .brace, (listOf items d').yield,
      lastUnclosed_of_balanced ?_ (Derivation.balanced_yield _), rfl⟩
    simp [yield_listOf]
  | @group frames tokens opening items _ =>
    cases hend
    refine ⟨tokens, .paren, (listOf items d').yield,
      lastUnclosed_of_balanced ?_ (Derivation.balanced_yield _), rfl⟩
    simp [yield_listOf]
  | @element frames tokens opening _ =>
    cases hend
    refine ⟨tokens, .bracket, d'.yield,
      lastUnclosed_of_balanced ?_ (Derivation.balanced_yield _), rfl⟩
    simp

/-- Tokens that are not themselves a sentence go on to one. -/
theorem Consumed.extensible (h : Consumed r tokens) (htokens : Worded tokens)
    (hnot : ∀ d : Derivation .type, d.yield ≠ tokens) : Extensible (tokens.map Token.kind) := by
  obtain ⟨rest, d, hyield, hrest⟩ := h.exists_completion
  refine ⟨rest.map Token.kind, ?_, sentence_of_yield hyield htokens hrest⟩
  intro hnil
  rw [List.map_eq_nil_iff.1 hnil, List.append_nil] at hyield
  exact hnot d hyield

end Reader

open Reader

/-- What an error says of the tokens of a text. A refused token is the first one that no
sentence has after those before it. The text ends too early where a type has to follow, or
else inside a delimiter, of which the last one is named that has no partner. -/
def ReadError.Located (e : ReadError) (source : String) (tokens : List Token) : Prop :=
  match e.kind with
  | .unexpectedCharacter _ | .incompleteArrow => False
  | .unexpectedToken found _ => ∃ before token after, tokens = before ++ token :: after ∧
      e.span = token.span ∧ found = token.kind.text ∧ Viable (before.map Token.kind) ∧
      ¬ Viable ((before ++ [token]).map Token.kind)
  | .unexpectedEnd _ => Extensible (tokens.map Token.kind) ∧ AwaitsType tokens ∧
      e.span = .point source.utf8ByteSize
  | .unclosedDelimiter c => Extensible (tokens.map Token.kind) ∧ ¬ AwaitsType tokens ∧
      ∃ before d after, LastUnclosed tokens before d e.span after ∧ c = d.opening

section
variable {source : String} {tokens : List Token} {e : ReadError}

theorem located_of_run (hwords : Worded tokens) (h : start.run tokens = .error e) :
    e.Located source tokens := by
  obtain ⟨before, token, after, r, rfl, hrun, hstep⟩ := exists_step_of_run h
  obtain ⟨expected, rfl⟩ := step_eq_error hstep
  have hconsumed := (Consumed.nothing .none).run hrun
  have hbefore : Worded before := fun name span hmem => hwords name span (by simp [hmem])
  have hfail : start.run (before ++ [token]) = .error (unexpected token expected) := by
    rw [run_append hrun, run, List.foldlM_cons, hstep]
    rfl
  exact ⟨before, token, after, rfl, rfl, rfl, hconsumed.viable hbefore, not_viable_of_run hfail⟩

theorem located_of_finish {r : Reader} (hwords : Worded tokens) (hrun : start.run tokens = .ok r)
    (h : r.finish source.utf8ByteSize = .error e) : e.Located source tokens := by
  have hconsumed : Consumed r tokens := (Consumed.nothing .none).run hrun
  have hnot : ∀ d : Derivation .type, d.yield ≠ tokens := by
    rintro d rfl
    obtain ⟨r', hrun', hread⟩ := reads d []
    cases hrun.symm.trans hrun'
    rw [hread.finish] at h
    cases h
  have hextensible := hconsumed.extensible hwords hnot
  have hunclosed : ∀ {frames : List Frame} {tokens' : List Token} (a : Derivation .atom),
      Opens frames tokens' → tokens = tokens' ++ a.yield →
      endInput frames (Derivation.atom a).tree = .error e → e.Located source tokens := by
    intro frames tokens' a hopens heq hend
    obtain ⟨before, d, after, hlast, hkind⟩ := hopens.endInput_eq_error hend
    rw [ReadError.Located, hkind]
    refine ⟨hextensible, ?_, before, d, after, heq ▸ hlast, rfl⟩
    rw [heq]
    exact not_awaitsType_atom tokens' a
  cases hconsumed with
  | nothing hopens =>
    cases h
    exact ⟨hextensible, hopens.awaitsType, rfl⟩
  | word name span hopens =>
    simp only [Reader.finish, named_eq_node] at h
    exact hunclosed (.word name span) hopens rfl h
  | atom a hopens => exact hunclosed a hopens rfl h

end

namespace TypeExpr

theorem parse_eq_error {source : String} {e : ReadError} (h : parse source = .error e) :
    tokensFrom 0 source.toList = .error e ∨
      ∃ tokens, tokensFrom 0 source.toList = .ok tokens ∧
        (start.run tokens = .error e ∨
          ∃ r, start.run tokens = .ok r ∧ r.finish source.utf8ByteSize = .error e) := by
  unfold parse tokenize at h
  unfold Reader.run
  cases htokens : tokensFrom 0 source.toList with
  | error e' =>
    rw [htokens] at h
    cases h
    exact .inl rfl
  | ok tokens =>
    rw [htokens] at h
    simp only [Bind.bind, Except.bind] at h
    refine .inr ⟨tokens, rfl, ?_⟩
    cases hrun : List.foldlM Reader.step Reader.start tokens with
    | error e' =>
      rw [hrun] at h
      cases h
      exact .inl rfl
    | ok r =>
      rw [hrun] at h
      exact .inr ⟨r, rfl, h⟩

/-- A text that has tokens is refused at one of them, or at its end. -/
theorem located_of_parse {source : String} {tokens : List Token} {e : ReadError}
    (h : tokensFrom 0 source.toList = .ok tokens) (hparse : parse source = .error e) :
    e.Located source tokens := by
  have hlexes : Lexes 0 source.toList tokens := lexes_of_tokensFrom h
  have hwords : Worded tokens := fun name span hmem => hlexes.isWord hmem
  rcases parse_eq_error hparse with htokens | ⟨tokens', htokens, hfail⟩
  · cases h.symm.trans htokens
  · obtain rfl : tokens = tokens' := Except.ok.inj (h.symm.trans htokens)
    rcases hfail with hrun | ⟨r, hrun, hfinish⟩
    · exact located_of_run hwords hrun
    · exact located_of_finish hwords hrun hfinish

/-- A text that cannot be read is refused at the first place that cannot be right. Either some
character belongs to no token: then the error names and spans the first one. Or all characters
belong to tokens, and the error tells where the tokens leave the grammar. -/
theorem parse_error_located {source : String} {e : ReadError} (h : parse source = .error e) :
    (∃ before c after, FirstStray [] source.toList before c after ∧
      e = strayError (byteLength before) c) ∨
    Legible [] source.toList [] ∧ ∃ tokens, Lexes 0 source.toList tokens ∧
      e.Located source tokens := by
  have haccounts : Accounts [] source.toList 0 (tokensFrom 0 source.toList) :=
    accounts_tokensFrom apart_nil
  rcases parse_eq_error h with htokens | ⟨tokens, htokens, -⟩
  · rw [htokens] at haccounts
    obtain ⟨before, c, after, hstray, heq⟩ := haccounts
    exact .inl ⟨before, c, after, hstray, by simpa using heq⟩
  · rw [htokens] at haccounts
    exact .inr ⟨haccounts, tokens, lexes_of_tokensFrom htokens, located_of_parse htokens h⟩

/-- A slice of two elements: the comma is refused, since it can follow no single element. -/
theorem parse_error_located_slice :
    parse "[a, b]" = .error ⟨.unexpectedToken "," "`]`", ⟨2, 3⟩⟩ ∧
      Viable [.opening .bracket, .word "a"] ∧ ¬ Viable [.opening .bracket, .word "a", .comma] := by
  have ha : IsWord "a" := isWord_of_all rfl rfl rfl
  have hb : IsWord "b" := isWord_of_all rfl rfl rfl
  have hcomma : Token.Kind.comma.IsMark := trivial
  have hlexes : Lexes 0 "[a, b]".toList
      [⟨.opening .bracket, ⟨0, 1⟩⟩, ⟨.word "a", ⟨1, 2⟩⟩, ⟨.comma, ⟨2, 3⟩⟩, ⟨.word "b", ⟨4, 5⟩⟩,
        ⟨.closing .bracket, ⟨5, 6⟩⟩] :=
    (((spells_word ha 1).append_mark hcomma (spells_word hb 4).space).enclosed .bracket).lexes
  have hparse : parse "[a, b]" = .error ⟨.unexpectedToken "," "`]`", ⟨2, 3⟩⟩ := by
    rw [parse, tokenize, tokensFrom_of_lexes hlexes]
    rfl
  refine ⟨hparse, ?_⟩
  rcases parse_error_located hparse with ⟨before, c, after, -, heq⟩ | ⟨-, tokens, htokens, hlocated⟩
  · unfold strayError at heq
    split at heq <;> cases heq
  · obtain rfl := htokens.unique hlexes
    obtain ⟨before, token, after, heq, hspan, -, hviable, hnot⟩ := hlocated
    -- The comma is the only token at this place.
    rcases before with _ | ⟨t, _ | ⟨u, _ | ⟨v, before⟩⟩⟩
    · cases heq
      cases hspan
    · cases heq
      cases hspan
    · cases heq
      exact ⟨hviable, hnot⟩
    · obtain ⟨-, -, -, hrest⟩ : _ ∧ _ ∧ _ ∧ _ = before ++ token :: after := by simpa using heq
      have hmem : token ∈ before ++ token :: after := by simp
      simp only [← hrest, List.mem_cons, List.not_mem_nil, or_false] at hmem
      rcases hmem with rfl | rfl <;> cases hspan

end TypeExpr

end TypeLayer
