import TypeLayer.Proofs.TypeExpr.Placement
import TypeLayer.Proofs.TypeExpr.Refusal

/-!
# What tokens leave of a text

A text is the text of its tokens with blanks between them.  `Begins` says so for the first
token: some blanks, the text of the token at its span, and a rest that spells the other tokens.
The three facts about all tokens follow by induction on their list: each token has its text at
its span (`Lexes.covers`), what is at no span is blank (`Lexes.isBlank_outside`), and two words
never touch (`Lexes.lt_of_words`).

The end of a text is no token.  Where a text ends too early, the empty span after its last byte
is reported, so that it takes part in the order of the spans like a last token.
-/

namespace TypeLayer

/-- The byte at the offset is in the span. -/
def Span.Contains (span : Span) (offset : Nat) : Prop :=
  span.start ≤ offset ∧ offset < span.stop

/-! ## The first token -/

/-- The characters from an offset on begin with blanks and the text of the token, and the rest
of them spells the other tokens. A word is not followed by a part of a word. -/
structure Begins (offset : Nat) (cs : List Char) (token : Token) (tokens : List Token)
    (gap rest : List Char) : Prop where
  split : cs = gap ++ (token.kind.text.toList ++ rest)
  blank : ∀ c ∈ gap, Text.isBlank c
  start : token.span.start = offset + byteLength gap
  stop : token.span.stop = token.span.start + byteLength token.kind.text.toList
  later : Lexes token.span.stop rest tokens
  word : ∀ name, token.kind = .word name →
    (∃ c ∈ name.toList.head?, isWordPart c) ∧ ∀ d ∈ rest.head?, ¬ isWordPart d

section
variable {offset : Nat} {cs rest : List Char} {token : Token} {tokens : List Token}

theorem Lexes.begins (h : Lexes offset cs (token :: tokens)) :
    ∃ gap rest, Begins offset cs token tokens gap rest := by
  generalize hall : token :: tokens = all at h
  induction h with
  | done => cases hall
  | @blank offset c rest all hc _ ih =>
    obtain ⟨gap, rest, h⟩ := ih hall
    refine ⟨c :: gap, rest, ⟨by rw [h.split, List.cons_append], ?_, ?_, h.stop, h.later, h.word⟩⟩
    · exact List.forall_mem_cons.2 ⟨hc, h.blank⟩
    · rw [h.start, byteLength_cons, Nat.add_assoc]
  | @mark offset kind rest all hkind hlater =>
    cases hall
    have hbytes := (byteLength_text_of_isMark hkind).1
    refine ⟨[], rest, ⟨rfl, List.forall_mem_nil _, rfl, by rw [hbytes], hlater, ?_⟩⟩
    rintro name rfl
    cases hkind
  | @word offset c cs rest all hc hcs hrest hlater =>
    cases hall
    refine ⟨[], rest, ⟨?_, List.forall_mem_nil _, rfl, ?_, hlater, ?_⟩⟩
    · simp [Token.Kind.text]
    · simp only [Token.Kind.text, String.toList_ofList, byteLength_cons_word hc hcs]
    · rintro name ⟨⟩
      exact ⟨⟨c, by simp, isWordPart_of_isWordStart hc⟩, hrest⟩

/-- A text without tokens is blank. -/
theorem Lexes.isBlank_of_nil (h : Lexes offset cs []) : ∀ c ∈ cs, Text.isBlank c := by
  generalize hall : ([] : List Token) = all at h
  induction h with
  | done => exact List.forall_mem_nil _
  | blank hc _ ih => exact List.forall_mem_cons.2 ⟨hc, ih hall⟩
  | mark => cases hall
  | word => cases hall

/-! ## All tokens -/

/-- Each token has its text at its span. -/
theorem Lexes.covers (h : Lexes offset cs tokens) (htoken : token ∈ tokens) :
    ∃ past rest, cs = past ++ (token.kind.text.toList ++ rest) ∧
      token.span.start = offset + byteLength past ∧
      token.span.stop = token.span.start + byteLength token.kind.text.toList := by
  induction tokens generalizing offset cs with
  | nil => cases htoken
  | cons first tokens ih =>
    obtain ⟨gap, rest, hfirst⟩ := h.begins
    rcases List.mem_cons.1 htoken with rfl | htoken
    · exact ⟨gap, rest, hfirst.split, hfirst.start, hfirst.stop⟩
    · obtain ⟨past, rest', rfl, hstart, hstop⟩ := ih hfirst.later htoken
      refine ⟨gap ++ (first.kind.text.toList ++ past), rest', by simp [hfirst.split], ?_, hstop⟩
      rw [hstart, hfirst.stop, hfirst.start]
      simp only [byteLength_append]
      omega

/-- A character at no span is blank. -/
theorem Lexes.isBlank_outside (h : Lexes offset cs tokens) {past : List Char} {c : Char}
    (hcs : cs = past ++ c :: rest)
    (hout : ∀ token ∈ tokens, ¬ token.span.Contains (offset + byteLength past)) :
    Text.isBlank c := by
  induction tokens generalizing offset cs past with
  | nil => exact h.isBlank_of_nil c (by simp [hcs])
  | cons first tokens ih =>
    obtain ⟨gap, rest', hfirst⟩ := h.begins
    rw [List.forall_mem_cons] at hout
    have hsplit := hfirst.split.symm.trans hcs
    -- The character is in front of the first token, in its text, or behind it.
    rcases append_eq_append_cons hsplit with ⟨tail, rfl⟩ | ⟨mid, rfl, hbehind⟩
    · exact hfirst.blank c (by simp)
    rcases append_eq_append_cons hbehind with ⟨tail, htext⟩ | ⟨past', rfl, hrest⟩
    · have hpos := c.utf8Size_pos
      have hstart := hfirst.start
      have hstop := hfirst.stop
      rw [htext] at hstop
      refine absurd ⟨?_, ?_⟩ hout.1
      all_goals simp only [byteLength_append, byteLength_cons] at hstop ⊢
      all_goals omega
    · refine ih hfirst.later hrest fun token htoken => ?_
      have hbehind := hout.2 token htoken
      rw [hfirst.stop, hfirst.start]
      simpa only [byteLength_append, Nat.add_assoc] using hbehind

/-- Between two words there is a gap. -/
theorem Lexes.lt_of_words {before after : List Token} {x y : String} {s t : Span}
    (h : Lexes offset cs (before ++ ⟨.word x, s⟩ :: ⟨.word y, t⟩ :: after)) : s.stop < t.start := by
  obtain ⟨past, part, -, hwords, -⟩ := h.drop (by simp)
  obtain ⟨gap, rest, hx⟩ := hwords.begins
  obtain ⟨gap', rest', hy⟩ := hx.later.begins
  have hstart : t.start = s.stop + byteLength gap' := hy.start
  have hpos : 0 < byteLength gap' := by
    cases gap' with
    | nil =>
      -- The second word would go on with the first one.
      obtain ⟨c, hc, hpart⟩ := (hy.word y rfl).1
      have hhead : c ∈ rest.head? := by
        rw [hy.split, List.nil_append, List.head?_append]
        rw [Option.mem_def] at hc ⊢
        show (y.toList.head?.or rest'.head?) = some c
        rw [hc, Option.some_or]
      exact absurd hpart ((hx.word x rfl).2 c hhead)
    | cons c gap' =>
      have hpos := c.utf8Size_pos
      simp only [byteLength_cons]
      omega
  omega

end

/-- The span of a token designates its text. -/
theorem Lexes.span_covers {source : String} {tokens : List Token} {token : Token}
    (h : Lexes 0 source.toList tokens) (htoken : token ∈ tokens) :
    token.span.Covers source token.kind.text := by
  obtain ⟨past, rest, hsource, hstart, hstop⟩ := h.covers htoken
  rw [Nat.zero_add] at hstart
  refine ⟨String.ofList past, String.ofList rest, ?_, hstart, ?_⟩
  · rw [← String.toList_inj]
    simp [hsource]
  · rw [hstop, hstart, byteLength_toList]
    rfl

/-- Spans that are not empty and follow each other start one after the other, and so does the
end of the text. -/
theorem Placed.pairwise_point {lo hi : Nat} {ss : List Span} (h : Placed lo ss hi) :
    (ss ++ [Span.point hi]).Pairwise fun s t => s.start < t.start ∧ s.stop ≤ t.start := by
  rw [List.pairwise_append]
  refine ⟨?_, List.pairwise_singleton _ _, fun s hs t ht => ?_⟩
  · refine h.pairwise.imp_of_mem fun hs _ hle => ⟨?_, hle⟩
    exact Nat.lt_of_lt_of_le (h.within hs).2.1 hle
  · obtain rfl := List.mem_singleton.1 ht
    obtain ⟨-, hlt, hle⟩ := h.within hs
    exact ⟨Nat.lt_of_lt_of_le hlt hle, hle⟩

/-- A text that ends too early is refused at its end. -/
theorem span_of_unexpectedEnd {source expected : String} {tokens : List Token} {e : ReadError}
    (h : tokenize source = .ok tokens) (hparse : TypeExpr.parse source = .error e)
    (hkind : e.kind = .unexpectedEnd expected) : e.span = .point source.utf8ByteSize := by
  have hlocated := TypeExpr.located_of_parse h hparse
  rw [ReadError.Located, hkind] at hlocated
  exact hlocated.2.2

/-- Cutting a text into tokens loses nothing.  The span of a token is not empty and designates
the text of the token; the spans, and after them the end of the text, are in order and do not
overlap; a character at none of them is blank; and a word is not followed by another one without
a gap.  The end, where a text is refused that ends too early, is the empty span after the last
byte. -/
theorem tokenize_lossless {source : String} {tokens : List Token}
    (h : tokenize source = .ok tokens) :
    (∀ token ∈ tokens, token.span.start < token.span.stop ∧
      token.span.Covers source token.kind.text) ∧
    ((tokens.map Token.span ++ [Span.point source.utf8ByteSize]).Pairwise fun s t =>
      s.start < t.start ∧ s.stop ≤ t.start) ∧
    (∀ before c after, source.toList = before ++ c :: after →
      (∀ token ∈ tokens, ¬ token.span.Contains (byteLength before)) → Text.isBlank c) ∧
    (∀ before x s y t after, tokens = before ++ ⟨.word x, s⟩ :: ⟨.word y, t⟩ :: after →
      s.stop < t.start) ∧
    ∀ e expected, TypeExpr.parse source = .error e → e.kind = .unexpectedEnd expected →
      e.span = .point source.utf8ByteSize := by
  have hlexes : Lexes 0 source.toList tokens := lexes_of_tokensFrom h
  have hplaced : Placed 0 (tokens.map Token.span) source.utf8ByteSize := by
    have hplaced := hlexes.placed
    rwa [Nat.zero_add, byteLength_toList] at hplaced
  refine ⟨fun token htoken => ⟨?_, hlexes.span_covers htoken⟩, hplaced.pairwise_point, ?_, ?_, ?_⟩
  · exact (hplaced.within (List.mem_map_of_mem htoken)).2.1
  · intro before c after hsource hout
    refine hlexes.isBlank_outside hsource fun token htoken => ?_
    rw [Nat.zero_add]
    exact hout token htoken
  · rintro before x s y t after rfl
    exact hlexes.lt_of_words
  · intro e expected hparse hkind
    exact span_of_unexpectedEnd h hparse hkind

/-- The blank between the two words has three bytes, and the text ends too early. -/
theorem tokenize_lossless_wide :
    tokenize "a\u3000b->" =
        .ok [⟨.word "a", ⟨0, 1⟩⟩, ⟨.word "b", ⟨4, 5⟩⟩, ⟨.arrow, ⟨5, 7⟩⟩] ∧
      (⟨4, 5⟩ : Span).Covers "a\u3000b->" "b" ∧ (⟨5, 7⟩ : Span).Covers "a\u3000b->" "->" ∧
      ([⟨0, 1⟩, ⟨4, 5⟩, ⟨5, 7⟩, ⟨7, 7⟩] : List Span).Pairwise
        (fun s t => s.start < t.start ∧ s.stop ≤ t.start) ∧
      Text.isBlank '\u3000' ∧ 1 < 4 := by
  have hlexes : Lexes 0 ['a', '\u3000', 'b', '-', '>']
      [⟨.word "a", ⟨0, 1⟩⟩, ⟨.word "b", ⟨4, 5⟩⟩, ⟨.arrow, ⟨5, 7⟩⟩] := by
    have harrow : Lexes 5 ['-', '>'] [⟨.arrow, ⟨5, 7⟩⟩] :=
      .mark (show Token.Kind.arrow.IsMark from trivial) .done
    have hb : Lexes 4 ['b', '-', '>'] [⟨.word "b", ⟨4, 5⟩⟩, ⟨.arrow, ⟨5, 7⟩⟩] :=
      .word rfl (List.forall_mem_nil _) (by rintro d ⟨⟩; decide) harrow
    have hblank : Lexes 1 ['\u3000', 'b', '-', '>'] [⟨.word "b", ⟨4, 5⟩⟩, ⟨.arrow, ⟨5, 7⟩⟩] :=
      .blank rfl hb
    exact .word rfl (List.forall_mem_nil _) (by rintro d ⟨⟩; decide) hblank
  have htokens := tokensFrom_of_lexes hlexes
  obtain ⟨hcovers, hordered, hblank, hwords, -⟩ :=
    tokenize_lossless (show tokenize "a\u3000b->" = _ from htokens)
  refine ⟨htokens, (hcovers ⟨.word "b", ⟨4, 5⟩⟩ (by simp)).2,
    (hcovers ⟨.arrow, ⟨5, 7⟩⟩ (by simp)).2, hordered, ?_, ?_⟩
  · refine hblank ['a'] '\u3000' ['b', '-', '>'] rfl ?_
    unfold Span.Contains
    decide +kernel
  · exact hwords [] "a" ⟨0, 1⟩ "b" ⟨4, 5⟩ [⟨.arrow, ⟨5, 7⟩⟩] rfl

end TypeLayer
