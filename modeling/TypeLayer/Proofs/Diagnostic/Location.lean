import TypeLayer.Diagnostic.Report
import TypeLayer.Proofs.TypeExpr.Lossless

/-!
# Where a text is said to be wrong

A text that cannot be read is refused at a span.  The span is that of a character, of a token,
or of the end of the text, so that it designates a part of the text
(`TypeExpr.stands_or_atEnd_of_parse`).  A diagnostic shows such a span as it is: nothing is cut off,
and an empty one is not widened (`Diagnostic.shownSpan_eq`).

Line and column say as much as the offset.  Every further byte either ends the line or takes
one more column (`positionAfter_concat`), so that positions are in the order of their offsets
(`lineAndColumn_lt`).
-/

namespace TypeLayer

/-! ## Lines and columns -/

/-- A line feed begins the next line, and any other byte takes one column. -/
theorem positionAfter_concat (before : List UInt8) (byte : UInt8) :
    positionAfter (before ++ [byte]) =
      if byte = lineFeed then ((positionAfter before).1 + 1, 1)
      else ((positionAfter before).1, (positionAfter before).2 + 1) := by
  by_cases h : byte = lineFeed <;> simp [positionAfter, h]

/-- The order of positions: by line, and by column within a line. -/
def PositionLt : Nat × Nat → Nat × Nat → Prop :=
  Prod.Lex (· < ·) (· < ·)

theorem positionLt_iff {p q : Nat × Nat} :
    PositionLt p q ↔ p.1 < q.1 ∨ p.1 = q.1 ∧ p.2 < q.2 :=
  Prod.lex_def

theorem positionLt_concat (before : List UInt8) (byte : UInt8) :
    PositionLt (positionAfter before) (positionAfter (before ++ [byte])) := by
  rw [positionAfter_concat, positionLt_iff]
  split
  · exact .inl (Nat.lt_succ_self _)
  · exact .inr ⟨rfl, Nat.lt_succ_self _⟩

theorem PositionLt.trans {p q r : Nat × Nat} (h : PositionLt p q) (h' : PositionLt q r) :
    PositionLt p r := by
  rw [positionLt_iff] at h h' ⊢
  omega

theorem PositionLt.ne {p q : Nat × Nat} (h : PositionLt p q) : p ≠ q := by
  rintro rfl
  rw [positionLt_iff] at h
  omega

section
variable {source : String} {i j : Nat}

theorem lineAndColumn_lt_succ (hi : i < source.utf8ByteSize) :
    PositionLt (lineAndColumn source i) (lineAndColumn source (i + 1)) := by
  rw [← length_utf8Bytes] at hi
  unfold lineAndColumn
  rw [← List.take_append_getElem hi]
  exact positionLt_concat _ _

/-- A later offset has a later position. -/
theorem lineAndColumn_lt (h : i < j) (hj : j ≤ source.utf8ByteSize) :
    PositionLt (lineAndColumn source i) (lineAndColumn source j) := by
  induction j with
  | zero => cases h
  | succ j ih =>
    rcases Nat.lt_succ_iff_lt_or_eq.1 h with hlt | rfl
    · exact (ih hlt (Nat.le_of_succ_le hj)).trans (lineAndColumn_lt_succ hj)
    · exact lineAndColumn_lt_succ hj

/-- Different offsets have different positions. -/
theorem lineAndColumn_injective (hi : i ≤ source.utf8ByteSize) (hj : j ≤ source.utf8ByteSize)
    (h : lineAndColumn source i = lineAndColumn source j) : i = j := by
  rcases Nat.lt_trichotomy i j with hlt | heq | hlt
  · exact absurd h (lineAndColumn_lt hlt hj).ne
  · exact heq
  · exact absurd h.symm (lineAndColumn_lt hlt hi).ne

end

/-! ## Spans in a diagnostic -/

theorem Span.Covers.le {span : Span} {source text : String} (h : span.Covers source text) :
    span.start ≤ span.stop ∧ span.stop ≤ source.utf8ByteSize := by
  obtain ⟨before, after, rfl, hstart, hstop⟩ := h
  simp only [String.utf8ByteSize_append]
  omega

/-- A span within the source is shown as it is, if it is empty at the end only. -/
theorem Diagnostic.shownSpan_eq {d : Diagnostic} {span : Span} {length : Nat}
    (hspan : d.span = some span) (hle : span.start ≤ span.stop) (hlength : span.stop ≤ length)
    (hempty : span.start = span.stop → span.stop = length) : d.shownSpan length = span := by
  obtain ⟨start, stop⟩ := span
  simp only at hle hlength hempty
  have hstart : min start length = start := Nat.min_eq_left (Nat.le_trans hle hlength)
  have hstop : max (min stop length) start = stop := by
    rw [Nat.min_eq_left hlength, Nat.max_eq_left hle]
  simp only [shownSpan, hspan, Option.getD_some, hstart, hstop]
  split
  · -- An empty span is at the end, where there is nothing to widen it by.
    rename_i heq
    rw [hempty heq, Nat.min_eq_right (Nat.le_succ _)]
  · rfl

namespace Json

/-- The member of an object. -/
def member? (key : String) : Json → Option Json
  | .object members => (members.find? fun m => m.1 == key).map Prod.snd
  | _ => none

/-- The span that an object describes by its start and its end. -/
def span? (json : Json) : Option Span :=
  match json.member? "start", json.member? "end" with
  | some (.number start), some (.number stop) => some ⟨start, stop⟩
  | _, _ => none

/-- The spans of a diagnostic in JSON form. -/
def spans? (json : Json) : Option (List Span) :=
  match json.member? "spans" with
  | some (.array items) => items.mapM span?
  | _ => none

end Json

theorem Diagnostic.spans?_toJson (d : Diagnostic) (file : String) (length : Nat) :
    (d.toJson file length).spans? = some [d.shownSpan length] :=
  rfl

/-! ## The span of an error -/

/-- The error is about something that stands in the source: at its span there is a part of the
source that is not empty. -/
structure ReadError.Stands (e : ReadError) (source : String) : Prop where
  covers : ∃ text, e.span.Covers source text
  nonempty : e.span.start < e.span.stop
  notEnd : ∀ expected, e.kind ≠ .unexpectedEnd expected

/-- The error is that the source ends too early, and its span is the end of the source. -/
structure ReadError.AtEnd (e : ReadError) (source : String) : Prop where
  kind : ∃ expected, e.kind = .unexpectedEnd expected
  span : e.span = .point source.utf8ByteSize

section
variable {source : String} {tokens : List Token} {e : ReadError}

theorem stands_of_stray {before after : List Char} {c : Char}
    (h : source.toList = before ++ c :: after) :
    (strayError (byteLength before) c).Stands source where
  covers := by
    refine ⟨String.ofList [c], String.ofList before, String.ofList after, ?_, rfl, ?_⟩
    · rw [← String.toList_inj]
      simp [h]
    · simp [strayError, byteLength]
  nonempty := Nat.lt_add_of_pos_right c.utf8Size_pos
  notEnd expected hkind := by
    unfold strayError at hkind
    split at hkind <;> cases hkind

theorem stands_of_token {token : Token} (h : Lexes 0 source.toList tokens)
    (htoken : token ∈ tokens) (hspan : e.span = token.span)
    (hkind : ∀ expected, e.kind ≠ .unexpectedEnd expected) : e.Stands source where
  covers := ⟨token.kind.text, hspan ▸ h.span_covers htoken⟩
  nonempty := hspan ▸ (h.placed.within (List.mem_map_of_mem htoken)).2.1
  notEnd := hkind

theorem ReadError.Located.stands_or_atEnd (h : e.Located source tokens)
    (hlexes : Lexes 0 source.toList tokens) : e.Stands source ∨ e.AtEnd source := by
  unfold Located at h
  cases hkind : e.kind with
  | unexpectedCharacter | incompleteArrow =>
    rw [hkind] at h
    exact h.elim
  | unexpectedToken found expected =>
    rw [hkind] at h
    obtain ⟨before, token, after, rfl, hspan, -⟩ := h
    exact .inl (stands_of_token hlexes (by simp) hspan (by simp [hkind]))
  | unexpectedEnd expected =>
    rw [hkind] at h
    exact .inr ⟨⟨expected, hkind⟩, h.2.2⟩
  | unclosedDelimiter opening =>
    rw [hkind] at h
    obtain ⟨-, -, before, d, after, hlast, -⟩ := h
    have hmem : ⟨.opening d, e.span⟩ ∈ tokens := by simp [hlast.split]
    exact .inl (stands_of_token hlexes hmem rfl (by simp [hkind]))

end

namespace TypeExpr

variable {source : String} {e : ReadError}

/-- A text is refused where something stands in it, or at its end. -/
theorem stands_or_atEnd_of_parse (h : parse source = .error e) :
    e.Stands source ∨ e.AtEnd source := by
  rcases parse_eq_error h with hstray | ⟨tokens, htokens, -⟩
  · have haccounts : Accounts [] source.toList 0 (tokensFrom 0 source.toList) :=
      accounts_tokensFrom apart_nil
    rw [hstray] at haccounts
    obtain ⟨before, c, after, hfirst, rfl⟩ := haccounts
    rw [Nat.zero_add]
    exact .inl (stands_of_stray hfirst.split)
  · exact (located_of_parse htokens h).stands_or_atEnd (lexes_of_tokensFrom htokens)

theorem covers_of_parse (h : parse source = .error e) : ∃ text, e.span.Covers source text := by
  rcases stands_or_atEnd_of_parse h with hstands | hend
  · exact hstands.covers
  · rw [hend.span]
    exact ⟨"", source, "", by simp, rfl, by simp [Span.point]⟩

/-- The span of an error is empty if the text ends too early, and only then. -/
theorem span_empty_iff (h : parse source = .error e) :
    e.span.start = e.span.stop ↔ ∃ expected, e.kind = .unexpectedEnd expected := by
  rcases stands_or_atEnd_of_parse h with hstands | hend
  · constructor
    · intro heq
      exact absurd heq (Nat.ne_of_lt hstands.nonempty)
    · rintro ⟨expected, hkind⟩
      exact absurd hkind (hstands.notEnd expected)
  · exact ⟨fun _ => hend.kind, fun _ => by rw [hend.span]; rfl⟩

theorem span_eq_point (h : parse source = .error e) (hempty : e.span.start = e.span.stop) :
    e.span = .point source.utf8ByteSize := by
  rcases stands_or_atEnd_of_parse h with hstands | hend
  · exact absurd hempty (Nat.ne_of_lt hstands.nonempty)
  · exact hend.span

/-- What is reported of a text that cannot be read is where it was refused.  The span designates
a part of the text; it is empty only if the text ends too early, and is its end then; the JSON
form of the diagnostic gives the same span; and since positions are in the order of their
offsets, line and column determine where the span starts. -/
theorem parse_error_faithful (h : parse source = .error e) (file : String) :
    (∃ text, e.span.Covers source text) ∧
    (e.span.start ≤ e.span.stop ∧ e.span.stop ≤ source.utf8ByteSize) ∧
    (e.span.start = e.span.stop ↔ ∃ expected, e.kind = .unexpectedEnd expected) ∧
    (e.span.start = e.span.stop → e.span = .point source.utf8ByteSize) ∧
    (e.diagnostic.toJson file source.utf8ByteSize).spans? = some [e.span] ∧
    (∀ i j, i < j → j ≤ source.utf8ByteSize →
      PositionLt (lineAndColumn source i) (lineAndColumn source j)) ∧
    ∀ i ≤ source.utf8ByteSize,
      lineAndColumn source i = lineAndColumn source e.span.start → i = e.span.start := by
  obtain ⟨text, hcovers⟩ := covers_of_parse h
  obtain ⟨hle, hlength⟩ := hcovers.le
  have hshown : e.diagnostic.shownSpan source.utf8ByteSize = e.span := by
    refine Diagnostic.shownSpan_eq rfl hle hlength fun heq => ?_
    rw [span_eq_point h heq]
    rfl
  refine ⟨⟨text, hcovers⟩, ⟨hle, hlength⟩, span_empty_iff h, span_eq_point h, ?_,
    fun i j => lineAndColumn_lt, ?_⟩
  · rw [Diagnostic.spans?_toJson, hshown]
  · intro i hi heq
    exact lineAndColumn_injective hi (Nat.le_trans hle hlength) heq

/-- The first text ends with a line feed where a type has to follow: the error is at the beginning
of the second line, and no other offset is. The second text goes on with a slice of two elements:
the error is at the comma, at the third column of the second line. -/
theorem parse_error_faithful_newline :
    (parse "a\u3000->\n" = .error ⟨.unexpectedEnd "a type", ⟨7, 7⟩⟩ ∧
      ((⟨.unexpectedEnd "a type", ⟨7, 7⟩⟩ : ReadError).diagnostic.toJson "input" 7).spans? =
        some [⟨7, 7⟩] ∧
      PositionLt (lineAndColumn "a\u3000->\n" 6) (lineAndColumn "a\u3000->\n" 7) ∧
      lineAndColumn "a\u3000->\n" 7 = (2, 1) ∧
      ∀ i ≤ 7, lineAndColumn "a\u3000->\n" i = (2, 1) → i = 7) ∧
    parse "a\u3000->\n[b, c]" = .error ⟨.unexpectedToken "," "`]`", ⟨9, 10⟩⟩ ∧
      (⟨9, 10⟩ : Span).Covers "a\u3000->\n[b, c]" "," ∧
      ((⟨.unexpectedToken "," "`]`", ⟨9, 10⟩⟩ : ReadError).diagnostic.toJson "input" 13).spans? =
        some [⟨9, 10⟩] ∧
      lineAndColumn "a\u3000->\n[b, c]" 9 = (2, 3) ∧
      ∀ i ≤ 13, lineAndColumn "a\u3000->\n[b, c]" i = (2, 3) → i = 9 := by
  have harrow : Token.Kind.arrow.IsMark := trivial
  have hbefore : ∀ {chars : List Char} {tokens : List Token}, Lexes 6 chars tokens →
      Lexes 0 ('a' :: '\u3000' :: '-' :: '>' :: chars)
        (⟨.word "a", ⟨0, 1⟩⟩ :: ⟨.arrow, ⟨4, 6⟩⟩ :: tokens) := by
    intro chars tokens h
    have hblank : Lexes 1 ('\u3000' :: '-' :: '>' :: chars) (⟨.arrow, ⟨4, 6⟩⟩ :: tokens) :=
      .blank rfl (.mark harrow h)
    exact .word rfl (List.forall_mem_nil _) (by rintro d ⟨⟩; decide) hblank
  have hend : parse "a\u3000->\n" = .error ⟨.unexpectedEnd "a type", ⟨7, 7⟩⟩ := by
    have htokens : tokenize "a\u3000->\n" = .ok [⟨.word "a", ⟨0, 1⟩⟩, ⟨.arrow, ⟨4, 6⟩⟩] :=
      tokensFrom_of_lexes (hbefore (.blank rfl .done))
    rw [parse, htokens]
    rfl
  have hcomma : parse "a\u3000->\n[b, c]" = .error ⟨.unexpectedToken "," "`]`", ⟨9, 10⟩⟩ := by
    have hb : IsWord "b" := isWord_of_all rfl rfl rfl
    have hc : IsWord "c" := isWord_of_all rfl rfl rfl
    have hmark : Token.Kind.comma.IsMark := trivial
    have hslice : Lexes 7 "[b, c]".toList
        [⟨.opening .bracket, ⟨7, 8⟩⟩, ⟨.word "b", ⟨8, 9⟩⟩, ⟨.comma, ⟨9, 10⟩⟩,
          ⟨.word "c", ⟨11, 12⟩⟩, ⟨.closing .bracket, ⟨12, 13⟩⟩] :=
      (((spells_word hb 8).append_mark hmark (spells_word hc 11).space).enclosed .bracket).lexes
    have htokens : tokenize "a\u3000->\n[b, c]" = .ok _ :=
      tokensFrom_of_lexes (hbefore (.blank rfl hslice))
    rw [parse, htokens]
    rfl
  have hposition : lineAndColumn "a\u3000->\n" 7 = (2, 1) := by decide +kernel
  have hposition' : lineAndColumn "a\u3000->\n[b, c]" 9 = (2, 3) := by decide +kernel
  obtain ⟨-, -, -, -, hjson, hordered, hinjective⟩ := parse_error_faithful hend "input"
  obtain ⟨-, -, -, -, hjson', -, hinjective'⟩ := parse_error_faithful hcomma "input"
  refine ⟨⟨hend, hjson, hordered 6 7 (by decide) (Nat.le_refl 7), hposition, ?_⟩, hcomma, ?_,
    hjson', hposition', ?_⟩
  · rw [← hposition]
    exact hinjective
  · exact ⟨"a\u3000->\n[b", " c]", by decide +kernel, by decide +kernel, by decide +kernel⟩
  · rw [← hposition']
    exact hinjective'

end TypeExpr

end TypeLayer
