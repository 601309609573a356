import TypeLayer.Proofs.TypeExpr.Stray

/-!
# Where the tokens of a text stand

The tokens of a text stand in order and do not overlap (`Lexes.placed`).  A text can be cut at
its tokens: the part from the first to the last of some neighbouring tokens spells just these
tokens (`Lexes.excerpt`).  Blanks around them are not in that part, and those between them are.
-/

namespace TypeLayer

/-! ## Spans in order -/

/-- The spans are not empty, and they follow each other between two offsets. -/
def Placed (lo : Nat) : List Span → Nat → Prop
  | [], hi => lo ≤ hi
  | s :: rest, hi => lo ≤ s.start ∧ s.start < s.stop ∧ Placed s.stop rest hi

section
variable {lo hi : Nat} {s : Span} {ss ts : List Span}

@[simp] theorem placed_nil : Placed lo [] hi ↔ lo ≤ hi :=
  Iff.rfl

@[simp] theorem placed_cons :
    Placed lo (s :: ss) hi ↔ lo ≤ s.start ∧ s.start < s.stop ∧ Placed s.stop ss hi :=
  Iff.rfl

theorem placed_append : Placed lo (ss ++ ts) hi ↔ ∃ mid, Placed lo ss mid ∧ Placed mid ts hi := by
  induction ss generalizing lo with
  | nil =>
    constructor
    · intro h
      exact ⟨lo, Nat.le_refl lo, h⟩
    · rintro ⟨mid, hle, h⟩
      cases ts with
      | nil => exact Nat.le_trans hle h
      | cons t ts => exact ⟨Nat.le_trans hle h.1, h.2⟩
  | cons s ss ih => simp [ih, and_assoc]

theorem Placed.mono (h : Placed lo ss hi) {lo' hi' : Nat} (hlo : lo' ≤ lo) (hhi : hi ≤ hi') :
    Placed lo' ss hi' := by
  induction ss generalizing lo lo' with
  | nil =>
    simp only [placed_nil] at h ⊢
    omega
  | cons s ss ih =>
    obtain ⟨hstart, hlt, hrest⟩ := h
    exact ⟨by omega, hlt, ih hrest (Nat.le_refl _)⟩

theorem Placed.le (h : Placed lo ss hi) : lo ≤ hi := by
  induction ss generalizing lo with
  | nil => exact h
  | cons s ss ih =>
    obtain ⟨hstart, hlt, hrest⟩ := h
    have := ih hrest
    omega

theorem Placed.within (h : Placed lo ss hi) (hs : s ∈ ss) :
    lo ≤ s.start ∧ s.start < s.stop ∧ s.stop ≤ hi := by
  induction ss generalizing lo with
  | nil => simp at hs
  | cons t ss ih =>
    obtain ⟨hstart, hlt, hrest⟩ := h
    rcases List.mem_cons.1 hs with rfl | hs
    · exact ⟨hstart, hlt, hrest.le⟩
    · have := ih hrest hs
      omega

theorem Placed.pairwise (h : Placed lo ss hi) : ss.Pairwise fun s t => s.stop ≤ t.start := by
  induction ss generalizing lo with
  | nil => exact .nil
  | cons s ss ih =>
    obtain ⟨-, -, hrest⟩ := h
    exact .cons (fun t ht => (hrest.within ht).1) (ih hrest)

end

/-! ## Tokens and their text -/

section
variable {offset : Nat} {cs : List Char} {tokens before after : List Token}

theorem byteLength_text_of_isMark {kind : Token.Kind} (h : kind.IsMark) :
    byteLength kind.text.toList = kind.text.length ∧ 0 < kind.text.length := by
  cases kind with
  | word name => cases h
  | opening d | closing d => cases d <;> decide +kernel
  | comma | arrow => decide +kernel

theorem byteLength_cons_word {c : Char} {cs : List Char} (hc : isWordStart c)
    (hcs : ∀ d ∈ cs, isWordPart d) : byteLength (c :: cs) = (c :: cs).length :=
  byteLength_word (List.forall_mem_cons.2 ⟨isWordPart_of_isWordStart hc, hcs⟩)

/-- The tokens of a text stand in order. -/
theorem Lexes.placed (h : Lexes offset cs tokens) :
    Placed offset (tokens.map Token.span) (offset + byteLength cs) := by
  induction h with
  | done => simp
  | blank _ _ ih =>
    simp only [byteLength_cons, ← Nat.add_assoc]
    exact ih.mono (by omega) (Nat.le_refl _)
  | mark hkind _ ih =>
    obtain ⟨hbytes, hpos⟩ := byteLength_text_of_isMark hkind
    simp only [byteLength_append, hbytes, ← Nat.add_assoc]
    exact ⟨Nat.le_refl _, by simp only; omega, ih⟩
  | word hc hcs _ _ ih =>
    rw [byteLength_append, byteLength_cons_word hc hcs, ← Nat.add_assoc]
    exact ⟨Nat.le_refl _, by simp, ih⟩

/-- The first token begins at the offset. -/
def StartsAt (tokens : List Token) (offset : Nat) : Prop :=
  ∃ first rest, tokens = first :: rest ∧ first.span.start = offset

/-- The last token ends at the offset. -/
def StopsAt (tokens : List Token) (offset : Nat) : Prop :=
  ∃ init last, tokens = init ++ [last] ∧ last.span.stop = offset

theorem StartsAt.append (h : StartsAt tokens offset) (after : List Token) :
    StartsAt (tokens ++ after) offset := by
  obtain ⟨first, rest, rfl, hfirst⟩ := h
  exact ⟨first, rest ++ after, rfl, hfirst⟩

theorem StopsAt.append (h : StopsAt tokens offset) (before : List Token) :
    StopsAt (before ++ tokens) offset := by
  obtain ⟨init, last, rfl, hlast⟩ := h
  exact ⟨before ++ init, last, by simp, hlast⟩

theorem StartsAt.unique {offset' : Nat} (h : StartsAt tokens offset)
    (h' : StartsAt tokens offset') : offset = offset' := by
  obtain ⟨first, rest, rfl, rfl⟩ := h
  obtain ⟨first', rest', heq, rfl⟩ := h'
  rw [(List.cons.inj heq).1]

theorem StopsAt.unique {offset' : Nat} (h : StopsAt tokens offset)
    (h' : StopsAt tokens offset') : offset = offset' := by
  obtain ⟨init, last, rfl, rfl⟩ := h
  obtain ⟨init', last', heq, rfl⟩ := h'
  rw [(List.append_singleton_inj.1 heq).2]

/-- The span reaches from the first token to the last one. -/
def Span.Reaches (span : Span) (tokens : List Token) : Prop :=
  StartsAt tokens span.start ∧ StopsAt tokens span.stop

/-- The span of two tokens merged reaches from one to the other. -/
theorem Placed.reaches {lo hi : Nat} {first last : Token} {inner : List Token}
    (h : Placed lo ((first :: (inner ++ [last])).map Token.span) hi) :
    (first.span.merge last.span).Reaches (first :: (inner ++ [last])) := by
  simp only [List.map_cons, List.map_append, List.map_nil, placed_cons, placed_append,
    placed_nil] at h
  obtain ⟨-, hfirst, mid, hinner, hmid, hlast, -⟩ := h
  have hle := hinner.le
  refine ⟨⟨first, _, rfl, ?_⟩, first :: inner, last, rfl, ?_⟩
  all_goals simp only [Span.merge]
  all_goals omega

/-- The text from a token on spells the tokens from there on. -/
theorem Lexes.drop (h : Lexes offset cs (before ++ tokens)) (hne : tokens ≠ []) :
    ∃ past rest, cs = past ++ rest ∧ Lexes (offset + byteLength past) rest tokens ∧
      StartsAt tokens (offset + byteLength past) := by
  generalize hall : before ++ tokens = all at h
  induction h generalizing before with
  | done => simp [hne] at hall
  | @blank offset c cs all hc _ ih =>
    obtain ⟨past, rest, rfl, hrest, hstart⟩ := ih hall
    refine ⟨c :: past, rest, rfl, ?_⟩
    simp only [byteLength_cons, ← Nat.add_assoc]
    exact ⟨hrest, hstart⟩
  | @mark offset kind cs all hkind hlater ih =>
    rcases List.append_eq_cons_iff.1 hall with ⟨rfl, rfl⟩ | ⟨before', rfl, hall'⟩
    · refine ⟨[], _, rfl, ?_⟩
      rw [byteLength_nil, Nat.add_zero]
      exact ⟨.mark hkind hlater, _, _, rfl, rfl⟩
    · obtain ⟨past, rest, rfl, hrest, hstart⟩ := ih hall'.symm
      refine ⟨kind.text.toList ++ past, rest, by simp, ?_⟩
      rw [byteLength_append, (byteLength_text_of_isMark hkind).1, ← Nat.add_assoc]
      exact ⟨hrest, hstart⟩
  | @word offset c name cs all hc hname hnext hlater ih =>
    rcases List.append_eq_cons_iff.1 hall with ⟨rfl, rfl⟩ | ⟨before', rfl, hall'⟩
    · refine ⟨[], _, rfl, ?_⟩
      rw [byteLength_nil, Nat.add_zero]
      exact ⟨.word hc hname hnext hlater, _, _, rfl, rfl⟩
    · obtain ⟨past, rest, rfl, hrest, hstart⟩ := ih hall'.symm
      refine ⟨c :: name ++ past, rest, by simp, ?_⟩
      rw [byteLength_append, byteLength_cons_word hc hname, ← Nat.add_assoc]
      exact ⟨hrest, hstart⟩

/-- The text up to the end of a token spells the tokens up to there. -/
theorem Lexes.take (h : Lexes offset cs (tokens ++ after)) (hne : tokens ≠ []) :
    ∃ text rest, cs = text ++ rest ∧ Lexes offset text tokens ∧
      StopsAt tokens (offset + byteLength text) := by
  generalize hall : tokens ++ after = all at h
  induction h generalizing tokens with
  | done => simp [hne] at hall
  | @blank offset c cs all hc _ ih =>
    obtain ⟨text, rest, rfl, htext, hstop⟩ := ih hne hall
    refine ⟨c :: text, rest, rfl, .blank hc htext, ?_⟩
    simpa only [byteLength_cons, ← Nat.add_assoc] using hstop
  | @mark offset kind cs all hkind _ ih =>
    obtain ⟨rfl, -⟩ | ⟨tokens', rfl, hall'⟩ := List.append_eq_cons_iff.1 hall
    · exact absurd rfl hne
    have hbytes := (byteLength_text_of_isMark hkind).1
    by_cases hlast : tokens' = []
    · subst hlast
      have hdone : Lexes (offset + kind.text.length) [] [] := .done
      have hmark := Lexes.mark hkind hdone
      rw [List.append_nil] at hmark
      exact ⟨kind.text.toList, cs, rfl, hmark, [], _, rfl, by rw [hbytes]⟩
    · obtain ⟨text, rest, rfl, htext, hstop⟩ := ih hlast hall'.symm
      refine ⟨kind.text.toList ++ text, rest, by simp, .mark hkind htext, ?_⟩
      rw [byteLength_append, hbytes, ← Nat.add_assoc]
      exact hstop.append [_]
  | @word offset c name cs all hc hname hnext _ ih =>
    obtain ⟨rfl, -⟩ | ⟨tokens', rfl, hall'⟩ := List.append_eq_cons_iff.1 hall
    · exact absurd rfl hne
    have hbytes := byteLength_cons_word hc hname
    by_cases hlast : tokens' = []
    · subst hlast
      have hdone : Lexes (offset + (c :: name).length) [] [] := .done
      have hword := Lexes.word hc hname (by simp) hdone
      rw [List.append_nil] at hword
      exact ⟨c :: name, cs, rfl, hword, [], _, rfl, by rw [hbytes]⟩
    · obtain ⟨text, rest, rfl, htext, hstop⟩ := ih hlast hall'.symm
      have hnext' : ∀ d ∈ text.head?, ¬ isWordPart d := by
        intro d hd
        rw [Option.mem_def] at hd
        exact hnext d (by simp [List.head?_append, hd])
      refine ⟨c :: name ++ text, rest, by simp, .word hc hname hnext' htext, ?_⟩
      rw [byteLength_append, hbytes, ← Nat.add_assoc]
      exact hstop.append [_]

/-- Neighbouring tokens are what the text from the first to the last of them spells. -/
theorem Lexes.excerpt {source : String} {span : Span}
    (h : Lexes 0 source.toList (before ++ (tokens ++ after)))
    (hstart : StartsAt tokens span.start) (hstop : StopsAt tokens span.stop) :
    ∃ text, span.Covers source text ∧ Lexes span.start text.toList tokens := by
  have hne : tokens ≠ [] := by
    obtain ⟨first, rest, rfl, -⟩ := hstart
    simp
  obtain ⟨past, cs, hsource, hcs, hpast⟩ := h.drop (by simp [hne])
  obtain ⟨text, rest, rfl, htext, hend⟩ := hcs.take hne
  rw [Nat.zero_add] at hpast htext hend
  have hfirst : span.start = byteLength past := (hstart.append after).unique hpast
  have hlast : span.stop = byteLength past + byteLength text := hstop.unique hend
  refine ⟨String.ofList text, ⟨String.ofList past, String.ofList rest, ?_, hfirst, hlast⟩, ?_⟩
  · rw [← String.toList_inj]
    simp [hsource]
  · rw [String.toList_ofList, hfirst]
    exact htext

end

end TypeLayer
