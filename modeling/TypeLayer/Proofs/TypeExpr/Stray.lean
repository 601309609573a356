import TypeLayer.Proofs.Source.Excerpt
import TypeLayer.Proofs.TypeExpr.Lexing

/-!
# Characters that belong to no token

Whether a character can stand in a text is told by the characters around it: a blank and a mark
can stand anywhere, the two halves of an arrow next to each other, and all other characters in
a word only.  `Lexable` says so without cutting the text into tokens.

A text is cut into tokens if all of its characters are lexable, and otherwise the first one
that is not is reported (`accounts_tokensFrom`).  The induction follows the cutting.  Between
two tokens the characters already passed have no influence on the next one (`Apart`): neither
half of an arrow is left over, and no word goes on.
-/

namespace TypeLayer

/-! ## Lexable characters -/

/-- The character can stand between the others. -/
inductive Lexable : List Char → Char → List Char → Prop
  | blank {before after : List Char} {c : Char} : Text.isBlank c → Lexable before c after
  | mark {before after : List Char} {c : Char} {kind : Token.Kind} :
    punctuation? c = some kind → Lexable before c after
  | dash {before after : List Char} : Lexable before '-' ('>' :: after)
  | tip {before after : List Char} : Lexable (before ++ ['-']) '>' after
  /-- A word begins at or before the character and has not ended before it. -/
  | word {before past cs after : List Char} {c d : Char} :
    isWordStart d → (∀ e ∈ cs, isWordPart e) → before ++ [c] = past ++ d :: cs → Lexable before c after

/-- All characters of a part of a text can stand there. -/
def Legible (past part rest : List Char) : Prop :=
  ∀ before c after, part = before ++ c :: after → Lexable (past ++ before) c (after ++ rest)

section
variable {past part part' rest : List Char} {c : Char}

theorem legible_nil : Legible past [] rest := by
  intro before c after h
  simp at h

theorem legible_cons :
    Legible past (c :: part) rest ↔
      Lexable past c (part ++ rest) ∧ Legible (past ++ [c]) part rest := by
  constructor
  · intro h
    refine ⟨by simpa using h [] c part rfl, fun before d after heq => ?_⟩
    simpa using h (c :: before) d after (by rw [heq]; rfl)
  · rintro ⟨hc, h⟩ before d after heq
    rcases List.append_eq_cons_iff.1 heq.symm with ⟨rfl, hd⟩ | ⟨before', rfl, hpart⟩
    · cases hd
      simpa using hc
    · simpa using h before' d after hpart

theorem Legible.append (h : Legible past part (part' ++ rest))
    (h' : Legible (past ++ part) part' rest) : Legible past (part ++ part') rest := by
  induction part generalizing past with
  | nil => simpa using h'
  | cons c part ih =>
    rw [legible_cons] at h
    rw [List.cons_append, legible_cons, List.append_assoc]
    exact ⟨h.1, ih h.2 (by simpa using h')⟩

end

/-! ## Between two tokens -/

theorem isWordPart_of_isWordStart {c : Char} (h : isWordStart c) : isWordPart c := by
  have hstart : (c.isAlpha || c == '_') = true := h
  show ((c.isAlpha || c.isDigit) || c == '_') = true
  rw [Bool.or_eq_true] at hstart
  rcases hstart with h | h <;> simp [h]

theorem isDigit_iff {c : Char} : c.isDigit ↔ '0' ≤ c ∧ c ≤ '9' := by
  show (decide (c.val ≥ '0'.val) && decide (c.val ≤ '9'.val)) = true ↔ _
  rw [Bool.and_eq_true, decide_eq_true_iff, decide_eq_true_iff]
  exact Iff.rfl

theorem toNat_of_isWordPart {c : Char} (h : isWordPart c) :
    48 ≤ c.toNat ∧ c.toNat ≤ 57 ∨ 65 ≤ c.toNat ∧ c.toNat ≤ 90 ∨ c.toNat = 95 ∨
      97 ≤ c.toNat ∧ c.toNat ≤ 122 := by
  replace h : (((c.isUpper || c.isLower) || c.isDigit) || c == '_') = true := h
  rw [Bool.or_eq_true, Bool.or_eq_true, Bool.or_eq_true, isUpper_iff, isLower_iff, isDigit_iff,
    beq_iff_eq] at h
  rcases h with ((h | h) | h) | rfl
  · exact .inr (.inl h)
  · exact .inr (.inr (.inr h))
  · exact .inl h
  · decide

theorem not_isWordPart_of_isBlank {c : Char} (h : Text.isBlank c) : isWordPart c = false := by
  rw [Bool.eq_false_iff]
  intro hpart
  have hrange := toNat_of_isWordPart hpart
  simp [Text.isBlank, Text.blankRanges] at h
  omega

theorem utf8Size_of_isWordPart {c : Char} (h : isWordPart c) : c.utf8Size = 1 := by
  have hrange := toNat_of_isWordPart h
  rw [Char.utf8Size_eq_one_iff]
  exact show c.toNat ≤ 127 by omega

theorem not_isWordPart_of_punctuation {c : Char} {kind : Token.Kind}
    (h : punctuation? c = some kind) : isWordPart c = false := by
  unfold punctuation? at h
  split at h
  all_goals first | decide | cases h

theorem utf8Size_of_punctuation {c : Char} {kind : Token.Kind} (h : punctuation? c = some kind) :
    c.utf8Size = 1 := by
  unfold punctuation? at h
  split at h
  all_goals first | decide | cases h

/-- What comes before has no influence on the characters that follow. -/
def Apart (past cs : List Char) : Prop :=
  ∀ c ∈ past.getLast?, c ≠ '-' ∧ (isWordPart c → ∀ d ∈ cs.head?, isWordPart d = false)

section
variable {past cs part rest : List Char} {c : Char}

theorem apart_nil : Apart [] cs := by
  simp [Apart]

/-- A character that is no part of an arrow or a word cuts the text in two. -/
theorem apart_of_not_isWordPart (hc : c ≠ '-') (hpart : isWordPart c = false) :
    Apart (past ++ [c]) cs := by
  simp [Apart, hc, hpart]

/-- So does the end of a word. -/
theorem apart_of_word (hpart : ∀ d ∈ part, isWordPart d) (hne : part ≠ [])
    (hrest : ∀ d ∈ rest.head?, isWordPart d = false) : Apart (past ++ part) rest := by
  intro c hc
  have hmem : c ∈ part := by
    rw [List.getLast?_append, List.getLast?_eq_some_getLast hne] at hc
    cases hc
    exact List.getLast_mem hne
  refine ⟨?_, fun _ => hrest⟩
  rintro rfl
  exact absurd (hpart _ hmem) (by decide)

/-- After what has no influence, a character has to begin something of its own. -/
theorem Apart.not_lexable (h : Apart past (c :: rest)) (hblank : ¬ Text.isBlank c)
    (hword : ¬ isWordStart c) (hmark : punctuation? c = none)
    (hdash : ∀ after, c = '-' → rest ≠ '>' :: after) : ¬ Lexable past c rest := by
  intro hc
  generalize hafter : rest = after at hc
  cases hc with
  | blank h => exact hblank h
  | mark h => simp [hmark] at h
  | dash => exact hdash _ rfl hafter
  | @tip before =>
    have := (h '-' (by simp)).1
    exact this rfl
  | @word _ past' cs _ _ d hd hcs heq =>
    rcases List.eq_nil_or_concat cs with rfl | ⟨cs', e, rfl⟩
    · obtain ⟨-, hcd⟩ := List.append_inj' heq rfl
      cases hcd
      exact hword hd
    · simp only [List.concat_eq_append, List.forall_mem_append, List.mem_singleton] at heq hcs
      rw [← List.cons_append, ← List.append_assoc] at heq
      obtain ⟨rfl, hce⟩ := List.append_inj' heq rfl
      cases hce
      -- The word has begun before, so that the character before this one is part of it.
      obtain ⟨x, hx⟩ : ∃ x, (d :: cs').getLast? = some x := ⟨_, List.getLast?_cons⟩
      have hpart : isWordPart x := by
        rcases List.mem_cons.1 (List.mem_of_getLast? hx) with rfl | hmem
        · exact isWordPart_of_isWordStart hd
        · exact hcs.1 x hmem
      have hlast : x ∈ (past' ++ d :: cs').getLast? := by simp [hx]
      have hnot := (h x hlast).2 hpart c rfl
      rw [hcs.2 c rfl] at hnot
      cases hnot

end

/-! ## The first character that cannot stand -/

/-- The error for a character, which tells a dash from the others. -/
def strayError (offset : Nat) (c : Char) : ReadError :=
  ⟨if c = '-' then .incompleteArrow else .unexpectedCharacter c, ⟨offset, offset + c.utf8Size⟩⟩

/-- The character cannot stand where it does, and all characters before it can. -/
structure FirstStray (past cs before : List Char) (c : Char) (after : List Char) : Prop where
  split : cs = before ++ c :: after
  legible : Legible past before (c :: after)
  stray : ¬ Lexable (past ++ before) c after

/-- What the outcome of cutting a text says of its characters. -/
def Accounts {α : Type} (past cs : List Char) (offset : Nat) : Except ReadError α → Prop
  | .ok _ => Legible past cs []
  | .error e => ∃ before c after, FirstStray past cs before c after ∧
      e = strayError (offset + byteLength before) c

section
variable {α β : Type} {past part rest : List Char} {offset : Nat} {c : Char}

/-- A legible part in front leaves the outcome as it is. -/
theorem Accounts.after {x : Except ReadError α} (hpart : Legible past part rest)
    (h : Accounts (past ++ part) rest (offset + byteLength part) x) (f : α → β) :
    Accounts past (part ++ rest) offset (f <$> x) := by
  cases x with
  | ok a => exact Legible.append (by simpa using hpart) h
  | error e =>
    obtain ⟨before, c, after, ⟨rfl, hlegible, hstray⟩, rfl⟩ := h
    refine ⟨part ++ before, c, after, ⟨by simp, hpart.append hlegible, by simpa using hstray⟩, ?_⟩
    simp [Nat.add_assoc]

theorem accounts_stray (h : ¬ Lexable past c rest) :
    Accounts past (c :: rest) offset (.error (strayError offset c) : Except ReadError α) :=
  ⟨[], c, rest, ⟨rfl, legible_nil, by simpa using h⟩, by simp⟩

end

/-- All characters of a word can stand. -/
theorem legible_word {past cs rest : List Char} {c : Char} (hc : isWordStart c)
    (hcs : ∀ d ∈ cs, isWordPart d) : Legible past (c :: cs) rest := by
  intro before d after heq
  rcases List.append_eq_cons_iff.1 heq.symm with ⟨rfl, hd⟩ | ⟨before', rfl, rfl⟩
  · cases hd
    exact .word hc (List.forall_mem_nil _) (show past ++ [] ++ [c] = past ++ [c] by simp)
  · refine .word hc (fun e he => hcs e ?_)
      (show past ++ c :: before' ++ [d] = past ++ c :: (before' ++ [d]) by simp)
    simp only [List.mem_append, List.mem_cons, List.not_mem_nil, or_false] at he ⊢
    rcases he with he | rfl
    · exact .inl he
    · exact .inr (.inl rfl)

theorem byteLength_word {cs : List Char} (hcs : ∀ d ∈ cs, isWordPart d) :
    byteLength cs = cs.length := by
  induction cs with
  | nil => simp
  | cons c cs ih =>
    rw [List.forall_mem_cons] at hcs
    simp only [byteLength_cons, List.length_cons, utf8Size_of_isWordPart hcs.1, ih hcs.2]
    omega

theorem accounts_tokensFrom {past cs : List Char} {offset : Nat} (h : Apart past cs) :
    Accounts past cs offset (tokensFrom offset cs) := by
  induction offset, cs using tokensFrom.induct generalizing past with
  | case1 offset =>
    rw [tokensFrom]
    exact legible_nil
  | case2 offset rest ih =>
    rw [tokensFrom]
    have hpart : Legible past ['-', '>'] rest :=
      legible_cons.2 ⟨.dash, legible_cons.2 ⟨.tip, legible_nil⟩⟩
    have hapart : Apart ((past ++ ['-']) ++ ['>']) rest :=
      apart_of_not_isWordPart (by decide) (by decide)
    rw [List.append_assoc] at hapart
    exact Accounts.after hpart (ih hapart) _
  | case3 offset tail hgap =>
    rw [tokensFrom]
    · exact accounts_stray (h.not_lexable (by decide) (by decide) (by decide) fun _ _ => hgap _)
    · exact hgap
  | case4 offset c rest _ hdash hblank ih =>
    rw [tokensFrom_blank hblank]
    have hpart : Legible past [c] rest := legible_cons.2 ⟨.blank hblank, legible_nil⟩
    have hapart : Apart (past ++ [c]) rest :=
      apart_of_not_isWordPart hdash (not_isWordPart_of_isBlank hblank)
    have := Accounts.after hpart (by simpa using ih hapart) id
    simpa using this
  | case5 offset c rest _ _ _ hword word stop =>
    rename_i ih
    rw [tokensFrom_word hword]
    have hparts : ∀ d ∈ rest.takeWhile isWordPart, isWordPart d :=
      fun d => isWordPart_of_mem_takeWhile
    have hall : ∀ d ∈ word, isWordPart d :=
      List.forall_mem_cons.2 ⟨isWordPart_of_isWordStart hword, hparts⟩
    have hpart : Legible past word (rest.dropWhile isWordPart) := legible_word hword hparts
    have hapart : Apart (past ++ word) (rest.dropWhile isWordPart) :=
      apart_of_word hall (List.cons_ne_nil _ _) fun d => not_isWordPart_of_dropWhile
    have hstop : stop = offset + byteLength word := by rw [byteLength_word hall]
    have hsplit : c :: rest = word ++ rest.dropWhile isWordPart :=
      congrArg (c :: ·) List.takeWhile_append_dropWhile.symm
    rw [hsplit]
    exact Accounts.after hpart (hstop ▸ ih hapart) _
  | case6 offset c rest _ hdash _ _ kind hkind ih =>
    rw [tokensFrom_punctuation hkind]
    have hpart : Legible past [c] rest := legible_cons.2 ⟨.mark hkind, legible_nil⟩
    have hapart : Apart (past ++ [c]) rest :=
      apart_of_not_isWordPart hdash (not_isWordPart_of_punctuation hkind)
    have hlength : byteLength [c] = 1 := by simp [utf8Size_of_punctuation hkind]
    exact Accounts.after hpart (hlength ▸ ih hapart) _
  | case7 offset c rest hgap hdash hblank hword hnone =>
    rw [tokensFrom]
    · simp only [hblank, hword, hnone]
      have herror :
          strayError offset c = ⟨.unexpectedCharacter c, ⟨offset, offset + c.utf8Size⟩⟩ := by
        simp [strayError, show c ≠ '-' from hdash]
      rw [← herror]
      exact accounts_stray (h.not_lexable hblank hword hnone fun _ hc => absurd hc hdash)
    · exact hgap
    · exact hdash

end TypeLayer
