import TypeLayer.TypeExpr.Token

/-!
# What tokens a text spells

`Lexes offset cs tokens` says how a text is made of tokens, without saying how they
are found: blanks may stand anywhere, a mark is written with its characters, and a
word goes on as long as it can.  The main result `tokensFrom_eq_ok_iff` says that
cutting a text into tokens finds the tokens that it spells, whenever it spells any.
-/

namespace TypeLayer

/-- The token is a delimiter, a comma or an arrow. -/
def Token.Kind.IsMark : Token.Kind → Prop
  | .word _ => False
  | _ => True

/-- The characters from a byte offset on spell the tokens. -/
inductive Lexes : Nat → List Char → List Token → Prop
  | done {offset : Nat} : Lexes offset [] []
  | blank {offset : Nat} {c : Char} {rest : List Char} {tokens : List Token} :
    Text.isBlank c → Lexes (offset + c.utf8Size) rest tokens → Lexes offset (c :: rest) tokens
  | mark {offset : Nat} {kind : Token.Kind} {rest : List Char} {tokens : List Token} :
    kind.IsMark → Lexes (offset + kind.text.length) rest tokens →
    Lexes offset (kind.text.toList ++ rest)
      (⟨kind, ⟨offset, offset + kind.text.length⟩⟩ :: tokens)
  /-- The character after a word is not part of a word. -/
  | word {offset : Nat} {c : Char} {cs rest : List Char} {tokens : List Token} :
    isWordStart c → (∀ d ∈ cs, isWordPart d) → (∀ d ∈ rest.head?, ¬ isWordPart d) →
    Lexes (offset + (c :: cs).length) rest tokens →
    Lexes offset (c :: cs ++ rest)
      (⟨.word (String.ofList (c :: cs)), ⟨offset, offset + (c :: cs).length⟩⟩ :: tokens)

/-! ## One token at a time -/

theorem isUpper_iff {c : Char} : c.isUpper ↔ 'A' ≤ c ∧ c ≤ 'Z' := by
  show decide (c.val ≥ 'A'.val ∧ c.val ≤ 'Z'.val) = true ↔ _
  rw [decide_eq_true_iff]
  exact Iff.rfl

theorem isLower_iff {c : Char} : c.isLower ↔ 'a' ≤ c ∧ c ≤ 'z' := by
  show (decide (c.val ≥ 'a'.val) && decide (c.val ≤ 'z'.val)) = true ↔ _
  rw [Bool.and_eq_true, decide_eq_true_iff, decide_eq_true_iff]
  exact Iff.rfl

theorem not_isBlank_of_isWordStart {c : Char} (h : isWordStart c) : Text.isBlank c = false := by
  replace h : (c.isUpper || c.isLower || c == '_') = true := h
  rw [Bool.or_eq_true, Bool.or_eq_true, isUpper_iff, isLower_iff, beq_iff_eq] at h
  have hrange : 65 ≤ c.toNat ∧ c.toNat ≤ 90 ∨ c.toNat = 95 ∨ 97 ≤ c.toNat ∧ c.toNat ≤ 122 := by
    rcases h with (h | h) | rfl
    · exact Or.inl h
    · exact Or.inr (Or.inr h)
    · decide
  simp [Text.isBlank, Text.blankRanges]
  omega

theorem ne_dash_of_isBlank {c : Char} (h : Text.isBlank c) : c ≠ '-' := by
  rintro rfl
  revert h
  decide

theorem ne_dash_of_isWordStart {c : Char} (h : isWordStart c) : c ≠ '-' := by
  rintro rfl
  revert h
  decide

section
variable {offset : Nat} {c : Char} {cs rest : List Char} {tokens : List Token}

theorem tokensFrom_blank (hc : Text.isBlank c) :
    tokensFrom offset (c :: rest) = tokensFrom (offset + c.utf8Size) rest := by
  have hdash := ne_dash_of_isBlank hc
  rw [tokensFrom, if_pos hc]
  · exact fun _ h _ => hdash h
  · exact hdash

theorem tokensFrom_word (hc : isWordStart c) :
    tokensFrom offset (c :: rest) =
      (⟨.word (String.ofList (c :: rest.takeWhile isWordPart)),
        ⟨offset, offset + (c :: rest.takeWhile isWordPart).length⟩⟩ :: ·) <$>
          tokensFrom (offset + (c :: rest.takeWhile isWordPart).length)
            (rest.dropWhile isWordPart) := by
  have hdash := ne_dash_of_isWordStart hc
  rw [tokensFrom, if_neg (by simp [not_isBlank_of_isWordStart hc]), if_pos hc]
  · exact fun _ h _ => hdash h
  · exact hdash

theorem punctuation_eq_some_iff {kind : Token.Kind} :
    punctuation? c = some kind ↔ kind.IsMark ∧ kind ≠ .arrow ∧ kind.text.toList = [c] := by
  constructor
  · intro h
    unfold punctuation? at h
    split at h
    all_goals cases h
    all_goals exact ⟨trivial, by decide, rfl⟩
  · rintro ⟨hmark, harrow, htext⟩
    cases kind with
    | word name => cases hmark
    | opening d | closing d =>
      cases d
      all_goals cases htext
      all_goals rfl
    | comma =>
      cases htext
      rfl
    | arrow => exact absurd rfl harrow

theorem tokensFrom_punctuation {kind : Token.Kind} (hc : punctuation? c = some kind) :
    tokensFrom offset (c :: rest) =
      (⟨kind, ⟨offset, offset + 1⟩⟩ :: ·) <$> tokensFrom (offset + 1) rest := by
  have hclass : Text.isBlank c = false ∧ isWordStart c = false ∧ c ≠ '-' := by
    unfold punctuation? at hc
    split at hc
    all_goals first | decide | cases hc
  obtain ⟨hblank, hword, hdash⟩ := hclass
  rw [tokensFrom]
  · simp only [hblank, hword, hc, Bool.false_eq_true, if_false]
  · exact fun _ h _ => hdash h
  · exact hdash

theorem tokensFrom_mark {kind : Token.Kind} (hkind : kind.IsMark) :
    tokensFrom offset (kind.text.toList ++ rest) =
      (⟨kind, ⟨offset, offset + kind.text.length⟩⟩ :: ·) <$>
        tokensFrom (offset + kind.text.length) rest := by
  by_cases harrow : kind = .arrow
  · subst harrow
    exact tokensFrom.eq_2 offset rest
  · obtain ⟨c, hc⟩ : ∃ c, kind.text.toList = [c] := by
      cases kind with
      | word name => cases hkind
      | opening d | closing d => cases d <;> exact ⟨_, rfl⟩
      | comma => exact ⟨_, rfl⟩
      | arrow => exact absurd rfl harrow
    have hlength : kind.text.length = 1 := by rw [← String.length_toList, hc]; rfl
    rw [hc, hlength]
    exact tokensFrom_punctuation (punctuation_eq_some_iff.2 ⟨hkind, harrow, hc⟩)

theorem isWordPart_of_mem_takeWhile {d : Char} (h : d ∈ cs.takeWhile isWordPart) : isWordPart d :=
  List.all_eq_true.1 List.all_takeWhile d h

/-- A word that is taken as long as possible ends in front of another character. -/
theorem not_isWordPart_of_dropWhile {d : Char} (h : d ∈ (cs.dropWhile isWordPart).head?) :
    isWordPart d = false := by
  have hnot := List.head?_dropWhile_not isWordPart cs
  rw [h] at hnot
  simpa using hnot

theorem exists_of_map_eq_ok {token : Token} {x : Except ReadError (List Token)}
    (h : (token :: ·) <$> x = .ok tokens) : ∃ rest, x = .ok rest ∧ tokens = token :: rest := by
  cases x with
  | error e => cases h
  | ok rest =>
    cases h
    exact ⟨rest, rfl, rfl⟩

end

/-! ## Cutting finds what is spelled -/

theorem lexes_of_tokensFrom {offset : Nat} {cs : List Char} {tokens : List Token}
    (h : tokensFrom offset cs = .ok tokens) : Lexes offset cs tokens := by
  induction offset, cs using tokensFrom.induct generalizing tokens with
  | case1 offset =>
    rw [tokensFrom] at h
    cases h
    exact .done
  | case2 offset rest ih =>
    rw [tokensFrom] at h
    obtain ⟨later, hlater, rfl⟩ := exists_of_map_eq_ok h
    have hmark : Token.Kind.arrow.IsMark := trivial
    exact .mark hmark (ih hlater)
  | case3 offset tail hgap =>
    rw [tokensFrom] at h
    · cases h
    · exact hgap
  | case4 offset c rest _ _ hblank ih =>
    rw [tokensFrom_blank hblank] at h
    exact .blank hblank (ih h)
  | case5 offset c rest _ _ _ hword word stop =>
    rename_i ih
    rw [tokensFrom_word hword] at h
    obtain ⟨later, hlater, rfl⟩ := exists_of_map_eq_ok h
    have hstop : ∀ d ∈ (rest.dropWhile isWordPart).head?, ¬ isWordPart d := by
      intro d hd
      simp [not_isWordPart_of_dropWhile hd]
    have hlexes := Lexes.word hword (fun d => isWordPart_of_mem_takeWhile) hstop (ih hlater)
    rw [List.cons_append, List.takeWhile_append_dropWhile] at hlexes
    exact hlexes
  | case6 offset c rest _ _ _ _ kind hkind ih =>
    rw [tokensFrom_punctuation hkind] at h
    obtain ⟨later, hlater, rfl⟩ := exists_of_map_eq_ok h
    obtain ⟨hmark, _, htext⟩ := punctuation_eq_some_iff.1 hkind
    have hlength : kind.text.length = 1 := by rw [← String.length_toList, htext]; rfl
    have hlexes : Lexes offset (kind.text.toList ++ rest)
        (⟨kind, ⟨offset, offset + kind.text.length⟩⟩ :: later) := by
      refine .mark hmark ?_
      rw [hlength]
      exact ih hlater
    rw [htext, hlength] at hlexes
    exact hlexes
  | case7 offset c rest hgap hdash hblank hword hnone =>
    rw [tokensFrom] at h
    · simp [hblank, hword, hnone] at h
    · exact hgap
    · exact hdash

theorem tokensFrom_of_lexes {offset : Nat} {cs : List Char} {tokens : List Token}
    (h : Lexes offset cs tokens) : tokensFrom offset cs = .ok tokens := by
  induction h with
  | done => rw [tokensFrom]
  | blank hc _ ih =>
    rw [tokensFrom_blank hc]
    exact ih
  | mark hkind _ ih =>
    rw [tokensFrom_mark hkind, ih]
    rfl
  | @word offset c cs rest tokens hc hcs hrest _ ih =>
    have htake : (cs ++ rest).takeWhile isWordPart = cs := by
      rw [List.takeWhile_append_of_pos hcs]
      cases rest with
      | nil => simp
      | cons d rest => simp [hrest d rfl]
    have hdrop : (cs ++ rest).dropWhile isWordPart = rest := by
      rw [List.dropWhile_append_of_pos hcs]
      cases rest with
      | nil => rfl
      | cons d rest => simp [hrest d rfl]
    rw [List.cons_append, tokensFrom_word hc, htake, hdrop, ih]
    rfl

theorem tokensFrom_eq_ok_iff {offset : Nat} {cs : List Char} {tokens : List Token} :
    tokensFrom offset cs = .ok tokens ↔ Lexes offset cs tokens :=
  ⟨lexes_of_tokensFrom, tokensFrom_of_lexes⟩

theorem Lexes.unique {offset : Nat} {cs : List Char} {tokens tokens' : List Token}
    (h : Lexes offset cs tokens) (h' : Lexes offset cs tokens') : tokens = tokens' := by
  rw [← tokensFrom_eq_ok_iff] at h h'
  exact Except.ok.inj (h.symm.trans h')

end TypeLayer
