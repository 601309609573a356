import TypeLayer.Source.Span

/-!
# The text at a span

Spans count bytes and texts are made of characters.  A span designates a part of a text only
if both of its ends are between characters, and then the part is determined
(`Span.Covers.unique`).
-/

namespace TypeLayer

/-- The number of bytes of some characters. -/
def byteLength (cs : List Char) : Nat :=
  (String.ofList cs).utf8ByteSize

@[simp] theorem byteLength_nil : byteLength [] = 0 := by
  simp [byteLength]

@[simp] theorem byteLength_cons (c : Char) (cs : List Char) :
    byteLength (c :: cs) = c.utf8Size + byteLength cs := by
  simp [byteLength]

@[simp] theorem byteLength_append (cs ds : List Char) :
    byteLength (cs ++ ds) = byteLength cs + byteLength ds := by
  simp [byteLength]

theorem byteLength_toList (text : String) : byteLength text.toList = text.utf8ByteSize := by
  simp [byteLength]

/-- Two beginnings of a text are equal if they have as many bytes. -/
theorem append_inj_of_byteLength {as bs cs ds : List Char} (h : as ++ cs = bs ++ ds)
    (hlength : byteLength as = byteLength bs) : as = bs ∧ cs = ds := by
  have hnil : ∀ {l : List Char}, byteLength l = 0 → l = [] := by
    intro l hl
    cases l with
    | nil => rfl
    | cons c l =>
      have := c.utf8Size_pos
      simp only [byteLength_cons] at hl
      omega
  rcases List.append_eq_append_iff.1 h with ⟨mid, rfl, rfl⟩ | ⟨mid, rfl, rfl⟩
  · have hmid : mid = [] := hnil (by simp only [byteLength_append] at hlength; omega)
    simp [hmid]
  · have hmid : mid = [] := hnil (by simp only [byteLength_append] at hlength; omega)
    simp [hmid]

/-- What stands in two lists put together stands in the first one, or in the second one. -/
theorem append_eq_append_cons {α : Type} {as bs past rest : List α} {c : α}
    (h : as ++ bs = past ++ c :: rest) :
    (∃ tail, as = past ++ c :: tail) ∨ ∃ past', past = as ++ past' ∧ bs = past' ++ c :: rest := by
  rcases List.append_eq_append_iff.1 h with ⟨past', hpast, hbs⟩ | ⟨tail, has, htail⟩
  · exact .inr ⟨past', hpast, hbs⟩
  · cases tail with
    | nil => exact .inr ⟨[], by simpa using has.symm, by simpa using htail.symm⟩
    | cons d tail =>
      cases htail
      exact .inl ⟨tail, has⟩

/-- The span designates a part of the source. -/
def Span.Covers (span : Span) (source text : String) : Prop :=
  ∃ before after : String, source = before ++ text ++ after ∧ span.start = before.utf8ByteSize ∧
    span.stop = before.utf8ByteSize + text.utf8ByteSize

theorem Span.Covers.unique {span : Span} {source text text' : String}
    (h : span.Covers source text) (h' : span.Covers source text') : text = text' := by
  obtain ⟨before, after, rfl, hstart, hstop⟩ := h
  obtain ⟨before', after', heq, hstart', hstop'⟩ := h'
  have hlist := congrArg String.toList heq
  simp only [String.toList_append, List.append_assoc] at hlist
  obtain ⟨-, hrest⟩ := append_inj_of_byteLength hlist (by simp only [byteLength_toList]; omega)
  obtain ⟨htext, -⟩ := append_inj_of_byteLength hrest (by simp only [byteLength_toList]; omega)
  exact String.toList_inj.1 htext

end TypeLayer
