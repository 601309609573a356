/-!
# Finite maps

A finite map as a list of pairs with distinct keys, in the order in which the
keys were first inserted.  `get?` is the view: each operation is described by
what it does to `get?`.
-/

namespace TypeLayer

structure Assoc (κ α : Type) where
  entries : List (κ × α)
deriving Repr, DecidableEq

namespace Assoc

variable {κ α : Type} [DecidableEq κ]

def empty : Assoc κ α :=
  ⟨[]⟩

instance : EmptyCollection (Assoc κ α) :=
  ⟨empty⟩

instance : Inhabited (Assoc κ α) :=
  ⟨empty⟩

/-- The value of a key in a list of pairs. -/
def find? (k : κ) : List (κ × α) → Option α
  | [] => none
  | (k', a) :: rest => if k' = k then some a else find? k rest

/-- Replaces the value of a key, or appends the pair. -/
def put (k : κ) (a : α) : List (κ × α) → List (κ × α)
  | [] => [(k, a)]
  | (k', a') :: rest => if k' = k then (k, a) :: rest else (k', a') :: put k a rest

def get? (m : Assoc κ α) (k : κ) : Option α :=
  find? k m.entries

def contains (m : Assoc κ α) (k : κ) : Bool :=
  (m.get? k).isSome

def insert (m : Assoc κ α) (k : κ) (a : α) : Assoc κ α :=
  ⟨put k a m.entries⟩

def size (m : Assoc κ α) : Nat :=
  m.entries.length

def isEmpty (m : Assoc κ α) : Bool :=
  m.entries.isEmpty

def keys (m : Assoc κ α) : List κ :=
  m.entries.map Prod.fst

def values (m : Assoc κ α) : List α :=
  m.entries.map Prod.snd

@[simp] theorem get?_empty (k : κ) : (∅ : Assoc κ α).get? k = none :=
  rfl

theorem find?_put (k k' : κ) (a : α) (entries : List (κ × α)) :
    find? k' (put k a entries) = if k = k' then some a else find? k' entries := by
  induction entries with
  | nil => simp [put, find?]
  | cons p rest ih =>
    obtain ⟨j, b⟩ := p
    by_cases hj : j = k
    · subst hj
      by_cases hk : j = k' <;> simp [put, find?, hk]
    · by_cases hk : j = k'
      · subst hk
        simp [put, find?, hj, Ne.symm hj]
      · simp [put, find?, hj, hk, ih]

/-- After an insertion, the key has the new value and every other key the value
it had. -/
theorem get?_insert (m : Assoc κ α) (k k' : κ) (a : α) :
    (m.insert k a).get? k' = if k = k' then some a else m.get? k' :=
  find?_put k k' a m.entries

@[simp] theorem get?_insert_self (m : Assoc κ α) (k : κ) (a : α) :
    (m.insert k a).get? k = some a := by
  rw [get?_insert, if_pos rfl]

/-- A key that was not there is inserted beside all others. -/
theorem get?_insert_of_unknown {m : Assoc κ α} {k k' : κ} {a b : α} (hk : m.get? k = none)
    (h : m.get? k' = some b) : (m.insert k a).get? k' = some b := by
  have hne : k ≠ k' := by
    intro heq
    rw [← heq, hk] at h
    cases h
  rw [get?_insert, if_neg hne]
  exact h

/-- After an insertion, a pair is the inserted one or was there before. -/
theorem get?_insert_cases {m : Assoc κ α} {k k' : κ} {a b : α}
    (h : (m.insert k a).get? k' = some b) : k = k' ∧ a = b ∨ m.get? k' = some b := by
  rw [get?_insert] at h
  split at h
  · next hk => exact .inl ⟨hk, Option.some.inj h⟩
  · exact .inr h

theorem mem_of_find? {k : κ} {a : α} {entries : List (κ × α)} (h : find? k entries = some a) :
    (k, a) ∈ entries := by
  induction entries with
  | nil => cases h
  | cons p rest ih =>
    obtain ⟨k', a'⟩ := p
    unfold find? at h
    split at h
    · next hk =>
      cases h
      rw [hk]
      exact List.mem_cons_self
    · exact List.mem_cons_of_mem _ (ih h)

theorem find?_of_mem {k : κ} {a : α} {entries : List (κ × α)}
    (hkeys : (entries.map Prod.fst).Nodup) (h : (k, a) ∈ entries) : find? k entries = some a := by
  induction entries with
  | nil => cases h
  | cons p rest ih =>
    obtain ⟨k', a'⟩ := p
    rw [List.map_cons, List.nodup_cons] at hkeys
    unfold find?
    rcases List.mem_cons.1 h with heq | hmem
    · cases heq
      exact if_pos rfl
    · have hne : k' ≠ k := by
        rintro rfl
        exact hkeys.1 (List.mem_map.2 ⟨(k', a), hmem, rfl⟩)
      rw [if_neg hne]
      exact ih hkeys.2 hmem

/-- Where no key stands twice, the pairs are the keys with their values. -/
theorem get?_eq_some_iff {m : Assoc κ α} (hkeys : m.keys.Nodup) {k : κ} {a : α} :
    m.get? k = some a ↔ (k, a) ∈ m.entries :=
  ⟨mem_of_find?, find?_of_mem hkeys⟩

theorem put_of_unknown {k : κ} {a : α} {entries : List (κ × α)} (h : find? k entries = none) :
    put k a entries = entries ++ [(k, a)] := by
  induction entries with
  | nil => rfl
  | cons p rest ih =>
    obtain ⟨k', a'⟩ := p
    unfold find? at h
    split at h
    · cases h
    · next hne => rw [put, if_neg hne, ih h, List.cons_append]

/-- A new key comes last. -/
theorem entries_insert_of_unknown {m : Assoc κ α} {k : κ} {a : α} (h : m.get? k = none) :
    (m.insert k a).entries = m.entries ++ [(k, a)] :=
  put_of_unknown h

theorem mem_keys_iff {m : Assoc κ α} {k : κ} : k ∈ m.keys ↔ ∃ a, m.get? k = some a := by
  obtain ⟨entries⟩ := m
  induction entries with
  | nil => simp [keys, get?, find?]
  | cons p rest ih =>
    obtain ⟨k', a'⟩ := p
    by_cases hk : k' = k
    · simp [keys, get?, find?, hk]
    · have hstep : (⟨(k', a') :: rest⟩ : Assoc κ α).get? k = (⟨rest⟩ : Assoc κ α).get? k :=
        if_neg hk
      rw [hstep, ← ih]
      simp [keys, Ne.symm hk]

theorem mem_values_of_get? {m : Assoc κ α} {k : κ} {a : α} (h : m.get? k = some a) :
    a ∈ m.values :=
  List.mem_map.2 ⟨(k, a), mem_of_find? h, rfl⟩

end Assoc

end TypeLayer
