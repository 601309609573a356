import TypeLayer.Proofs.Structural.Reachable

/-!
# New unknowns

`Table.grow` adds a number of new unknowns to a table.  They are numbered from the
size of the table on, free, and alone in their classes (`classOf_grow`), and
nothing is imposed on them: a solution of the table goes on to be one whatever it
gives to the new unknowns (`Solves.grow`).  Using a scheme and building a function
change a table by growth only.
-/

namespace TypeLayer

namespace Table

variable {T : Table}

/-- Only the types of created unknowns count. -/
theorem Solves.congr {s s' : Assignment} (hT : T.WellFormed) (hs : T.Solves s)
    (h : ∀ v < T.size, s' v = s v) : T.Solves s' := by
  refine ⟨fun hvw => ?_, fun {v r t} hv => ?_⟩
  · obtain ⟨r, b, hv, hw⟩ := id hvw
    rw [h _ (lt_size_of_classOf hv), h _ (lt_size_of_classOf hw)]
    exact hs.same hvw
  · rw [h v (lt_size_of_classOf hv), hs.bound hv]
    exact Ty.subst_congr fun w hw => (h w (hT.covered hv w hw)).symm

/-! ## Growth -/

/-- The table with so many new unknowns. -/
def grow (T : Table) : Nat → Table
  | 0 => T
  | n + 1 => T.fresh.2.grow n

theorem grow_add (T : Table) (m n : Nat) : T.grow (m + n) = (T.grow m).grow n := by
  induction m generalizing T with
  | zero => rw [Nat.zero_add, grow]
  | succ m ih =>
    rw [Nat.succ_add, grow, grow]
    exact ih T.fresh.2

theorem Reachable.grow (hT : T.Reachable) (n : Nat) : (T.grow n).Reachable := by
  induction n generalizing T with
  | zero => exact hT
  | succ n ih => exact ih (hT.after .fresh rfl)

@[simp] theorem size_grow (T : Table) (n : Nat) : (T.grow n).size = T.size + n := by
  induction n generalizing T with
  | zero => rfl
  | succ n ih =>
    rw [grow, ih, size_fresh]
    omega

theorem evolved_grow (hT : T.WellFormed) (n : Nat) : T.Evolved (T.grow n) := by
  induction n generalizing T with
  | zero => exact hT.evolved
  | succ n ih => exact hT.evolved.fresh.trans (ih (wellFormed_fresh hT))

/-- The old unknowns keep their classes, and each of the new ones is a free class of
its own. -/
theorem classOf_grow (hT : T.WellFormed) {n : Nat} {v r : TyVar} {b : Option Ty} :
    (T.grow n).classOf v = .ok (r, b) ↔
      T.classOf v = .ok (r, b) ∨ ∃ i < n, v = T.size + i ∧ r = T.size + i ∧ b = none := by
  induction n generalizing T with
  | zero => simp [grow]
  | succ n ih =>
    rw [grow, ih (wellFormed_fresh hT), classOf_fresh hT.created, size_fresh, or_assoc]
    refine or_congr_right ?_
    constructor
    · intro h
      rcases h with ⟨rfl, rfl, rfl⟩ | ⟨i, hi, rfl, rfl, rfl⟩
      · exact ⟨0, by omega, rfl, rfl, rfl⟩
      · have hnext : T.size + 1 + i = T.size + (i + 1) := by omega
        exact ⟨i + 1, by omega, hnext, hnext, rfl⟩
    · intro h
      obtain ⟨i, hi, rfl, rfl, rfl⟩ := h
      cases i with
      | zero => exact Or.inl ⟨rfl, rfl, rfl⟩
      | succ i =>
        have hnext : T.size + (i + 1) = T.size + 1 + i := by omega
        exact Or.inr ⟨i, by omega, hnext, hnext, rfl⟩

theorem classOf_grow_new (hT : T.WellFormed) {n i : Nat} (hi : i < n) :
    (T.grow n).classOf (T.size + i) = .ok (T.size + i, none) :=
  (classOf_grow hT).2 (.inr ⟨i, hi, rfl, rfl, rfl⟩)

/-- A new unknown is alone in its class. -/
theorem eq_of_sameClass_grow (hT : T.WellFormed) {n i : Nat} (hi : i < n) {w : TyVar}
    (h : (T.grow n).SameClass (T.size + i) w) : w = T.size + i := by
  obtain ⟨r, b, hv, hw⟩ := h
  cases hv.symm.trans (classOf_grow_new hT hi)
  rcases (classOf_grow hT).1 hw with hold | ⟨j, -, rfl, heq, -⟩
  · exact absurd (root_lt_size_of_classOf hold) (Nat.not_lt.2 (Nat.le_add_right _ _))
  · exact heq.symm

/-- What was created before is resolved as before. -/
theorem solution_grow (hT : T.WellFormed) (n : Nat) {v : TyVar} (hv : v < T.size) :
    (T.grow n).solution v = T.solution v := by
  have hold : ∀ {v r b}, T.classOf v = .ok (r, b) → (T.grow n).classOf v = .ok (r, b) :=
    fun h => (classOf_grow hT).2 (.inl h)
  refine unknown_induct hT (motive := fun v => (T.grow n).solution v = T.solution v) ?_ ?_ v hv
  · intro v r hclass
    rw [solution_free hclass, solution_free (hold hclass)]
  · intro v r t hclass ih
    rw [solution_bound hT hclass, solution_bound (evolved_grow hT n).wellFormed (hold hclass)]
    exact Ty.subst_congr ih

theorem resolve_grow (hT : T.WellFormed) (n : Nat) {t : Ty} (ht : T.Covers t) :
    (T.grow n).resolve t = T.resolve t := by
  have hle : T.size ≤ (T.grow n).size := (evolved_grow hT n).steps.size_le
  rw [resolve_eq (evolved_grow hT n).wellFormed (ht.mono hle), resolve_eq hT ht]
  exact congrArg _ (Ty.subst_congr fun v hv => solution_grow hT n (ht v hv))

/-- A new unknown stands for itself. -/
theorem solution_grow_new (hT : T.WellFormed) {n i : Nat} (hi : i < n) :
    (T.grow n).solution (T.size + i) = .var (T.size + i) :=
  solution_free (classOf_grow_new hT hi)

/-- New unknowns are not constrained. -/
theorem solves_grow (hT : T.WellFormed) {n : Nat} {s : Assignment} :
    (T.grow n).Solves s ↔ T.Solves s := by
  induction n generalizing T with
  | zero => exact Iff.rfl
  | succ n ih => exact (ih (wellFormed_fresh hT)).trans (solves_fresh hT)

theorem Solves.grow {s s' : Assignment} (hT : T.WellFormed) (hs : T.Solves s)
    (h : ∀ v < T.size, s' v = s v) (n : Nat) : (T.grow n).Solves s' :=
  (solves_grow hT).2 (hs.congr hT h)

/-- The new unknowns for given ones are numbered in order. -/
theorem freshFor_eq (vs : List TyVar) (T : Table) :
    freshFor vs T = .ok (vs.zipIdx T.size) (T.grow vs.length) := by
  induction vs generalizing T with
  | nil => rfl
  | cons v vs ih =>
    have htail := ih T.fresh.2
    rw [size_fresh] at htail
    unfold freshFor
    dsimp only
    rw [htail]
    rfl

end Table

end TypeLayer
