import Mathlib.Data.Finset.Card
import Mathlib.Logic.Relation
import TypeLayer.Proofs.Structural.Solution

/-!
# Resolution

Resolving a type follows bindings inside bindings.  In a well-formed table this
ends: a level can be given to every unknown, below the number of unknowns, so
that a class is bound to a type with unknowns of smaller levels only
(`exists_isLevel`).  The bounds that `resolve` and `occurs` put on the bindings
they follow are therefore never reached.

Resolution is substitution of one assignment, `Table.solution`, and this
assignment is the most general solution of the table: it is a solution
(`solves_solution`), and every solution factors through it (`subst_solution`).
Three consequences are used everywhere else:

* two types are equal as far as the table knows exactly if all solutions make
  them equal (`agree_iff`);
* the occurs check finds a free class in a type exactly if it is left in the
  resolved type (`mem_solution_of_occurs`, `not_mem_solution_of_occurs`);
* a table stays well formed under every change that the library makes to it
  (`Step.wellFormed`).
-/

namespace TypeLayer.Table

variable {T : Table}

/-! ## Levels -/

/-- A level for every unknown, the same for a whole class, that goes down from a
bound class to the unknowns of its binding. -/
structure IsLevel (T : Table) (level : TyVar → Nat) : Prop where
  lt_size : ∀ v, v < T.size → level v < T.size
  same : ∀ {v w}, T.SameClass v w → level v = level w
  down : ∀ {v r t}, T.classOf v = .ok (r, some t) → ∀ w ∈ t.occurrences, level w < level v

/-- An unknown is given a smaller type than a class that is bound to a type it
occurs in. -/
theorem Solves.sizeOf_lt {s : Assignment} (hs : T.Solves s) (hT : T.WellFormed) {v r : TyVar}
    {t : Ty} (hv : T.classOf v = .ok (r, some t)) {w : TyVar} (hw : w ∈ t.occurrences) :
    sizeOf (s w) < sizeOf (s v) := by
  obtain ⟨name, args, rfl⟩ := hT.named hv
  rw [hs.bound hv]
  exact Ty.sizeOf_lt_subst_con hw

/-- The sizes of the types in a solution order the classes.  The level of an
unknown counts the smaller sizes, so that it stays below the number of
unknowns. -/
theorem exists_isLevel (hT : T.WellFormed) : ∃ level, T.IsLevel level := by
  obtain ⟨s, hs⟩ := hT.solvable
  let sizes : Finset Nat := (Finset.range T.size).image fun w => sizeOf (s w)
  have hmem : ∀ v, v < T.size → sizeOf (s v) ∈ sizes := by
    intro v hv
    exact Finset.mem_image_of_mem _ (Finset.mem_range.2 hv)
  have hcard : sizes.card ≤ T.size := by
    have hle := Finset.card_image_le (s := Finset.range T.size) (f := fun w => sizeOf (s w))
    rw [Finset.card_range] at hle
    exact hle
  refine ⟨fun v => (sizes.filter (· < sizeOf (s v))).card, ?_, ?_, ?_⟩
  · intro v hv
    refine Nat.lt_of_lt_of_le (Finset.card_lt_card ?_) hcard
    refine Finset.ssubset_iff_subset_ne.2 ⟨Finset.filter_subset _ _, fun heq => ?_⟩
    have hself := hmem v hv
    rw [← heq] at hself
    exact Nat.lt_irrefl _ (Finset.mem_filter.1 hself).2
  · intro v w hvw
    simp only [hs.same hvw]
  · intro v r t hv w hw
    have hlt := hs.sizeOf_lt hT hv hw
    apply Finset.card_lt_card
    refine Finset.ssubset_iff_subset_ne.2 ⟨?_, fun heq => ?_⟩
    · intro n hn
      obtain ⟨hn, hnw⟩ := Finset.mem_filter.1 hn
      exact Finset.mem_filter.2 ⟨hn, Nat.lt_trans hnw hlt⟩
    · have hself : sizeOf (s w) ∈ sizes.filter (· < sizeOf (s v)) :=
        Finset.mem_filter.2 ⟨hmem w (hT.covered hv w hw), hlt⟩
      rw [← heq] at hself
      exact Nat.lt_irrefl _ (Finset.mem_filter.1 hself).2

/-! ## Following bindings -/

section
variable {α : Type} {free : TyVar → Except Fault α} {bound : Ty → Except Fault α} {v r : TyVar}

theorem follow_free (h : T.classOf v = .ok (r, none)) : T.follow free bound v = free r := by
  rw [follow, h]

theorem follow_bound {t : Ty} (h : T.classOf v = .ok (r, some t)) :
    T.follow free bound v = bound t := by
  rw [follow, h]

/-- A walk that gets past an unknown has found its class. -/
theorem exists_classOf_of_follow {a : α} (h : T.follow free bound v = .ok a) :
    ∃ r b, T.classOf v = .ok (r, b) := by
  rw [follow] at h
  split at h
  · cases h
  · rename_i hclass
    exact ⟨_, _, hclass⟩
  · rename_i hclass
    exact ⟨_, _, hclass⟩

theorem exists_follow (hT : T.WellFormed) (hv : v < T.size) (hfree : ∀ r, ∃ a, free r = .ok a)
    (hbound : ∀ r t, T.classOf v = .ok (r, some t) → ∃ a, bound t = .ok a) :
    ∃ a, T.follow free bound v = .ok a := by
  obtain ⟨r, b, hclass⟩ := hT.created v hv
  cases b with
  | none =>
    rw [follow_free hclass]
    exact hfree r
  | some t =>
    rw [follow_bound hclass]
    exact hbound r t hclass

end

/-! ## Resolution ends -/

/-- As many bindings are followed one inside the other as there are levels. -/
theorem exists_resolveWithin (hT : T.WellFormed) {level : TyVar → Nat} (hl : T.IsLevel level)
    {n : Nat} {t : Ty} (ht : T.Covers t) (hn : ∀ v ∈ t.occurrences, level v < n) :
    ∃ u, T.resolveWithin n t = .ok u := by
  induction n generalizing t with
  | zero => exact Ty.exists_fill fun v hv => absurd (hn v hv) (Nat.not_lt_zero _)
  | succ n ih =>
    refine Ty.exists_fill fun v hv => exists_follow hT (ht v hv) (fun r => ⟨_, rfl⟩) ?_
    intro r t' hclass
    refine ih (hT.covered hclass) fun w hw => ?_
    have hdown := hl.down hclass w hw
    have hlt := hn v hv
    omega

/-- What becomes of a binding when so many may be followed. -/
private def resolveBound (T : Table) : Nat → Ty → Except Fault Ty
  | 0 => fun _ => .error .endless
  | n + 1 => T.resolveWithin n

private theorem resolveWithin_eq_ok_iff {n : Nat} {t u : Ty} :
    T.resolveWithin n t = .ok u ↔
      ∃ s, (∀ v ∈ t.occurrences,
        T.follow (fun root => .ok (.var root)) (T.resolveBound n) v = .ok (s v)) ∧
        u = t.subst s := by
  cases n <;> exact Ty.fill_eq_ok_iff

private theorem resolveWithin_of_bound {n m : Nat}
    (hbound : ∀ t u, T.resolveBound n t = .ok u → T.resolveBound m t = .ok u) {t u : Ty}
    (h : T.resolveWithin n t = .ok u) : T.resolveWithin m t = .ok u := by
  obtain ⟨s, hs, rfl⟩ := resolveWithin_eq_ok_iff.1 h
  refine resolveWithin_eq_ok_iff.2 ⟨s, fun v hv => ?_, rfl⟩
  have hsv := hs v hv
  obtain ⟨r, b, hclass⟩ := exists_classOf_of_follow hsv
  cases b with
  | none =>
    rw [follow_free hclass] at hsv ⊢
    exact hsv
  | some t' =>
    rw [follow_bound hclass] at hsv ⊢
    exact hbound t' (s v) hsv

/-- A greater bound changes nothing once the walk has ended. -/
theorem resolveWithin_mono {n m : Nat} (hnm : n ≤ m) {t u : Ty}
    (h : T.resolveWithin n t = .ok u) : T.resolveWithin m t = .ok u := by
  induction n generalizing m t u with
  | zero =>
    refine resolveWithin_of_bound (fun t u ht => ?_) h
    cases ht
  | succ n ih =>
    obtain ⟨k, rfl⟩ : ∃ k, m = k + 1 := ⟨m - 1, by omega⟩
    have hbound : ∀ t u, T.resolveBound (n + 1) t = .ok u → T.resolveBound (k + 1) t = .ok u :=
      fun t u ht => ih (by omega) ht
    exact resolveWithin_of_bound hbound h

/-- In a well-formed table every type over created unknowns can be resolved. -/
theorem exists_resolve (hT : T.WellFormed) {t : Ty} (ht : T.Covers t) :
    ∃ u, T.resolve t = .ok u := by
  obtain ⟨level, hl⟩ := exists_isLevel hT
  exact exists_resolveWithin hT hl ht fun v hv => hl.lt_size v (ht v hv)

theorem covers_of_resolve {t u : Ty} (h : T.resolve t = .ok u) : T.Covers t := by
  intro v hv
  obtain ⟨s, hs, _⟩ := resolveWithin_eq_ok_iff.1 h
  obtain ⟨r, b, hclass⟩ := exists_classOf_of_follow (hs v hv)
  exact lt_size_of_classOf hclass

/-! ## The most general solution -/

/-- What resolution puts in place of each unknown. -/
def solution (T : Table) : Assignment := fun v =>
  match T.resolve (.var v) with
  | .ok u => u
  | .error _ => .var v

theorem solution_of_resolve {v : TyVar} {u : Ty} (h : T.resolve (.var v) = .ok u) :
    T.solution v = u := by
  simp [solution, h]

/-- An unknown that has not been created stands for itself. -/
theorem solution_of_size_le {v : TyVar} (h : T.size ≤ v) : T.solution v = .var v := by
  unfold solution
  cases hresolve : T.resolve (.var v) with
  | error f => rfl
  | ok u =>
    have hlt := covers_of_resolve hresolve v (Ty.mem_occurrences_var.2 rfl)
    exact absurd hlt (Nat.not_lt.2 h)

/-- Resolution is substitution of the solution. -/
theorem resolve_eq (hT : T.WellFormed) {t : Ty} (ht : T.Covers t) :
    T.resolve t = .ok (t.subst T.solution) := by
  obtain ⟨u, hu⟩ := exists_resolve hT ht
  obtain ⟨s, hs, rfl⟩ := resolveWithin_eq_ok_iff.1 hu
  rw [hu]
  refine congrArg Except.ok (Ty.subst_congr fun v hv => ?_)
  refine (solution_of_resolve (resolveWithin_eq_ok_iff.2 ⟨s, fun w hw => ?_, ?_⟩)).symm
  · obtain rfl := Ty.mem_occurrences_var.1 hw
    exact hs w hv
  · rw [Ty.subst_var]

theorem solution_free {v r : TyVar} (h : T.classOf v = .ok (r, none)) :
    T.solution v = .var r := by
  refine solution_of_resolve (resolveWithin_eq_ok_iff.2 ⟨fun _ => .var r, fun w hw => ?_, ?_⟩)
  · obtain rfl := Ty.mem_occurrences_var.1 hw
    rw [follow_free h]
  · rw [Ty.subst_var]

theorem solution_bound (hT : T.WellFormed) {v r : TyVar} {t : Ty}
    (h : T.classOf v = .ok (r, some t)) : T.solution v = t.subst T.solution := by
  have hv : T.Covers (.var v) := covers_var.2 (lt_size_of_classOf h)
  obtain ⟨u, hu⟩ := exists_resolve hT hv
  obtain ⟨n, hn⟩ : ∃ n, T.size = n + 1 := ⟨T.size - 1, by
    have hlt := lt_size_of_classOf h
    exact (Nat.succ_pred_eq_of_pos (Nat.lt_of_le_of_lt (Nat.zero_le v) hlt)).symm⟩
  have hdeeper : T.resolveWithin n t = .ok u := by
    have hwalk := hu
    unfold resolve at hwalk
    rw [hn, resolveWithin, Ty.fill, follow_bound h] at hwalk
    exact hwalk
  have hresolve : T.resolve t = .ok u := resolveWithin_mono (by omega) hdeeper
  rw [resolve_eq hT (hT.covered h)] at hresolve
  rw [solution_of_resolve hu]
  exact (Except.ok.inj hresolve).symm

theorem solves_solution (hT : T.WellFormed) : T.Solves T.solution := by
  refine ⟨?_, fun h => solution_bound hT h⟩
  intro v w hvw
  obtain ⟨r, b, hv, hw⟩ := hvw
  cases b with
  | none => rw [solution_free hv, solution_free hw]
  | some t => rw [solution_bound hT hv, solution_bound hT hw]

/-- Instances of a solution are solutions. -/
theorem Solves.subst {s : Assignment} (hs : T.Solves s) (s' : Assignment) :
    T.Solves fun v => (s v).subst s' := by
  refine ⟨fun hvw => by rw [hs.same hvw], fun hv => ?_⟩
  rw [hs.bound hv, Ty.subst_subst]

/-- To prove something of all created unknowns, prove it of the free ones, and of
a bound one from the unknowns of its binding. -/
theorem unknown_induct (hT : T.WellFormed) {motive : TyVar → Prop}
    (free : ∀ v r, T.classOf v = .ok (r, none) → motive v)
    (bound : ∀ v r t, T.classOf v = .ok (r, some t) → (∀ w ∈ t.occurrences, motive w) → motive v)
    (v : TyVar) (hv : v < T.size) : motive v := by
  obtain ⟨level, hl⟩ := exists_isLevel hT
  induction hlevel : level v using Nat.strongRecOn generalizing v with
  | ind n ih =>
    obtain ⟨r, b, hclass⟩ := hT.created v hv
    cases b with
    | none => exact free v r hclass
    | some t =>
      refine bound v r t hclass fun w hw => ?_
      have hdown := hl.down hclass w hw
      exact ih (level w) (by omega) w (hT.covered hclass w hw) rfl

/-- Every solution is an instance of the most general one. -/
theorem subst_solution (hT : T.WellFormed) {s : Assignment} (hs : T.Solves s) (v : TyVar)
    (hv : v < T.size) : (T.solution v).subst s = s v := by
  refine unknown_induct hT (motive := fun v => (T.solution v).subst s = s v) ?_ ?_ v hv
  · intro v r hclass
    rw [solution_free hclass, Ty.subst_var, hs.root hT hclass]
  · intro v r t hclass ih
    rw [solution_bound hT hclass, Ty.subst_subst, hs.bound hclass]
    exact Ty.subst_congr ih

/-- Resolved types are not resolved any further. -/
theorem resolve_resolve (hT : T.WellFormed) {t u w : Ty} (hu : T.resolve t = .ok u)
    (hw : T.resolve u = .ok w) : w = u := by
  have hcovers := covers_of_resolve hu
  rw [resolve_eq hT hcovers] at hu
  obtain rfl := Except.ok.inj hu
  rw [resolve_eq hT (covers_of_resolve hw), Ty.subst_subst] at hw
  rw [← Except.ok.inj hw]
  exact Ty.subst_congr fun v hv => subst_solution hT (solves_solution hT) v (hcovers v hv)

/-- Only representatives of free classes are left in a resolved type. -/
theorem free_of_mem_solution (hT : T.WellFormed) {v w : TyVar} (hv : v < T.size)
    (hw : w ∈ (T.solution v).occurrences) : T.classOf w = .ok (w, none) := by
  refine unknown_induct hT (motive := fun v => w ∈ (T.solution v).occurrences →
    T.classOf w = .ok (w, none)) ?_ ?_ v hv hw
  · intro v r hclass hw
    rw [solution_free hclass] at hw
    obtain rfl := Ty.mem_occurrences_var.1 hw
    exact hT.rooted hclass
  · intro v r t hclass ih hw
    rw [solution_bound hT hclass] at hw
    obtain ⟨u, hu, hwu⟩ := Ty.mem_occurrences_subst.1 hw
    exact ih u hu hwu

/-! ## Equality as far as the table knows -/

/-- The two types are resolved to the same type. -/
def Agree (T : Table) (a b : Ty) : Prop :=
  T.equiv a b = .ok true

instance (T : Table) (a b : Ty) : Decidable (T.Agree a b) :=
  inferInstanceAs (Decidable (T.equiv a b = .ok true))

theorem agree_iff_resolve {a b : Ty} :
    T.Agree a b ↔ ∃ t, T.resolve a = .ok t ∧ T.resolve b = .ok t := by
  unfold Agree equiv
  cases ha : T.resolve a with
  | error f => simp [Bind.bind, Except.bind]
  | ok u =>
    cases hb : T.resolve b with
    | error f => simp [Bind.bind, Except.bind]
    | ok u' => simp [Bind.bind, Except.bind, Pure.pure, Except.pure, eq_comm]

theorem Agree.symm {a b : Ty} (h : T.Agree a b) : T.Agree b a := by
  obtain ⟨t, ha, hb⟩ := agree_iff_resolve.1 h
  exact agree_iff_resolve.2 ⟨t, hb, ha⟩

theorem agree_self (hT : T.WellFormed) {a : Ty} (ha : T.Covers a) : T.Agree a a := by
  obtain ⟨t, ht⟩ := exists_resolve hT ha
  exact agree_iff_resolve.2 ⟨t, ht, ht⟩

/-- Two types agree exactly if every solution makes them equal. -/
theorem agree_iff (hT : T.WellFormed) {a b : Ty} :
    T.Agree a b ↔ T.Covers a ∧ T.Covers b ∧ ∀ s, T.Solves s → a.subst s = b.subst s := by
  rw [agree_iff_resolve]
  constructor
  · intro h
    obtain ⟨t, ha, hb⟩ := h
    have hca := covers_of_resolve ha
    have hcb := covers_of_resolve hb
    refine ⟨hca, hcb, fun s hs => ?_⟩
    rw [resolve_eq hT hca] at ha
    rw [resolve_eq hT hcb, ← ha] at hb
    calc a.subst s = (a.subst T.solution).subst s := by
          rw [Ty.subst_subst]
          exact Ty.subst_congr fun v hv => (subst_solution hT hs v (hca v hv)).symm
      _ = (b.subst T.solution).subst s := by rw [Except.ok.inj hb]
      _ = b.subst s := by
          rw [Ty.subst_subst]
          exact Ty.subst_congr fun v hv => subst_solution hT hs v (hcb v hv)
  · intro h
    obtain ⟨hca, hcb, heq⟩ := h
    refine ⟨a.subst T.solution, resolve_eq hT hca, ?_⟩
    rw [resolve_eq hT hcb, heq T.solution (solves_solution hT)]

/-- Functions agree if their arguments and results do. -/
theorem agree_curried (hT : T.WellFormed) {as bs : List Ty} {a b : Ty}
    (hargs : List.Forall₂ T.Agree as bs) (hab : T.Agree a b) :
    T.Agree (Ty.curried as a) (Ty.curried bs b) := by
  have hlists : (∀ u ∈ as, T.Covers u) ∧ (∀ u ∈ bs, T.Covers u) ∧
      ∀ s, T.Solves s → as.map (Ty.subst s) = bs.map (Ty.subst s) := by
    induction hargs with
    | nil => simp
    | cons h _ ih =>
      obtain ⟨hleft, hright, heq⟩ := (agree_iff hT).1 h
      obtain ⟨ihleft, ihright, iheq⟩ := ih
      refine ⟨List.forall_mem_cons.2 ⟨hleft, ihleft⟩, List.forall_mem_cons.2 ⟨hright, ihright⟩, ?_⟩
      intro s hs
      rw [List.map_cons, List.map_cons, heq s hs, iheq s hs]
  obtain ⟨hleft, hright, heq⟩ := (agree_iff hT).1 hab
  refine (agree_iff hT).2 ⟨covers_curried.2 ⟨hlists.1, hleft⟩,
    covers_curried.2 ⟨hlists.2.1, hright⟩, fun s hs => ?_⟩
  rw [Ty.subst_curried, Ty.subst_curried, hlists.2.2 s hs, heq s hs]

/-! ## The occurs check -/

theorem occurs_eq {v root : TyVar} {b : Option Ty} (hroot : T.classOf v = .ok (root, b)) (t : Ty) :
    T.occurs v t = T.occursWithin root T.size t := by
  unfold occurs
  rw [hroot]
  rfl

theorem exists_occursWithin (hT : T.WellFormed) {level : TyVar → Nat} (hl : T.IsLevel level)
    (root : TyVar) {n : Nat} {t : Ty} (ht : T.Covers t) (hn : ∀ v ∈ t.occurrences, level v < n) :
    ∃ b, T.occursWithin root n t = .ok b := by
  induction n generalizing t with
  | zero => exact Ty.anyVar_of_ok fun v hv => absurd (hn v hv) (Nat.not_lt_zero _)
  | succ n ih =>
    refine Ty.anyVar_of_ok fun v hv => exists_follow hT (ht v hv) (fun r => ⟨_, rfl⟩) ?_
    intro r t' hclass
    refine ih (hT.covered hclass) fun w hw => ?_
    have hdown := hl.down hclass w hw
    have hlt := hn v hv
    omega

theorem exists_occurs (hT : T.WellFormed) {v : TyVar} (hv : v < T.size) {t : Ty}
    (ht : T.Covers t) : ∃ b, T.occurs v t = .ok b := by
  obtain ⟨level, hl⟩ := exists_isLevel hT
  obtain ⟨root, b, hroot⟩ := hT.created v hv
  rw [occurs_eq hroot]
  exact exists_occursWithin hT hl root ht fun w hw => hl.lt_size w (ht w hw)

/-- The walk has found the class at an unknown: as its own class, or in what the
unknown is bound to. -/
private theorem mem_solution_of_walk (hT : T.WellFormed) {root : TyVar}
    {bound : Ty → Except Fault Bool}
    (hbound : ∀ t, bound t = .ok true → root ∈ (t.subst T.solution).occurrences) {t : Ty}
    (h : Ty.anyVar (T.follow (fun r => .ok (r == root)) bound) t = .ok true) :
    root ∈ (t.subst T.solution).occurrences := by
  obtain ⟨v, hv, htest⟩ := Ty.exists_of_anyVar h
  refine Ty.mem_occurrences_subst.2 ⟨v, hv, ?_⟩
  obtain ⟨r, b, hclass⟩ := exists_classOf_of_follow htest
  cases b with
  | none =>
    rw [follow_free hclass] at htest
    have hr : r = root := by simpa using htest
    rw [solution_free hclass, hr]
    simp
  | some t' =>
    rw [follow_bound hclass] at htest
    rw [solution_bound hT hclass]
    exact hbound t' htest

private theorem not_mem_solution_of_walk (hT : T.WellFormed) {root : TyVar}
    {bound : Ty → Except Fault Bool}
    (hbound : ∀ t, bound t = .ok false → root ∉ (t.subst T.solution).occurrences) {t : Ty}
    (h : Ty.anyVar (T.follow (fun r => .ok (r == root)) bound) t = .ok false) :
    root ∉ (t.subst T.solution).occurrences := by
  intro hmem
  obtain ⟨v, hv, hroot⟩ := Ty.mem_occurrences_subst.1 hmem
  have htest := Ty.all_of_anyVar h v hv
  obtain ⟨r, b, hclass⟩ := exists_classOf_of_follow htest
  cases b with
  | none =>
    rw [follow_free hclass] at htest
    rw [solution_free hclass] at hroot
    obtain rfl := Ty.mem_occurrences_var.1 hroot
    simp at htest
  | some t' =>
    rw [follow_bound hclass] at htest
    rw [solution_bound hT hclass] at hroot
    exact hbound t' htest hroot

/-- If the check finds the class, it is left in the resolved type. -/
theorem mem_solution_of_occurs (hT : T.WellFormed) {v root : TyVar} {b : Option Ty}
    (hroot : T.classOf v = .ok (root, b)) {t : Ty} (h : T.occurs v t = .ok true) :
    root ∈ (t.subst T.solution).occurrences := by
  rw [occurs_eq hroot] at h
  generalize T.size = n at h
  induction n generalizing t with
  | zero =>
    refine mem_solution_of_walk hT (fun t ht => ?_) h
    cases ht
  | succ n ih => exact mem_solution_of_walk hT (fun t ht => ih ht) h

/-- If the check does not find the class, it has seen all of the type, and the
class is not left in the resolved type. -/
theorem not_mem_solution_of_occurs (hT : T.WellFormed) {v root : TyVar} {b : Option Ty}
    (hroot : T.classOf v = .ok (root, b)) {t : Ty} (h : T.occurs v t = .ok false) :
    root ∉ (t.subst T.solution).occurrences := by
  rw [occurs_eq hroot] at h
  generalize T.size = n at h
  induction n generalizing t with
  | zero =>
    refine not_mem_solution_of_walk hT (fun t ht => ?_) h
    cases ht
  | succ n ih => exact not_mem_solution_of_walk hT (fun t ht => ih ht) h

/-- A check that finds nothing has asked for the class of every unknown. -/
theorem covers_of_occurs {v : TyVar} {t : Ty} (h : T.occurs v t = .ok false) : T.Covers t := by
  obtain ⟨root, b, hroot⟩ : ∃ root b, T.classOf v = .ok (root, b) := by
    unfold occurs at h
    cases hclass : T.classOf v with
    | error f =>
      rw [hclass] at h
      cases h
    | ok c => exact ⟨c.1, c.2, rfl⟩
  rw [occurs_eq hroot] at h
  intro w hw
  have hwalk : ∃ bound b, T.follow (fun r => .ok (r == root)) bound w = .ok b := by
    generalize T.size = n at h
    cases n with
    | zero => exact ⟨_, _, Ty.all_of_anyVar h w hw⟩
    | succ n => exact ⟨_, _, Ty.all_of_anyVar h w hw⟩
  obtain ⟨_, _, hwalk⟩ := hwalk
  obtain ⟨r, b, hclass⟩ := exists_classOf_of_follow hwalk
  exact lt_size_of_classOf hclass

/-! ## Changes of a table -/

/-- The changes that calls of the library make to a table: a new unknown, two
free classes joined, and a free class bound to an application in which it does
not occur. -/
inductive Step (T : Table) : Table → Prop
  | fresh : Step T T.fresh.2
  | merge {v w a b : TyVar} (hv : T.classOf v = .ok (a, none)) (hw : T.classOf w = .ok (b, none))
      (hne : a ≠ b) : Step T (T.merge a b)
  | bind {v root : TyVar} {name : String} {args : List Ty} (hv : T.classOf v = .ok (root, none))
      (hocc : T.occurs root (.con name args) = .ok false) : Step T (T.bind root (.con name args))

/-- Any number of changes. -/
abbrev Steps : Table → Table → Prop :=
  Relation.ReflTransGen Step

variable {T' : Table}

theorem Step.size_le (h : T.Step T') : T.size ≤ T'.size := by
  cases h with
  | fresh => simp
  | merge => simp
  | bind => simp

/-- A change never frees an assignment from what it had to respect. -/
theorem Step.solves (h : T.Step T') (hT : T.WellFormed) {s : Assignment} (hs : T'.Solves s) :
    T.Solves s := by
  cases h with
  | fresh => exact (solves_fresh hT).1 hs
  | merge hv hw _ => exact ((solves_merge hT (hT.rooted hv) (hT.rooted hw)).1 hs).1
  | bind hv _ => exact ((solves_bind hT (hT.rooted hv)).1 hs).1

theorem wellFormed_fresh (hT : T.WellFormed) : T.fresh.2.WellFormed := by
  have hclass : ∀ {v r b}, T.fresh.2.classOf v = .ok (r, b) ↔
      T.classOf v = .ok (r, b) ∨ v = T.size ∧ r = T.size ∧ b = none :=
    fun {_ _ _} => classOf_fresh hT.created
  constructor
  · intro v hv
    rw [size_fresh] at hv
    rcases Nat.lt_succ_iff_lt_or_eq.1 hv with hlt | heq
    · obtain ⟨r, b, h⟩ := hT.created v hlt
      exact ⟨r, b, hclass.2 (Or.inl h)⟩
    · exact ⟨T.size, none, hclass.2 (Or.inr ⟨heq, rfl, rfl⟩)⟩
  · intro v r b h
    rcases hclass.1 h with h | ⟨_, rfl, rfl⟩
    · exact hclass.2 (Or.inl (hT.rooted h))
    · exact hclass.2 (Or.inr ⟨rfl, rfl, rfl⟩)
  · intro v r t h
    rcases hclass.1 h with h | ⟨_, _, h⟩
    · exact hT.named h
    · cases h
  · intro v r t h
    rcases hclass.1 h with h | ⟨_, _, h⟩
    · exact (hT.covered h).mono (by simp)
    · cases h
  · obtain ⟨s, hs⟩ := hT.solvable
    exact ⟨s, (solves_fresh hT).2 hs⟩

theorem wellFormed_merge (hT : T.WellFormed) {a b : TyVar} (ha : T.classOf a = .ok (a, none))
    (hb : T.classOf b = .ok (b, none)) : (T.merge a b).WellFormed := by
  obtain ⟨child, parent, hends, hclass⟩ := classOf_merge ha hb
  have hparent : T.classOf parent = .ok (parent, none) := by
    rcases hends with ⟨_, rfl⟩ | ⟨_, rfl⟩
    · exact hb
    · exact ha
  have hchild : T.classOf child = .ok (child, none) := by
    rcases hends with ⟨rfl, _⟩ | ⟨rfl, _⟩
    · exact ha
    · exact hb
  constructor
  · intro v hv
    rw [size_merge] at hv
    obtain ⟨q, c, h⟩ := hT.created v hv
    exact ⟨_, c, (hclass _ _ _).2 ⟨q, h, rfl⟩⟩
  · intro v r c h
    obtain ⟨q, hq, rfl⟩ := (hclass _ _ _).1 h
    refine (hclass _ _ _).2 ?_
    by_cases hmoved : q = child
    · subst hmoved
      -- The class that moved was free, as the one it moved to.
      have hfree : c = none := by
        have hroot := hT.rooted hq
        rw [hchild] at hroot
        cases hroot
        rfl
      subst hfree
      exact ⟨parent, by simpa using hparent, by simp⟩
    · exact ⟨q, by simpa [hmoved] using hT.rooted hq, by simp [hmoved]⟩
  · intro v r t h
    obtain ⟨q, hq, _⟩ := (hclass _ _ _).1 h
    exact hT.named hq
  · intro v r t h
    obtain ⟨q, hq, _⟩ := (hclass _ _ _).1 h
    exact (hT.covered hq).mono (by simp)
  · -- The most general solution, with one of the two classes put for the other.
    refine ⟨_, (solves_merge hT ha hb).2
      ⟨(solves_solution hT).subst fun w => if w = a then .var b else .var w, ?_⟩⟩
    simp [solution_free ha, solution_free hb]

theorem wellFormed_bind (hT : T.WellFormed) {root : TyVar} {name : String} {args : List Ty}
    (hroot : T.classOf root = .ok (root, none))
    (hocc : T.occurs root (.con name args) = .ok false) :
    (T.bind root (.con name args)).WellFormed := by
  constructor
  · intro v hv
    rw [size_bind] at hv
    obtain ⟨r, c, h⟩ := hT.created v hv
    exact ⟨r, _, classOf_bind.2 ⟨c, h, rfl⟩⟩
  · intro v r b h
    obtain ⟨c, hv, rfl⟩ := classOf_bind.1 h
    exact classOf_bind.2 ⟨c, hT.rooted hv, rfl⟩
  · intro v r t h
    obtain ⟨c, hv, ht⟩ := classOf_bind.1 h
    split at ht
    · exact ⟨name, args, Option.some.inj ht⟩
    · subst ht
      exact hT.named hv
  · intro v r t h
    obtain ⟨c, hv, ht⟩ := classOf_bind.1 h
    split at ht
    · obtain rfl := Option.some.inj ht
      exact (covers_of_occurs hocc).mono (by simp)
    · subst ht
      exact (hT.covered hv).mono (by simp)
  · -- The most general solution, with the resolved application put for the class.
    have hfree := not_mem_solution_of_occurs hT hroot hocc
    let u : Ty := (Ty.con name args).subst T.solution
    refine ⟨_, (solves_bind hT hroot).2
      ⟨(solves_solution hT).subst fun w => if w = root then u else .var w, ?_⟩⟩
    simp only [solution_free hroot, Ty.subst_var, if_pos]
    rw [← Ty.subst_subst]
    refine (Ty.subst_eq_self fun v hv => if_neg ?_).symm
    intro heq
    subst heq
    exact hfree hv

theorem Step.wellFormed (h : T.Step T') (hT : T.WellFormed) : T'.WellFormed := by
  cases h with
  | fresh => exact wellFormed_fresh hT
  | merge hv hw _ => exact wellFormed_merge hT (hT.rooted hv) (hT.rooted hw)
  | bind hv hocc => exact wellFormed_bind hT (hT.rooted hv) hocc

/-! ## Runs of changes -/

namespace Steps

theorem wellFormed (h : T.Steps T') (hT : T.WellFormed) : T'.WellFormed := by
  induction h with
  | refl => exact hT
  | tail _ hstep ih => exact hstep.wellFormed ih

theorem size_le (h : T.Steps T') : T.size ≤ T'.size := by
  induction h with
  | refl => exact Nat.le_refl _
  | tail _ hstep ih => exact Nat.le_trans ih hstep.size_le

theorem solves (h : T.Steps T') (hT : T.WellFormed) {s : Assignment} (hs : T'.Solves s) :
    T.Solves s := by
  induction h with
  | refl => exact hs
  | tail hsteps hstep ih => exact ih (hstep.solves (wellFormed hsteps hT) hs)

/-- Types that agree go on to agree. -/
theorem agree (h : T.Steps T') (hT : T.WellFormed) {a b : Ty} (hab : T.Agree a b) :
    T'.Agree a b := by
  obtain ⟨ha, hb, heq⟩ := (agree_iff hT).1 hab
  refine (agree_iff (wellFormed h hT)).2 ⟨ha.mono h.size_le, hb.mono h.size_le, fun s hs => ?_⟩
  exact heq s (h.solves hT hs)

end Steps

end TypeLayer.Table
