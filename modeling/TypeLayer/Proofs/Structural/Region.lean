import Mathlib.Data.Set.Basic
import TypeLayer.Proofs.Structural.Fresh

/-!
# Regions of a table

A region is a set of unknowns that is closed under the classes of the table and
under the bindings of its own unknowns.  What the table says about a type over a
region depends on the region alone.

`Confined T₀ Z T` says that the table has changed from `T₀` to `T` inside `Z` only:
`Z` is a region of `T`, and the classes of all other unknowns are as they were.
Unification of types over `Z` is confined to `Z` (`keeps_unify_confined`).  A region
disjoint from `Z` is not touched: it is a region still, and types over it are
resolved as before (`Confined.resolve_eq`).
-/

namespace TypeLayer

open TypeLayer.Action

/-- All unknowns of the type are in the set. -/
def Ty.Over (Z : Set TyVar) (t : Ty) : Prop :=
  ∀ v ∈ t.occurrences, v ∈ Z

namespace Ty

variable {Z : Set TyVar}

theorem over_var {v : TyVar} : (Ty.var v).Over Z ↔ v ∈ Z := by
  simp [Over]

theorem over_con {name : String} {args : List Ty} :
    (Ty.con name args).Over Z ↔ ∀ a ∈ args, a.Over Z := by
  simp only [Over, mem_occurrences_con]
  constructor
  · intro h a ha v hv
    exact h v ⟨a, ha, hv⟩
  · intro h v hv
    obtain ⟨a, ha, hv⟩ := hv
    exact h a ha v hv

theorem over_nullary (name : String) : (Ty.con name []).Over Z := by
  simp [over_con]

theorem over_curried {ts : List Ty} {t : Ty} (hts : ∀ u ∈ ts, u.Over Z) (ht : t.Over Z) :
    (Ty.curried ts t).Over Z := by
  intro v hv
  rcases mem_occurrences_curried.1 hv with ⟨u, hu, hv⟩ | hv
  · exact hts u hu v hv
  · exact ht v hv

end Ty

namespace Table

/-- The set is closed under classes, and under the bindings of its unknowns. -/
structure Region (T : Table) (Z : Set TyVar) : Prop where
  root : ∀ {v r b}, T.classOf v = .ok (r, b) → (r ∈ Z ↔ v ∈ Z)
  bound : ∀ {v r t}, T.classOf v = .ok (r, some t) → v ∈ Z → t.Over Z

/-- The table has changed from `T₀` to `T` inside the set only. -/
structure Confined (T₀ : Table) (Z : Set TyVar) (T : Table) : Prop where
  wellFormed : T.WellFormed
  size_le : T₀.size ≤ T.size
  region : T.Region Z
  outside : ∀ {v r b}, v ∉ Z → (T.classOf v = .ok (r, b) ↔ T₀.classOf v = .ok (r, b))

variable {T₀ T T' : Table} {Z R : Set TyVar}

theorem Region.confined (h : T.Region Z) (hT : T.WellFormed) : T.Confined Z T :=
  ⟨hT, Nat.le_refl _, h, fun _ => Iff.rfl⟩

theorem Region.sameClass (h : T.Region Z) {v w : TyVar} (hvw : T.SameClass v w) :
    v ∈ Z ↔ w ∈ Z := by
  obtain ⟨r, b, hv, hw⟩ := hvw
  exact (h.root hv).symm.trans (h.root hw)

/-- The type that an unknown of a region is resolved to is over the region. -/
theorem Region.over_solution (h : T.Region Z) (hT : T.WellFormed) {v : TyVar} (hv : v < T.size)
    (hmem : v ∈ Z) : (T.solution v).Over Z := by
  refine unknown_induct hT (motive := fun v => v ∈ Z → (T.solution v).Over Z) ?_ ?_ v hv hmem
  · intro v r hclass hv
    rw [solution_free hclass]
    exact Ty.over_var.2 ((h.root hclass).2 hv)
  · intro v r t hclass ih hv w hw
    rw [solution_bound hT hclass] at hw
    obtain ⟨u, hu, hwu⟩ := Ty.mem_occurrences_subst.1 hw
    exact ih u hu (h.bound hclass hv u hu) w hwu

theorem Region.over_resolve (h : T.Region Z) (hT : T.WellFormed) {t u : Ty} (ht : t.Over Z)
    (hu : T.resolve t = .ok u) : u.Over Z := by
  have hcovers := covers_of_resolve hu
  rw [resolve_eq hT hcovers] at hu
  obtain rfl := Except.ok.inj hu
  intro w hw
  obtain ⟨v, hv, hw⟩ := Ty.mem_occurrences_subst.1 hw
  exact h.over_solution hT (hcovers v hv) (ht v hv) w hw

/-! ## Changes inside a set -/

namespace Confined

theorem grow (h : T₀.Confined Z T) (hnew : ∀ v, T₀.size ≤ v → v ∈ Z) (n : Nat) :
    T₀.Confined Z (T.grow n) := by
  have hevolved := evolved_grow h.wellFormed n
  have hsum : ∀ i, T.size + i ∈ Z := fun i =>
    hnew _ (Nat.le_trans h.size_le (Nat.le_add_right _ _))
  refine ⟨hevolved.wellFormed, Nat.le_trans h.size_le hevolved.steps.size_le, ⟨?_, ?_⟩, ?_⟩
  · intro v r b hclass
    rcases (classOf_grow h.wellFormed).1 hclass with hold | ⟨i, _, rfl, rfl, _⟩
    · exact h.region.root hold
    · exact Iff.rfl
  · intro v r t hclass hv
    rcases (classOf_grow h.wellFormed).1 hclass with hold | ⟨i, _, _, _, hnone⟩
    · exact h.region.bound hold hv
    · cases hnone
  · intro v r b hv
    rw [← h.outside hv, classOf_grow h.wellFormed]
    refine ⟨fun hclass => hclass.resolve_right ?_, Or.inl⟩
    rintro ⟨i, _, rfl, _⟩
    exact hv (hsum i)

theorem merge (h : T₀.Confined Z T) {a b : TyVar} (ha : T.classOf a = .ok (a, none))
    (hb : T.classOf b = .ok (b, none)) (haZ : a ∈ Z) (hbZ : b ∈ Z) :
    T₀.Confined Z (T.merge a b) := by
  obtain ⟨child, parent, hends, hclass⟩ := classOf_merge ha hb
  have hchild : child ∈ Z := by rcases hends with ⟨rfl, _⟩ | ⟨rfl, _⟩ <;> assumption
  have hparent : parent ∈ Z := by rcases hends with ⟨_, rfl⟩ | ⟨_, rfl⟩ <;> assumption
  refine ⟨wellFormed_merge h.wellFormed ha hb, by simpa using h.size_le, ⟨?_, ?_⟩, ?_⟩
  · intro v r c hv
    obtain ⟨q, hq, rfl⟩ := (hclass v r c).1 hv
    rw [← h.region.root hq]
    by_cases hmoved : q = child
    · rw [if_pos hmoved, hmoved]
      exact iff_of_true hparent hchild
    · rw [if_neg hmoved]
  · intro v r t hv hmem
    obtain ⟨q, hq, _⟩ := (hclass v r (some t)).1 hv
    exact h.region.bound hq hmem
  · intro v r c hv
    rw [← h.outside hv, hclass]
    -- The representative is outside the set as well, so that it is not the one that moved.
    have hstays : ∀ q, T.classOf v = .ok (q, c) → q ≠ child := by
      intro q hq heq
      rw [heq] at hq
      exact hv ((h.region.root hq).1 hchild)
    constructor
    · rintro ⟨q, hq, rfl⟩
      rw [if_neg (hstays q hq)]
      exact hq
    · intro hr
      exact ⟨r, hr, (if_neg (hstays r hr)).symm⟩

theorem bind (h : T₀.Confined Z T) {root : TyVar} {name : String} {args : List Ty}
    (hroot : T.classOf root = .ok (root, none))
    (hocc : T.occurs root (.con name args) = .ok false) (hrootZ : root ∈ Z)
    (ht : (Ty.con name args).Over Z) : T₀.Confined Z (T.bind root (.con name args)) := by
  refine ⟨wellFormed_bind h.wellFormed hroot hocc, by simpa using h.size_le, ⟨?_, ?_⟩, ?_⟩
  · intro v r b hv
    obtain ⟨c, hc, _⟩ := classOf_bind.1 hv
    exact h.region.root hc
  · intro v r t hv hmem
    obtain ⟨c, hc, hbound⟩ := classOf_bind.1 hv
    split at hbound
    · obtain rfl := Option.some.inj hbound
      exact ht
    · rw [← hbound] at hc
      exact h.region.bound hc hmem
  · intro v r b hv
    rw [← h.outside hv, classOf_bind]
    have hother : ∀ {c}, T.classOf v = .ok (r, c) → r ≠ root := by
      intro c hc heq
      rw [heq] at hc
      exact hv ((h.region.root hc).1 hrootZ)
    constructor
    · rintro ⟨c, hc, rfl⟩
      rw [if_neg (hother hc)]
      exact hc
    · intro hc
      exact ⟨b, hc, (if_neg (hother hc)).symm⟩

/-! ## What is not touched -/

/-- A region disjoint from the set is a region still. -/
theorem region_of_disjoint (h : T.Confined Z T') (hR : T.Region R)
    (hdisjoint : ∀ v ∈ R, v ∉ Z) : T'.Region R := by
  constructor
  · intro v r b hclass
    by_cases hv : v ∈ Z
    · have hr := (h.region.root hclass).2 hv
      exact iff_of_false (fun hrR => hdisjoint r hrR hr) (fun hvR => hdisjoint v hvR hv)
    · exact hR.root ((h.outside hv).1 hclass)
  · intro v r t hclass hv
    exact hR.bound ((h.outside (hdisjoint v hv)).1 hclass) hv

theorem solution_eq (h : T.Confined Z T') (hT : T.WellFormed) (hR : T.Region R)
    (hdisjoint : ∀ v ∈ R, v ∉ Z) {v : TyVar} (hv : v < T.size) (hmem : v ∈ R) :
    T'.solution v = T.solution v := by
  refine unknown_induct hT (motive := fun v => v ∈ R → T'.solution v = T.solution v) ?_ ?_ v hv hmem
  · intro v r hclass hv
    rw [solution_free hclass, solution_free ((h.outside (hdisjoint v hv)).2 hclass)]
  · intro v r t hclass ih hv
    rw [solution_bound hT hclass,
      solution_bound h.wellFormed ((h.outside (hdisjoint v hv)).2 hclass)]
    exact Ty.subst_congr fun w hw => ih w hw (hR.bound hclass hv w hw)

/-- Types over a region that is not touched are resolved as before. -/
theorem resolve_eq (h : T.Confined Z T') (hT : T.WellFormed) (hR : T.Region R)
    (hdisjoint : ∀ v ∈ R, v ∉ Z) {t : Ty} (ht : T.Covers t) (hover : t.Over R) :
    T'.resolve t = T.resolve t := by
  rw [Table.resolve_eq h.wellFormed (ht.mono h.size_le), Table.resolve_eq hT ht]
  exact congrArg _ (Ty.subst_congr fun v hv => h.solution_eq hT hR hdisjoint (ht v hv) (hover v hv))

end Confined

/-! ## Unification -/

theorem Region.over_find (h : T.Region Z) {b b' : Ty} (hb : b.Over Z) (hfind : T.find b = .ok b') :
    b'.Over Z := by
  cases b with
  | con name args =>
    rw [find] at hfind
    obtain rfl := Except.ok.inj hfind
    exact hb
  | var v =>
    have hv := Ty.over_var.1 hb
    rw [find] at hfind
    split at hfind
    · cases hfind
    · rename_i root hclass
      obtain rfl := Except.ok.inj hfind
      exact Ty.over_var.2 ((h.root hclass).2 hv)
    · rename_i root t hclass
      obtain rfl := Except.ok.inj hfind
      exact h.bound hclass hv

variable {origin : Origin}

theorem assign_confined (h : T₀.Confined Z T) {root : TyVar} {t : Ty}
    (hroot : T.classOf root = .ok (root, none)) (hrootZ : root ∈ Z)
    (ht : ∀ v, t = .var v → T.classOf v = .ok (v, none)) (hover : t.Over Z) :
    (assign root t origin T).Meets (fun _ => T₀.Confined Z) (fun _ => T₀.Confined Z) := by
  cases t with
  | var other =>
    rw [assign]
    split
    · exact h
    · exact h.merge hroot (ht other rfl) hrootZ (Ty.over_var.1 hover)
  | con name args =>
    rw [assign]
    refine meets_read_bind fun found hocc => ?_
    cases found with
    | true => exact meets_read_bind fun _ _ => h
    | false => exact h.bind hroot hocc hrootZ hover

section
variable {deeper : Ty → Ty → Solve Unit}

theorem keeps_unifyAllVia_confined {as bs : List Ty}
    (hargs : ∀ a ∈ as, ∀ b, b.Over Z → Keeps (T₀.Confined Z) (unifyVia deeper origin a b))
    (hbs : ∀ b ∈ bs, b.Over Z) : Keeps (T₀.Confined Z) (unifyAllVia deeper origin as bs) := by
  induction as generalizing bs with
  | nil =>
    rw [unifyAllVia]
    · exact keeps_pure _
    · intro a as b bs h
      cases h
  | cons a as ih =>
    cases bs with
    | nil =>
      rw [unifyAllVia]
      · exact keeps_pure _
      · intro a as b bs _ h
        cases h
    | cons b bs =>
      obtain ⟨hb, hbs⟩ := List.forall_mem_cons.1 hbs
      obtain ⟨ha, hargs⟩ := List.forall_mem_cons.1 hargs
      rw [unifyAllVia]
      exact (ha b hb).bind fun _ => ih hargs hbs

theorem keeps_unifyVia_confined
    (hdeeper : ∀ a b, a.Over Z → b.Over Z → Keeps (T₀.Confined Z) (deeper a b)) {a b : Ty}
    (ha : a.Over Z) (hb : b.Over Z) : Keeps (T₀.Confined Z) (unifyVia deeper origin a b) := by
  induction a using Ty.induction_on generalizing b with
  | var v =>
    intro T hT
    have hv := Ty.over_var.1 ha
    rw [unifyVia]
    refine meets_read_bind fun c hclass => ?_
    obtain ⟨root, t | t⟩ := c
    · refine meets_read_bind fun b' hfind => ?_
      exact assign_confined hT (hT.wellFormed.rooted hclass) ((hT.region.root hclass).2 hv)
        (find_spec hT.wellFormed hfind).2.2 (hT.region.over_find hb hfind)
    · exact hdeeper t b (hT.region.bound hclass hv) hb T hT
  | con name args ih =>
    intro T hT
    rw [unifyVia]
    refine meets_read_bind fun b' hfind => ?_
    have hb' := hT.region.over_find hb hfind
    cases b' with
    | var root =>
      have hroot := (find_spec hT.wellFormed hfind).2.2 root rfl
      refine assign_confined hT hroot (Ty.over_var.1 hb') ?_ ha
      intro v h
      cases h
    | con name' args' =>
      simp only
      split
      · refine keeps_unifyAllVia_confined (fun a ha' b hb => ?_) (Ty.over_con.1 hb') T hT
        exact ih a ha' (Ty.over_con.1 ha a ha') hb
      · exact meets_read_bind fun _ _ => meets_read_bind fun _ _ => hT

end

theorem keeps_unifyWithin_confined (n : Nat) {a b : Ty} (ha : a.Over Z) (hb : b.Over Z) :
    Keeps (T₀.Confined Z) (unifyWithin origin n a b) := by
  induction n generalizing a b with
  | zero =>
    rw [unifyWithin]
    refine keeps_unifyVia_confined ?_ ha hb
    intro a b _ _ T _
    trivial
  | succ n ih => exact keeps_unifyVia_confined (fun _ _ => ih) ha hb

theorem keeps_unify_confined {a b : Ty} (ha : a.Over Z) (hb : b.Over Z) :
    Keeps (T₀.Confined Z) (unify a b origin) :=
  fun T hT => keeps_unifyWithin_confined T.size ha hb T hT

end Table

end TypeLayer
