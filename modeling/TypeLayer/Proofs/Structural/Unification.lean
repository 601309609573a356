import TypeLayer.Proofs.Outcome
import TypeLayer.Proofs.Structural.Resolution
import TypeLayer.Structural.Unify

/-!
# Unification

What `unify` does to a well-formed table is said in terms of solutions.  Where it
succeeds, the solutions that are left are those that make the two types equal
(`Solved`); where it is refused, there were none (`Refused`).  In both cases the
table has moved by the changes of `Step` only, so that every invariant of these
holds of it.

Both statements are proved along the recursion of `unifyVia`, for any way to go
on with bindings that satisfies them, and then by induction on the bound.  That
the bound is never reached is a separate argument (`unifyWithin_returns`): the
classes whose bindings have been followed are all different, since in every
solution each of them gets a larger type than the next.  This survives the
changes that unification itself makes while it is under way, because these only
take solutions away.
-/

namespace TypeLayer.Table

open TypeLayer.Action

variable {T T' : Table} {a b : Ty} {origin : Origin}

/-- The equation has been imposed on the table, and nothing else. -/
structure Solved (T : Table) (a b : Ty) (T' : Table) : Prop where
  steps : T.Steps T'
  size_eq : T'.size = T.size
  left : T.Covers a
  right : T.Covers b
  solves_iff : ∀ s, T'.Solves s ↔ T.Solves s ∧ a.subst s = b.subst s

/-- The equation has no solution. -/
structure Refused (T : Table) (a b : Ty) (T' : Table) : Prop where
  steps : T.Steps T'
  size_eq : T'.size = T.size
  unsolvable : ∀ s, T.Solves s → a.subst s ≠ b.subst s

/-- The call solves the equation, or finds that it has no solution. -/
abbrev Decides (T : Table) (a b : Ty) (o : Outcome Table TypeError Unit) : Prop :=
  o.Meets (fun _ => T.Solved a b) (fun _ => T.Refused a b)

/-- Only the solutions of an equation count. -/
theorem Decides.congr {o : Outcome Table TypeError Unit} {a' b' : Ty} (h : T.Decides a b o)
    (hcovers : T.Covers a → T.Covers b → T.Covers a' ∧ T.Covers b')
    (heq : ∀ s, T.Solves s → (a.subst s = b.subst s ↔ a'.subst s = b'.subst s)) :
    T.Decides a' b' o := by
  refine h.mono ?_ ?_
  · intro _ T' h
    obtain ⟨ha, hb⟩ := hcovers h.left h.right
    refine ⟨h.steps, h.size_eq, ha, hb, fun s => ?_⟩
    rw [h.solves_iff s]
    exact and_congr_right (heq s)
  · intro _ T' h
    exact ⟨h.steps, h.size_eq, fun s hs heq' => h.unsolvable s hs ((heq s hs).2 heq')⟩

theorem Decides.symm {o : Outcome Table TypeError Unit} (h : T.Decides a b o) :
    T.Decides b a o :=
  h.congr (fun ha hb => ⟨hb, ha⟩) fun _ _ => eq_comm

/-- A trivial equation is solved by doing nothing. -/
theorem Solved.refl (ha : T.Covers a) : T.Solved a a T :=
  ⟨.refl, rfl, ha, ha, fun s => by simp⟩

/-- The two types of a solved equation agree. -/
theorem Solved.agree (h : T.Solved a b T') (hT : T.WellFormed) : T'.Agree a b := by
  refine (agree_iff (h.steps.wellFormed hT)).2 ⟨?_, ?_, fun s hs => ?_⟩
  · exact h.left.mono h.steps.size_le
  · exact h.right.mono h.steps.size_le
  · exact ((h.solves_iff s).1 hs).2

/-! ## Finding the outermost constructor -/

/-- What `find` gives is the same type, and is a free representative or an
application. -/
theorem find_spec (hT : T.WellFormed) (h : T.find a = .ok b) :
    (∀ s, T.Solves s → a.subst s = b.subst s) ∧ (T.Covers a ↔ T.Covers b) ∧
      ∀ v, b = .var v → T.classOf v = .ok (v, none) := by
  cases a with
  | con name args =>
    rw [find] at h
    obtain rfl := Except.ok.inj h
    exact ⟨fun _ _ => rfl, Iff.rfl, fun _ hv => nomatch hv⟩
  | var v =>
    rw [find] at h
    split at h
    · cases h
    · rename_i root hclass
      obtain rfl := Except.ok.inj h
      refine ⟨fun s hs => ?_, ?_, fun w hw => ?_⟩
      · rw [Ty.subst_var, Ty.subst_var]
        exact hs.root hT hclass
      · simp [lt_size_of_classOf hclass, root_lt_size_of_classOf hclass]
      · obtain rfl := Ty.var.inj hw
        exact hT.rooted hclass
    · rename_i root t hclass
      obtain rfl := Except.ok.inj h
      refine ⟨fun s hs => ?_, ?_, fun w hw => ?_⟩
      · rw [Ty.subst_var]
        exact hs.bound hclass
      · simp [lt_size_of_classOf hclass, hT.covered hclass]
      · obtain ⟨name, args, rfl⟩ := hT.named hclass
        cases hw

theorem exists_find (hT : T.WellFormed) (ha : T.Covers a) : ∃ b, T.find a = .ok b := by
  cases a with
  | con name args => exact ⟨_, rfl⟩
  | var v =>
    obtain ⟨r, b, hclass⟩ := hT.created v (covers_var.1 ha)
    cases b with
    | none => exact ⟨.var r, by rw [find, hclass]⟩
    | some t => exact ⟨t, by rw [find, hclass]⟩

/-! ## Assigning a type to a free class -/

/-- A class that is left in the resolved form of an application cannot be equal to
it. -/
theorem unsolvable_of_occurs (hT : T.WellFormed) {root : TyVar} {name : String} {args : List Ty}
    (hroot : T.classOf root = .ok (root, none)) (ht : T.Covers (.con name args))
    (hocc : T.occurs root (.con name args) = .ok true) (s : Assignment) (hs : T.Solves s) :
    s root ≠ (Ty.con name args).subst s := by
  intro heq
  have hmem := mem_solution_of_occurs hT hroot hocc
  rw [Ty.subst_con] at hmem
  have hlt := Ty.sizeOf_lt_subst_con (s := s) hmem
  rw [← Ty.subst_con, Ty.subst_subst,
    Ty.subst_congr fun v hv => subst_solution hT hs v (ht v hv), ← heq] at hlt
  exact Nat.lt_irrefl _ hlt

theorem assign_decides (hT : T.WellFormed) {root : TyVar} {t : Ty}
    (hroot : T.classOf root = .ok (root, none))
    (ht : ∀ v, t = .var v → T.classOf v = .ok (v, none)) :
    T.Decides (.var root) t (assign root t origin T) := by
  have hcovers : T.Covers (.var root) := covers_var.2 (lt_size_of_classOf hroot)
  cases t with
  | var other =>
    have hother := ht other rfl
    rw [assign]
    by_cases heq : other = root
    · rw [if_pos heq, heq]
      exact Solved.refl hcovers
    · rw [if_neg heq]
      refine ⟨.single (.merge hroot hother (Ne.symm heq)), by simp, hcovers,
        covers_var.2 (lt_size_of_classOf hother), fun s => ?_⟩
      rw [Ty.subst_var, Ty.subst_var]
      exact solves_merge hT hroot hother
  | con name args =>
    rw [assign]
    refine meets_read_bind fun found hocc => ?_
    cases found with
    | true =>
      refine meets_read_bind fun u hu => ?_
      refine ⟨.refl, rfl, fun s hs => ?_⟩
      rw [Ty.subst_var]
      exact unsolvable_of_occurs hT hroot (covers_of_resolve hu) hocc s hs
    | false =>
      refine ⟨.single (.bind hroot hocc), by simp, hcovers, covers_of_occurs hocc, fun s => ?_⟩
      rw [Ty.subst_var]
      exact solves_bind hT hroot

theorem refuse_decides {c d : String} {as bs : List Ty} (hne : ¬(c = d ∧ as.length = bs.length)) :
    T.Decides (.con c as) (.con d bs) (refuse (.con c as) (.con d bs) origin T) := by
  refine meets_read_bind fun expected _ => meets_read_bind fun found _ => ?_
  refine ⟨.refl, rfl, fun s _ heq => hne ?_⟩
  rw [Ty.subst_con, Ty.subst_con] at heq
  obtain ⟨hname, hargs⟩ := Ty.con.inj heq
  have hlength := congrArg List.length hargs
  rw [List.length_map, List.length_map] at hlength
  exact ⟨hname, hlength⟩

/-! ## The recursion -/

section
variable {deeper : Ty → Ty → Solve Unit}

/-- Arguments are made equal one after the other, in the table that the ones
before have left. -/
theorem unifyAllVia_decides (name : String) {as bs : List Ty} (hlength : as.length = bs.length)
    (hargs : ∀ a ∈ as, ∀ b T, WellFormed T → T.Decides a b (unifyVia deeper origin a b T))
    (hT : T.WellFormed) :
    T.Decides (.con name as) (.con name bs) (unifyAllVia deeper origin as bs T) := by
  induction as generalizing bs T with
  | nil =>
    obtain rfl : bs = [] := List.eq_nil_of_length_eq_zero hlength.symm
    rw [unifyAllVia]
    · exact Solved.refl (covers_nullary _)
    · intro a as b bs h
      cases h
  | cons a as ih =>
    obtain ⟨b, bs, rfl⟩ := List.exists_cons_of_length_eq_add_one hlength.symm
    rw [unifyAllVia]
    refine meets_bind ((hargs a List.mem_cons_self b T hT).mono (fun _ _ h => h) ?_) ?_
    · intro _ T' h
      refine ⟨h.steps, h.size_eq, fun s hs heq => h.unsolvable s hs ?_⟩
      simp only [Ty.subst_con, List.map_cons, Ty.con.injEq, List.cons.injEq] at heq
      exact heq.2.1
    · intro _ T₁ h₁
      have hT₁ := h₁.steps.wellFormed hT
      refine (ih (Nat.succ.inj hlength) (fun a ha => hargs a (List.mem_cons_of_mem _ ha)) hT₁).mono
        ?_ ?_
      · intro _ T₂ h₂
        have hle : T₁.size ≤ T.size := Nat.le_of_eq h₁.size_eq
        refine ⟨h₁.steps.trans h₂.steps, h₂.size_eq.trans h₁.size_eq, ?_, ?_, fun s => ?_⟩
        · simpa [covers_con] using ⟨h₁.left, covers_con.1 (h₂.left.mono hle)⟩
        · simpa [covers_con] using ⟨h₁.right, covers_con.1 (h₂.right.mono hle)⟩
        · rw [h₂.solves_iff s, h₁.solves_iff s]
          simp [and_assoc]
      · intro _ T₂ h₂
        refine ⟨h₁.steps.trans h₂.steps, h₂.size_eq.trans h₁.size_eq, fun s hs heq => ?_⟩
        simp only [Ty.subst_con, List.map_cons, Ty.con.injEq, List.cons.injEq, true_and] at heq
        refine h₂.unsolvable s ((h₁.solves_iff s).2 ⟨hs, heq.1⟩) ?_
        rw [Ty.subst_con, Ty.subst_con, heq.2]

theorem unifyVia_decides
    (hdeeper : ∀ a b T, WellFormed T → T.Decides a b (deeper a b T)) (a b : Ty) (T : Table)
    (hT : T.WellFormed) : T.Decides a b (unifyVia deeper origin a b T) := by
  induction a using Ty.induction_on generalizing b T with
  | var v =>
    rw [unifyVia]
    refine meets_read_bind fun c hclass => ?_
    obtain ⟨root, t | t⟩ := c
    · refine meets_read_bind fun b' hfind => ?_
      obtain ⟨heq, hcovers, hvar⟩ := find_spec hT hfind
      refine (assign_decides hT (hT.rooted hclass) hvar).congr (fun _ hb => ?_) fun s hs => ?_
      · exact ⟨covers_var.2 (lt_size_of_classOf hclass), hcovers.2 hb⟩
      · rw [heq s hs, Ty.subst_var, Ty.subst_var, hs.root hT hclass]
    · refine (hdeeper t b T hT).congr (fun _ hb => ?_) fun s hs => ?_
      · exact ⟨covers_var.2 (lt_size_of_classOf hclass), hb⟩
      · rw [Ty.subst_var, hs.bound hclass]
  | con name args ih =>
    rw [unifyVia]
    refine meets_read_bind fun b' hfind => ?_
    obtain ⟨heq, hcovers, hvar⟩ := find_spec hT hfind
    refine Decides.congr (b := b') ?_ (fun ha hb => ⟨ha, hcovers.2 hb⟩) fun s hs => by rw [heq s hs]
    cases b' with
    | var root =>
      refine (assign_decides hT (hvar root rfl) ?_).symm
      intro v h
      cases h
    | con name' args' =>
      simp only
      split
      · rename_i hsame
        obtain ⟨rfl, hlength⟩ := hsame
        exact unifyAllVia_decides name hlength ih hT
      · rename_i hdiffer
        exact refuse_decides hdiffer

end

theorem unifyWithin_decides (n : Nat) (a b : Ty) (T : Table) (hT : T.WellFormed) :
    T.Decides a b (unifyWithin origin n a b T) := by
  induction n generalizing a b T with
  | zero =>
    rw [unifyWithin]
    refine unifyVia_decides ?_ a b T hT
    intro a b T _
    trivial
  | succ n ih => exact unifyVia_decides ih a b T hT

/-- Unification imposes the equation and nothing else, or the equation has no
solution. -/
theorem unify_decides (hT : T.WellFormed) : T.Decides a b (unify a b origin T) :=
  unifyWithin_decides T.size a b T hT

theorem union_decides (hT : T.WellFormed) {v : TyVar} {t : Ty} :
    T.Decides (.var v) t (union v t origin T) := by
  refine meets_read_bind fun c hclass => ?_
  have hv : T.Covers (.var v) := covers_var.2 (lt_size_of_classOf hclass)
  obtain ⟨root, u | u⟩ := c
  · refine meets_read_bind fun t' hfind => ?_
    obtain ⟨heq, hcovers, hvar⟩ := find_spec hT hfind
    refine (assign_decides hT (hT.rooted hclass) hvar).congr (fun _ ht => ⟨hv, hcovers.2 ht⟩) ?_
    intro s hs
    rw [heq s hs, Ty.subst_var, Ty.subst_var, hs.root hT hclass]
  · refine (unify_decides hT).congr (fun _ ht => ⟨hv, ht⟩) fun s hs => ?_
    rw [Ty.subst_var, hs.bound hclass]

/-! ## Unification ends -/

theorem assign_returns (hT : T.WellFormed) {root : TyVar} {t : Ty} (hroot : root < T.size)
    (ht : T.Covers t) : (assign root t origin T).Returns := by
  cases t with
  | var other =>
    rw [assign]
    split
    · exact Outcome.returns_ok _ _
    · exact Outcome.returns_ok _ _
  | con name args =>
    rw [assign]
    obtain ⟨found, hocc⟩ := exists_occurs hT hroot ht
    obtain ⟨u, hu⟩ := exists_resolve hT ht
    refine returns_read_bind hocc ?_
    cases found with
    | true => exact returns_read_bind hu (Outcome.returns_error _ _)
    | false => exact Outcome.returns_ok _ _

theorem refuse_returns (hT : T.WellFormed) (ha : T.Covers a) (hb : T.Covers b) :
    (refuse a b origin T).Returns := by
  obtain ⟨expected, ha⟩ := exists_resolve hT ha
  obtain ⟨found, hb⟩ := exists_resolve hT hb
  exact returns_read_bind ha (returns_read_bind hb (Outcome.returns_error _ _))

section
variable {deeper : Ty → Ty → Solve Unit}

/-- From any table that this one may change to, the walk comes back from every
binding that it meets in the type. -/
def ComesBack (deeper : Ty → Ty → Solve Unit) (T : Table) (a : Ty) : Prop :=
  ∀ T', T.Steps T' → T'.size = T.size → ∀ w ∈ a.occurrences, ∀ r t,
    T'.classOf w = .ok (r, some t) → ∀ b, T'.Covers b → (deeper t b T').Returns

theorem unifyAllVia_returns (hdeeper : ∀ a b T, WellFormed T → T.Decides a b (deeper a b T))
    {as bs : List Ty}
    (hargs : ∀ a ∈ as, ∀ b T, WellFormed T → T.Covers a → T.Covers b → ComesBack deeper T a →
      (unifyVia deeper origin a b T).Returns)
    (hT : T.WellFormed) (has : ∀ a ∈ as, T.Covers a) (hbs : ∀ b ∈ bs, T.Covers b)
    (hback : ∀ a ∈ as, ComesBack deeper T a) : (unifyAllVia deeper origin as bs T).Returns := by
  induction as generalizing bs T with
  | nil =>
    rw [unifyAllVia]
    · exact Outcome.returns_ok _ _
    · intro a as b bs h
      cases h
  | cons a as ih =>
    cases bs with
    | nil =>
      rw [unifyAllVia]
      · exact Outcome.returns_ok _ _
      · intro a as b bs _ h
        cases h
    | cons b bs =>
      rw [unifyAllVia]
      refine returns_bind (hargs a List.mem_cons_self b T hT (has a List.mem_cons_self)
        (hbs b List.mem_cons_self) (hback a List.mem_cons_self)) ?_
      intro _ T₁ hrun
      have hsolved : T.Solved a b T₁ := by
        have hdecides : T.Decides a b (unifyVia deeper origin a b T) :=
          unifyVia_decides hdeeper a b T hT
        rw [hrun] at hdecides
        exact hdecides
      have hle : T.size ≤ T₁.size := Nat.le_of_eq hsolved.size_eq.symm
      refine ih (fun a ha => hargs a (List.mem_cons_of_mem _ ha)) (hsolved.steps.wellFormed hT)
        (fun a ha => (has a (List.mem_cons_of_mem _ ha)).mono hle)
        (fun b hb => (hbs b (List.mem_cons_of_mem _ hb)).mono hle) ?_
      intro a ha T' hsteps hsize
      exact hback a (List.mem_cons_of_mem _ ha) T' (hsolved.steps.trans hsteps)
        (hsize.trans hsolved.size_eq)

theorem unifyVia_returns (hdeeper : ∀ a b T, WellFormed T → T.Decides a b (deeper a b T))
    (a b : Ty) (T : Table) (hT : T.WellFormed) (ha : T.Covers a) (hb : T.Covers b)
    (hback : ComesBack deeper T a) : (unifyVia deeper origin a b T).Returns := by
  induction a using Ty.induction_on generalizing b T with
  | var v =>
    rw [unifyVia]
    obtain ⟨root, c, hclass⟩ := hT.created v (covers_var.1 ha)
    refine returns_read_bind hclass ?_
    cases c with
    | none =>
      obtain ⟨b', hfind⟩ := exists_find hT hb
      refine returns_read_bind hfind ?_
      exact assign_returns hT (root_lt_size_of_classOf hclass) ((find_spec hT hfind).2.1.1 hb)
    | some t => exact hback T .refl rfl v (by simp) root t hclass b hb
  | con name args ih =>
    rw [unifyVia]
    obtain ⟨b', hfind⟩ := exists_find hT hb
    have hb' : T.Covers b' := (find_spec hT hfind).2.1.1 hb
    refine returns_read_bind hfind ?_
    cases b' with
    | var root => exact assign_returns hT (covers_var.1 hb') ha
    | con name' args' =>
      simp only
      split
      · refine unifyAllVia_returns hdeeper ih hT (covers_con.1 ha) (covers_con.1 hb') ?_
        intro a ha' T' hsteps hsize w hw
        exact hback T' hsteps hsize w (Ty.mem_occurrences_con.2 ⟨a, ha', hw⟩)
      · exact refuse_returns hT ha hb'

end

/-- Classes whose bindings have been followed on the way to a type: every solution
gives each of them a larger type than the unknowns of that type. -/
structure Followed (T : Table) (a : Ty) (seen : Finset TyVar) : Prop where
  created : ∀ c ∈ seen, c < T.size
  above : ∀ s, T.Solves s → ∀ c ∈ seen, ∀ w ∈ a.occurrences, sizeOf (s w) < sizeOf (s c)

namespace Followed

variable {seen : Finset TyVar} {w r : TyVar} {t : Ty}

/-- A class met now has not been met before. -/
theorem not_mem (h : T'.Followed a seen) (hT' : T'.WellFormed) (hw : w ∈ a.occurrences)
    (hclass : T'.classOf w = .ok (r, some t)) : r ∉ seen := by
  intro hr
  obtain ⟨s, hs⟩ := hT'.solvable
  have hlt := h.above s hs r hr w hw
  rw [hs.root hT' hclass] at hlt
  exact Nat.lt_irrefl _ hlt

theorem mono (h : T.Followed a seen) (hT : T.WellFormed) (hsteps : T.Steps T') :
    T'.Followed a seen :=
  ⟨fun c hc => Nat.lt_of_lt_of_le (h.created c hc) hsteps.size_le,
    fun s hs => h.above s (hsteps.solves hT hs)⟩

/-- The class of an unknown of the type is followed to its binding. -/
theorem insert (h : T.Followed a seen) (hT : T.WellFormed) (hw : w ∈ a.occurrences)
    (hclass : T.classOf w = .ok (r, some t)) : T.Followed t (insert r seen) := by
  constructor
  · intro c hc
    rcases Finset.mem_insert.1 hc with rfl | hc
    · exact root_lt_size_of_classOf hclass
    · exact h.created c hc
  · intro s hs c hc u hu
    have hlt := hs.sizeOf_lt hT hclass hu
    rcases Finset.mem_insert.1 hc with rfl | hc
    · rw [← hs.root hT hclass]
      exact hlt
    · exact Nat.lt_trans hlt (h.above s hs c hc w hw)

theorem card_le (h : T.Followed a seen) : seen.card ≤ T.size := by
  rw [← Finset.card_range T.size]
  exact Finset.card_le_card fun c hc => Finset.mem_range.2 (h.created c hc)

end Followed

/-- The bound on the bindings followed is never reached: together with the
classes followed so far it covers all unknowns. -/
theorem unifyWithin_returns {n : Nat} {seen : Finset TyVar} (hT : T.WellFormed)
    (ha : T.Covers a) (hb : T.Covers b) (hseen : T.Followed a seen)
    (hcard : T.size ≤ seen.card + n) : (unifyWithin origin n a b T).Returns := by
  induction n generalizing a b T seen with
  | zero =>
    rw [unifyWithin]
    refine unifyVia_returns ?_ a b T hT ha hb ?_
    · intro a b T _
      trivial
    · intro T' hsteps hsize w hw r t hclass
      have hT' := hsteps.wellFormed hT
      have hseen' := hseen.mono hT hsteps
      have hle := (hseen'.insert hT' hw hclass).card_le
      rw [Finset.card_insert_of_notMem (hseen'.not_mem hT' hw hclass)] at hle
      omega
  | succ n ih =>
    rw [unifyWithin]
    refine unifyVia_returns (unifyWithin_decides n) a b T hT ha hb ?_
    intro T' hsteps hsize w hw r t hclass b' hb'
    have hT' := hsteps.wellFormed hT
    have hseen' := hseen.mono hT hsteps
    refine ih hT' (hT'.covered hclass) hb' (hseen'.insert hT' hw hclass) ?_
    rw [Finset.card_insert_of_notMem (hseen'.not_mem hT' hw hclass)]
    omega

/-- In a well-formed table, unification of types over created unknowns comes
back. -/
theorem unify_returns (hT : T.WellFormed) (ha : T.Covers a) (hb : T.Covers b) :
    (unify a b origin T).Returns := by
  have hseen : T.Followed a ∅ := ⟨by simp, by simp⟩
  exact unifyWithin_returns hT ha hb hseen (by simp)

theorem union_returns (hT : T.WellFormed) {v : TyVar} {t : Ty} (hv : v < T.size)
    (ht : T.Covers t) : (union v t origin T).Returns := by
  obtain ⟨root, c, hclass⟩ := hT.created v hv
  refine returns_read_bind hclass ?_
  cases c with
  | none =>
    obtain ⟨t', hfind⟩ := exists_find hT ht
    refine returns_read_bind hfind ?_
    exact assign_returns hT (root_lt_size_of_classOf hclass) ((find_spec hT hfind).2.1.1 ht)
  | some u => exact unify_returns hT (hT.covered hclass) ht

end TypeLayer.Table
