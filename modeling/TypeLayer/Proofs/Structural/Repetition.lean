import TypeLayer.Proofs.Structural.Reachable

/-!
# Repeated unification

Unification of two types that agree changes nothing (`unify_of_agree`).  Where the first
type is a free unknown, the second one is resolved to the same representative, so that no
class is assigned anything; where it is an application, the second one has the same
constructor, and the arguments agree in turn.

After a unification that succeeds the two types agree.  A second one therefore leaves the
table as the first one left it, whichever way around the types are given (`unify_again`).
-/

namespace TypeLayer.Table

open TypeLayer.Action

variable {T T' : Table} {a b : Ty} {origin : Origin}

/-- The call is not refused, and leaves the table as it is. -/
abbrev Idle (T : Table) (o : Outcome Table TypeError Unit) : Prop :=
  o.Meets (fun _ T' => T' = T) (fun _ _ => False)

/-- A class that is assigned a type which is resolved to the class stays as it is. -/
theorem assign_idle {root : TyVar} {t : Ty} (ht : ∀ v, t = .var v → T.classOf v = .ok (v, none))
    (h : t.subst T.solution = .var root) : T.Idle (assign root t origin T) := by
  cases t with
  | con name args =>
    rw [Ty.subst_con] at h
    cases h
  | var other =>
    rw [Ty.subst_var, solution_free (ht other rfl)] at h
    rw [assign, if_pos (Ty.var.inj h)]
    exact rfl

section
variable {deeper : Ty → Ty → Solve Unit}

theorem unifyAllVia_idle {as bs : List Ty}
    (hargs : ∀ a ∈ as, ∀ b, a.subst T.solution = b.subst T.solution →
      T.Idle (unifyVia deeper origin a b T))
    (h : as.map (Ty.subst T.solution) = bs.map (Ty.subst T.solution)) :
    T.Idle (unifyAllVia deeper origin as bs T) := by
  induction as generalizing bs with
  | nil =>
    rw [unifyAllVia]
    · exact rfl
    · intro a as b bs h
      cases h
  | cons a as ih =>
    cases bs with
    | nil => cases h
    | cons b bs =>
      obtain ⟨hab, hrest⟩ := List.cons.inj h
      rw [unifyAllVia]
      refine meets_bind (hargs a List.mem_cons_self b hab) fun _ T₁ h₁ => ?_
      rw [h₁]
      exact ih (fun a ha => hargs a (List.mem_cons_of_mem _ ha)) hrest

theorem unifyVia_idle (hT : T.WellFormed)
    (hdeeper : ∀ a b, a.subst T.solution = b.subst T.solution → T.Idle (deeper a b T)) (a b : Ty)
    (h : a.subst T.solution = b.subst T.solution) : T.Idle (unifyVia deeper origin a b T) := by
  have hsolution := solves_solution hT
  induction a using Ty.induction_on generalizing b with
  | var v =>
    rw [Ty.subst_var] at h
    rw [unifyVia]
    refine meets_read_bind fun c hclass => ?_
    obtain ⟨root, t | t⟩ := c
    · refine meets_read_bind fun b' hfind => ?_
      obtain ⟨hsame, _, hvar⟩ := find_spec hT hfind
      refine assign_idle hvar ?_
      rw [← hsame _ hsolution, ← h, solution_free hclass]
    · refine hdeeper t b ?_
      rw [← hsolution.bound hclass]
      exact h
  | con name args ih =>
    rw [unifyVia]
    refine meets_read_bind fun b' hfind => ?_
    obtain ⟨hsame, _, hvar⟩ := find_spec hT hfind
    rw [hsame _ hsolution, Ty.subst_con] at h
    cases b' with
    | var root =>
      rw [Ty.subst_var, solution_free (hvar root rfl)] at h
      cases h
    | con name' args' =>
      rw [Ty.subst_con] at h
      obtain ⟨hname, hargs⟩ := Ty.con.inj h
      have hlength : args.length = args'.length := by simpa using congrArg List.length hargs
      simp only [hname, hlength, and_self, if_true]
      exact unifyAllVia_idle ih hargs

end

theorem unifyWithin_idle (hT : T.WellFormed) (n : Nat) (a b : Ty)
    (h : a.subst T.solution = b.subst T.solution) : T.Idle (unifyWithin origin n a b T) := by
  induction n generalizing a b with
  | zero =>
    rw [unifyWithin]
    refine unifyVia_idle hT ?_ a b h
    intro a b _
    trivial
  | succ n ih => exact unifyVia_idle hT ih a b h

/-- Types that agree are unified by doing nothing. -/
theorem unify_of_agree (hT : T.WellFormed) (h : T.Agree a b) (origin : Origin) :
    unify a b origin T = .ok () T := by
  obtain ⟨ha, hb, hequal⟩ := (agree_iff hT).1 h
  have hidle : T.Idle (unify a b origin T) :=
    unifyWithin_idle hT T.size a b (hequal _ (solves_solution hT))
  have hreturns : (unify a b origin T).Returns := unify_returns hT ha hb
  cases hrun : unify a b origin T with
  | ok u T' =>
    rw [hrun] at hidle
    obtain rfl : T' = T := hidle
    rfl
  | error e T' =>
    rw [hrun] at hidle
    exact hidle.elim
  | fault f =>
    rw [hrun] at hreturns
    obtain ⟨T', hstate⟩ := hreturns
    cases hstate

/-- Once two types have been unified, unifying them again succeeds and leaves the table exactly
as it is, whichever way around they are given and whatever the origin of the equation. -/
theorem unify_again (hT : T.Reachable) (h : unify a b origin T = .ok () T') (again : Origin) :
    unify a b again T' = .ok () T' ∧ unify b a again T' = .ok () T' := by
  have hsolved : T.Solved a b T' := by
    have hdecides : T.Decides a b (unify a b origin T) := unify_decides hT.wellFormed
    rw [h] at hdecides
    exact hdecides
  have hT' := hsolved.steps.wellFormed hT.wellFormed
  have hagree := hsolved.agree hT.wellFormed
  exact ⟨unify_of_agree hT' hagree again, unify_of_agree hT' hagree.symm again⟩

/-- The two types share unknowns, and are bound to each other's parts: `t0` to `List t1`, and
`t1` to `t2` by joining their classes. -/
theorem unify_again_shared :
    ∃ T T' : Table, T.Reachable ∧
      unify (.con "Map" [.var 0, .con "Pair" [.var 1, .var 0]])
        (.con "Map" [.con "List" [.var 1], .con "Pair" [.var 2, .con "List" [.var 2]]]) .builtin T =
          .ok () T' ∧ T' ≠ T ∧
      unify (.con "Map" [.var 0, .con "Pair" [.var 1, .var 0]])
        (.con "Map" [.con "List" [.var 1], .con "Pair" [.var 2, .con "List" [.var 2]]]) (.call 0) T' =
          .ok () T' ∧
      unify (.con "Map" [.con "List" [.var 1], .con "Pair" [.var 2, .con "List" [.var 2]]])
        (.con "Map" [.var 0, .con "Pair" [.var 1, .var 0]]) (.call 0) T' = .ok () T' := by
  have hT : empty.fresh.2.fresh.2.fresh.2.Reachable :=
    ((Relation.ReflTransGen.refl.tail ⟨.fresh, rfl⟩).tail ⟨.fresh, rfl⟩).tail ⟨.fresh, rfl⟩
  let joined : Table :=
    ⟨#[⟨0, 0, some (.con "List" [.var 1])⟩, ⟨2, 0, none⟩, ⟨2, 1, none⟩]⟩
  have hrun : unify (.con "Map" [.var 0, .con "Pair" [.var 1, .var 0]])
      (.con "Map" [.con "List" [.var 1], .con "Pair" [.var 2, .con "List" [.var 2]]]) .builtin
      empty.fresh.2.fresh.2.fresh.2 = .ok () joined :=
    Outcome.eq_ok (by decide +kernel) (by decide +kernel)
  exact ⟨_, joined, hT, hrun, by decide, unify_again hT hrun (.call 0)⟩

end TypeLayer.Table
