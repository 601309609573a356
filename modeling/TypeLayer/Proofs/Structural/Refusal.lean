import TypeLayer.Proofs.Structural.Reachable

/-!
# Where unification is refused

A refused unification has come to a position of the two types, has made them equal to
the left of it, and has found there two parts that cannot be made equal.  Its error is
about these parts, as they are resolved in the table that is left.

Positions are paths of argument numbers, and `Ty.part?` is the part of a type at one.
`Ty.Facing` says that two types come to two parts along a position as unification does:
with the same constructors above it and nothing different to the left.  `Culprit` says
which error is about two such parts.

The parts are found along the recursion of `unifyVia` (`unifyVia_located`).  What was
equal when the walk went by is equal still in the table that is left, because a table
moves by changes that take solutions away (`Steps.agree`).
-/

namespace TypeLayer

open TypeLayer.Action

/-! ## Positions -/

/-- A path into a type from the outside in, by the number of an argument at each step. -/
abbrev Position := List Nat

/-- Where the two paths part, the first takes the smaller number. -/
inductive Position.LeftOf : Position → Position → Prop
  | here {i j : Nat} (h : i < j) (q p : Position) : LeftOf (i :: q) (j :: p)
  | deeper (i : Nat) {q p : Position} (h : LeftOf q p) : LeftOf (i :: q) (i :: p)

namespace Ty

/-- The part of a type at a position, if the type has it. -/
def part? : Position → Ty → Option Ty
  | [], t => some t
  | _ :: _, .var _ => none
  | i :: p, .con _ args => args[i]?.bind (part? p)

@[simp] theorem part?_nil (t : Ty) : t.part? [] = some t := by
  rw [part?]

@[simp] theorem part?_con (name : String) (args : List Ty) (i : Nat) (p : Position) :
    (con name args).part? (i :: p) = args[i]?.bind (part? p) := by
  rw [part?]

/-- Two types have the given parts at a position.  Above it they have the same constructors
with as many arguments, and to the left of it they are equal. -/
structure Facing (a b : Ty) (p : Position) (x y : Ty) : Prop where
  left : a.part? p = some x
  right : b.part? p = some y
  above : ∀ q, q <+: p → q ≠ p → ∃ name as bs,
    a.part? q = some (.con name as) ∧ b.part? q = some (.con name bs) ∧ as.length = bs.length
  before : ∀ q, Position.LeftOf q p → a.part? q = b.part? q

namespace Facing

variable {a b x y : Ty} {as bs : List Ty} {p : Position} {name : String}

/-- At the outermost position two types face each other as they are. -/
theorem outermost (a b : Ty) : Facing a b [] a b where
  left := part?_nil a
  right := part?_nil b
  above := fun _ hq hne => absurd (List.prefix_nil.1 hq) hne
  before := fun _ hq => by cases hq

/-- From the first arguments to the applications. -/
theorem first (hlength : as.length = bs.length) (h : Facing a b p x y) :
    Facing (.con name (a :: as)) (.con name (b :: bs)) (0 :: p) x y where
  left := by simpa using h.left
  right := by simpa using h.right
  above := fun q hq hne => by
    rcases List.prefix_cons_iff.1 hq with rfl | ⟨q', rfl, hq'⟩
    · exact ⟨name, a :: as, b :: bs, by simp, by simp, by simp [hlength]⟩
    · simpa using h.above q' hq' (fun heq => hne (by rw [heq]))
  before := fun q hq => by
    cases hq with
    | here hlt => exact absurd hlt (Nat.not_lt_zero _)
    | deeper _ hq => simpa using h.before _ hq

/-- A first argument that is equal on both sides may be put in front. -/
theorem later {i : Nat} (hab : a = b) (h : Facing (.con name as) (.con name bs) (i :: p) x y) :
    Facing (.con name (a :: as)) (.con name (b :: bs)) ((i + 1) :: p) x y where
  left := by simpa using h.left
  right := by simpa using h.right
  above := fun q hq hne => by
    rcases List.prefix_cons_iff.1 hq with rfl | ⟨q', rfl, hq'⟩
    · obtain ⟨_, _, _, has, hbs, hlength⟩ := h.above [] List.nil_prefix (by simp)
      cases has
      cases hbs
      exact ⟨name, a :: as, b :: bs, by simp, by simp, by simp [hlength]⟩
    · have hne' : i :: q' ≠ i :: p := fun heq => hne (by rw [(List.cons.inj heq).2])
      simpa using h.above (i :: q') (List.cons_prefix_cons.2 ⟨rfl, hq'⟩) hne'
  before := fun q hq => by
    cases hq with
    | @here j _ hlt q _ =>
      cases j with
      | zero => simp [hab]
      | succ j => simpa using h.before (j :: q) (.here (Nat.lt_of_succ_lt_succ hlt) q p)
    | @deeper _ q _ hq => simpa using h.before (i :: q) (.deeper i hq)

end Facing

end Ty

namespace Table

variable {T T₁ T' : Table} {a b : Ty} {origin : Origin} {e : TypeError}

/-! ## Refusals -/

/-- The error that says why two parts cannot be made equal: they are applications of different
constructors, or to different numbers of arguments, or one of them is a free unknown that
occurs in the other. -/
inductive Culprit (T : Table) (x y : Ty) (origin : Origin) : TypeError → Prop
  | mismatch {c d : String} {as bs : List Ty} (left : x = .con c as) (right : y = .con d bs)
      (differ : c ≠ d ∨ as.length ≠ bs.length) : Culprit T x y origin (.mismatch x y origin)
  | infiniteType {v : TyVar} {name : String} {args : List Ty}
      (free : T.classOf v = .ok (v, none)) (occurs : v ∈ (Ty.con name args).occurrences)
      (sides : x = .var v ∧ y = .con name args ∨ x = .con name args ∧ y = .var v) :
      Culprit T x y origin (.infiniteType v (.con name args) origin)

/-- The table has moved to one in which the two types, as they are resolved there, face each
other with the parts that the error is about. -/
structure RefusedAt (T : Table) (a b : Ty) (origin : Origin) (e : TypeError) (T' : Table) :
    Prop where
  steps : T.Steps T'
  located : ∃ p x y, Ty.Facing (a.subst T'.solution) (b.subst T'.solution) p x y ∧
    T'.Culprit x y origin e

/-- If the call is refused, its error can be located. -/
abbrev Locates (T : Table) (a b : Ty) (origin : Origin) (o : Outcome Table TypeError Unit) : Prop :=
  o.Meets (fun _ _ => True) (T.RefusedAt a b origin)

/-- Only what the types are resolved to counts. -/
theorem RefusedAt.congr {a' b' : Ty} (h : T.RefusedAt a b origin e T') (hT : T.WellFormed)
    (ha : ∀ s, T.Solves s → a.subst s = a'.subst s)
    (hb : ∀ s, T.Solves s → b.subst s = b'.subst s) : T.RefusedAt a' b' origin e T' := by
  have hs := h.steps.solves hT (solves_solution (h.steps.wellFormed hT))
  refine ⟨h.steps, ?_⟩
  rw [← ha _ hs, ← hb _ hs]
  exact h.located

/-! ## The recursion -/

/-- A free class is refused an application only if it is left in the resolved application. -/
theorem assign_located (hT : T.WellFormed) {root : TyVar} (t : Ty)
    (hroot : T.classOf root = .ok (root, none)) :
    (assign root t origin T).Meets (fun _ _ => True) fun e T' =>
      T.RefusedAt (.var root) t origin e T' ∧ T.RefusedAt t (.var root) origin e T' := by
  cases t with
  | var other =>
    rw [assign]
    split
    · trivial
    · trivial
  | con name args =>
    rw [assign]
    refine meets_read_bind fun found hocc => ?_
    cases found with
    | false => trivial
    | true =>
      refine meets_read_bind fun u hu => ?_
      have hmem := mem_solution_of_occurs hT hroot hocc
      have hfree : (Ty.var root).subst T.solution = .var root := by
        rw [Ty.subst_var, solution_free hroot]
      rw [resolve_eq hT (covers_of_resolve hu)] at hu
      obtain rfl := Except.ok.inj hu
      rw [Ty.subst_con] at hmem ⊢
      refine ⟨⟨.refl, [], _, _, .outermost _ _, ?_⟩, ⟨.refl, [], _, _, .outermost _ _, ?_⟩⟩
      · rw [hfree, Ty.subst_con]
        exact .infiniteType hroot hmem (.inl ⟨rfl, rfl⟩)
      · rw [hfree, Ty.subst_con]
        exact .infiniteType hroot hmem (.inr ⟨rfl, rfl⟩)

theorem refuse_located (hT : T.WellFormed) {c d : String} {as bs : List Ty}
    (hne : ¬(c = d ∧ as.length = bs.length)) :
    T.Locates (.con c as) (.con d bs) origin (refuse (.con c as) (.con d bs) origin T) := by
  refine meets_read_bind fun expected ha => meets_read_bind fun found hb => ?_
  rw [resolve_eq hT (covers_of_resolve ha)] at ha
  rw [resolve_eq hT (covers_of_resolve hb)] at hb
  obtain rfl := Except.ok.inj ha
  obtain rfl := Except.ok.inj hb
  refine ⟨.refl, [], _, _, .outermost _ _, ?_⟩
  refine .mismatch (Ty.subst_con _ _ _) (Ty.subst_con _ _ _) ?_
  rw [List.length_map, List.length_map]
  exact not_and_or.1 hne

section
variable {deeper : Ty → Ty → Solve Unit}

/-- The argument that is refused comes after arguments that have been made equal. -/
theorem unifyAllVia_located (name : String) {as bs : List Ty} (hlength : as.length = bs.length)
    (hdecides : ∀ a ∈ as, ∀ b T, WellFormed T → T.Decides a b (unifyVia deeper origin a b T))
    (hargs : ∀ a ∈ as, ∀ b T, WellFormed T → T.Locates a b origin (unifyVia deeper origin a b T))
    (hT : T.WellFormed) :
    (unifyAllVia deeper origin as bs T).Meets (fun _ _ => True) fun e T' => T.Steps T' ∧
      ∃ i p x y, Ty.Facing (.con name (as.map (Ty.subst T'.solution)))
        (.con name (bs.map (Ty.subst T'.solution))) (i :: p) x y ∧ T'.Culprit x y origin e := by
  induction as generalizing bs T with
  | nil =>
    rw [unifyAllVia]
    · trivial
    · intro a as b bs h
      cases h
  | cons a as ih =>
    obtain ⟨b, bs, rfl⟩ := List.exists_cons_of_length_eq_add_one hlength.symm
    have hlength := Nat.succ.inj hlength
    have htail := fun a ha => hdecides a (List.mem_cons_of_mem _ ha)
    rw [unifyAllVia]
    refine meets_bind (((hdecides a List.mem_cons_self b T hT).and
      (hargs a List.mem_cons_self b T hT)).mono (fun _ _ h => h.1) ?_) ?_
    · intro e T' h
      obtain ⟨p, x, y, hfacing, hculprit⟩ := h.2.located
      exact ⟨h.2.steps, 0, p, x, y, hfacing.first (by simpa using hlength), hculprit⟩
    · intro _ T₁ h₁
      have hT₁ := h₁.steps.wellFormed hT
      refine (ih hlength htail (fun a ha => hargs a (List.mem_cons_of_mem _ ha)) hT₁).mono
        (fun _ _ h => h) ?_
      intro e T' h
      obtain ⟨hsteps, i, p, x, y, hfacing, hculprit⟩ := h
      -- The first arguments have been made equal, and what followed has kept them so.
      have hT' := hsteps.wellFormed hT₁
      have hequal := ((agree_iff hT').1 (hsteps.agree hT₁ (h₁.agree hT))).2.2 _
        (solves_solution hT')
      exact ⟨h₁.steps.trans hsteps, i + 1, p, x, y, hfacing.later hequal, hculprit⟩

theorem unifyVia_located (hdecides : ∀ a b T, WellFormed T → T.Decides a b (deeper a b T))
    (hdeeper : ∀ a b T, WellFormed T → T.Locates a b origin (deeper a b T)) (a b : Ty) (T : Table)
    (hT : T.WellFormed) : T.Locates a b origin (unifyVia deeper origin a b T) := by
  induction a using Ty.induction_on generalizing b T with
  | var v =>
    rw [unifyVia]
    refine meets_read_bind fun c hclass => ?_
    obtain ⟨root, t | t⟩ := c
    · refine meets_read_bind fun b' hfind => ?_
      obtain ⟨hsame, _⟩ := find_spec hT hfind
      refine (assign_located hT b' (hT.rooted hclass)).mono (fun _ _ h => h) fun e T' h => ?_
      refine h.1.congr hT (fun s hs => ?_) fun s hs => (hsame s hs).symm
      rw [Ty.subst_var, Ty.subst_var, hs.root hT hclass]
    · refine (hdeeper t b T hT).mono (fun _ _ h => h) fun e T' h => ?_
      refine h.congr hT (fun s hs => ?_) fun _ _ => rfl
      rw [Ty.subst_var, hs.bound hclass]
  | con name args ih =>
    rw [unifyVia]
    refine meets_read_bind fun b' hfind => ?_
    obtain ⟨hsame, _, hvar⟩ := find_spec hT hfind
    suffices h : T.Locates (.con name args) b' origin _ from
      h.mono (fun _ _ h => h) fun e T' h =>
        h.congr hT (fun _ _ => rfl) fun s hs => (hsame s hs).symm
    cases b' with
    | var root =>
      exact (assign_located hT _ (hvar root rfl)).mono (fun _ _ h => h) fun _ _ h => h.2
    | con name' args' =>
      simp only
      split
      · rename_i hheads
        obtain ⟨rfl, hlength⟩ := hheads
        refine (unifyAllVia_located name hlength (fun a _ => unifyVia_decides hdecides a) ih hT).mono
          (fun _ _ h => h) fun e T' h => ?_
        obtain ⟨hsteps, i, p, x, y, hfacing, hculprit⟩ := h
        refine ⟨hsteps, i :: p, x, y, ?_, hculprit⟩
        rw [Ty.subst_con, Ty.subst_con]
        exact hfacing
      · rename_i hdiffer
        exact refuse_located hT hdiffer

end

theorem unifyWithin_located (n : Nat) (a b : Ty) (T : Table) (hT : T.WellFormed) :
    T.Locates a b origin (unifyWithin origin n a b T) := by
  induction n generalizing a b T with
  | zero =>
    rw [unifyWithin]
    refine unifyVia_located ?_ ?_ a b T hT
    · intro a b T _
      trivial
    · intro a b T _
      trivial
  | succ n ih => exact unifyVia_located (unifyWithin_decides n) ih a b T hT

/-! ## Refused unification in reachable tables -/

/-- A refused unification has made the two types equal to the left of some position, and its
error is about the parts that they have there, as they are resolved in the table that is left.
Types that were equal before are equal still. -/
theorem unify_refused_at (hT : T.Reachable) (ha : T.Covers a) (hb : T.Covers b)
    (h : unify a b origin T = .error e T') :
    (∃ a' b' p x y, T'.resolve a = .ok a' ∧ T'.resolve b = .ok b' ∧ Ty.Facing a' b' p x y ∧
      T'.Culprit x y origin e) ∧
    ∀ t u, T.Agree t u → T'.Agree t u := by
  have hwf := hT.wellFormed
  have hrefused : T.RefusedAt a b origin e T' := by
    have hlocates : T.Locates a b origin (unify a b origin T) :=
      unifyWithin_located T.size a b T hwf
    rw [h] at hlocates
    exact hlocates
  have hwf' := hrefused.steps.wellFormed hwf
  have hle := hrefused.steps.size_le
  refine ⟨?_, fun t u => hrefused.steps.agree hwf⟩
  obtain ⟨p, x, y, hfacing, hculprit⟩ := hrefused.located
  exact ⟨_, _, p, x, y, resolve_eq hwf' (ha.mono hle), resolve_eq hwf' (hb.mono hle), hfacing,
    hculprit⟩

/-- The first arguments bind `t0`, and the next ones `t1` through it.  Only then do `t1` and
`Float` face each other, and `t1` is reported as what it is bound to by now. -/
theorem unify_refused_at_nested :
    ∃ (T T' : Table) (a' b' : Ty) (p : Position), T.Reachable ∧
      T.Covers (.con "Pair" [.var 0, .con "Map" [.var 0, .var 1]]) ∧
      T.Covers (.con "Pair" [.con "List" [.var 1], .con "Map" [.con "List" [Ty.int], Ty.float]]) ∧
      unify (.con "Pair" [.var 0, .con "Map" [.var 0, .var 1]])
        (.con "Pair" [.con "List" [.var 1], .con "Map" [.con "List" [Ty.int], Ty.float]]) .builtin T =
          .error (.mismatch Ty.int Ty.float .builtin) T' ∧
      T'.resolve (.con "Pair" [.var 0, .con "Map" [.var 0, .var 1]]) = .ok a' ∧
      T'.resolve (.con "Pair" [.con "List" [.var 1], .con "Map" [.con "List" [Ty.int], Ty.float]]) =
        .ok b' ∧ Ty.Facing a' b' p Ty.int Ty.float := by
  have hT : empty.fresh.2.fresh.2.Reachable :=
    (Relation.ReflTransGen.refl.tail ⟨.fresh, rfl⟩).tail ⟨.fresh, rfl⟩
  obtain ⟨T', hrun⟩ : ∃ T', unify (.con "Pair" [.var 0, .con "Map" [.var 0, .var 1]])
      (.con "Pair" [.con "List" [.var 1], .con "Map" [.con "List" [Ty.int], Ty.float]]) .builtin
      empty.fresh.2.fresh.2 = .error (.mismatch Ty.int Ty.float .builtin) T' := ⟨_, rfl⟩
  have hleft : empty.fresh.2.fresh.2.Covers (.con "Pair" [.var 0, .con "Map" [.var 0, .var 1]]) := by
    decide
  have hright : empty.fresh.2.fresh.2.Covers
      (.con "Pair" [.con "List" [.var 1], .con "Map" [.con "List" [Ty.int], Ty.float]]) := by decide
  obtain ⟨⟨a', b', p, x, y, ha', hb', hfacing, hculprit⟩, _⟩ :=
    unify_refused_at hT hleft hright hrun
  cases hculprit
  exact ⟨_, T', a', b', p, hT, hleft, hright, hrun, ha', hb', hfacing⟩

end Table

end TypeLayer
