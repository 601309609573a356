import TypeLayer.Function.Builder
import TypeLayer.Proofs.Function.Invariant
import TypeLayer.Proofs.Structural.Unification
import TypeLayer.Structural.OfExpr

/-!
# Reachable tables

`Operation` lists the calls of the library that work on a table of unknowns, from
the creation of an unknown to the typing of a program.  A table is reachable if
some sequence of such calls, refused ones included, leads to it from the empty
table.  Nothing is asked of the arguments of the calls: a call that comes back
leaves a reachable table.

Every operation moves the table by the changes of `Step` (`Operation.evolved`),
so that what holds of these holds of all reachable tables.  The main results say
that in a reachable table

* unification imposes the equation it is asked for and nothing else
  (`unify_mostGeneral`);
* unification is refused exactly if the equation has no solution
  (`unify_refused_iff`);
* bindings are never circular, and all walks along them end
  (`bindings_acyclic`);
* the occurs check finds exactly the free classes that are left in a resolved
  type (`occurs_iff_resolved`).
-/

namespace TypeLayer

open TypeLayer.Action

namespace Table

variable {T₀ T T' : Table}

/-! ## Operations -/

inductive Operation where
  | fresh
  | union (v : TyVar) (t : Ty) (origin : Origin)
  | unify (a b : Ty) (origin : Origin)
  | generalize (t : Ty) (known : Context)
  | instantiate (s : Scheme)
  | refresh (t : Ty) (known : Context)
  | convert (e : TypeExpr)
  | build (name : String) (calls : List Builder.Call)
  | deduce (env : Env) (f : Func) (known : Context) (v : ValueId)
  | infer (env : Env) (f : Func)
  | inferProgram (env : Env) (funcs : List Func)

/-- The table that an operation leaves, whether it succeeds or is refused. An
operation at fault leaves none. -/
def Operation.after : Operation → Table → Option Table
  | .fresh, T => some T.fresh.2
  | .union v t origin, T => (Table.union v t origin T).state?
  | .unify a b origin, T => (Table.unify a b origin T).state?
  | .generalize t known, T => (T.generalize t known).toOption.map fun _ => T
  | .instantiate s, T => (Table.instantiate s T).state?
  | .refresh t known, T => (Table.refresh t known T).state?
  | .convert e, T => (e.toTy T).state?
  | .build name calls, T => (Func.build name calls T).toOption.map Prod.snd
  | .deduce env f known v, T =>
    (Deduction.deduce env f v ⟨T, known⟩).state?.map Deduction.table
  | .infer env f, T => (f.infer env T).state?
  | .inferProgram env funcs, T =>
    (Inference.inferProgram funcs ⟨T, env⟩).state?.map Inference.table

/-- Some sequence of operations leads from one table to the other. -/
abbrev Leads : Table → Table → Prop :=
  Relation.ReflTransGen fun T T' => ∃ op : Operation, op.after T = some T'

/-- Some sequence of operations leads to the table. -/
abbrev Reachable (T : Table) : Prop :=
  empty.Leads T

/-! ## Operations move by changes -/

/-- A well-formed table, reached by changes. -/
structure Evolved (T₀ T : Table) : Prop where
  wellFormed : T.WellFormed
  steps : T₀.Steps T

theorem WellFormed.evolved (hT : T.WellFormed) : T.Evolved T :=
  ⟨hT, .refl⟩

/-- What an unknown is resolved to later is found by resolving further what it is resolved
to now. -/
theorem Evolved.subst_solution (h : T.Evolved T') (hT : T.WellFormed) {v : TyVar}
    (hv : v < T.size) : (T.solution v).subst T'.solution = T'.solution v :=
  Table.subst_solution hT (h.steps.solves hT (solves_solution h.wellFormed)) v hv

theorem Evolved.fresh (h : T₀.Evolved T) : T₀.Evolved T.fresh.2 :=
  ⟨wellFormed_fresh h.wellFormed, h.steps.tail .fresh⟩

theorem Evolved.trans (h : T₀.Evolved T) (h' : T.Evolved T') : T₀.Evolved T' :=
  ⟨h'.wellFormed, h.steps.trans h'.steps⟩

theorem Decides.evolved {a b : Ty} {o : Outcome Table TypeError Unit} (h : T.Decides a b o)
    (hT : T₀.Evolved T) : o.Meets (fun _ => T₀.Evolved) (fun _ => T₀.Evolved) := by
  refine h.mono ?_ ?_
  · intro _ T' h
    exact hT.trans ⟨h.steps.wellFormed hT.wellFormed, h.steps⟩
  · intro _ T' h
    exact hT.trans ⟨h.steps.wellFormed hT.wellFormed, h.steps⟩

theorem keeps_unify (a b : Ty) (origin : Origin) : Keeps T₀.Evolved (unify a b origin) :=
  fun _ hT => (unify_decides hT.wellFormed).evolved hT

theorem keeps_union (v : TyVar) (t : Ty) (origin : Origin) :
    Keeps T₀.Evolved (union v t origin) :=
  fun _ hT => (union_decides hT.wellFormed).evolved hT

theorem exists_freshFor (hT : T.WellFormed) (vs : List TyVar) :
    ∃ pairs T', freshFor vs T = .ok pairs T' ∧ T.Evolved T' ∧ pairs.map Prod.fst = vs ∧
      ∀ p ∈ pairs, p.2 < T'.size := by
  induction vs generalizing T with
  | nil => exact ⟨[], T, rfl, hT.evolved, rfl, fun p hp => nomatch hp⟩
  | cons v vs ih =>
    obtain ⟨pairs, T', hrun, hevolved, hkeys, hnew⟩ := ih (wellFormed_fresh hT)
    refine ⟨(v, T.size) :: pairs, T', ?_, hT.evolved.fresh.trans hevolved, ?_, ?_⟩
    · unfold freshFor
      dsimp only
      rw [hrun]
      rfl
    · rw [List.map_cons, hkeys]
    · intro p hp
      rcases List.mem_cons.1 hp with rfl | hp
      · have hle := hevolved.steps.size_le
        rw [size_fresh] at hle
        exact hle
      · exact hnew p hp

theorem keeps_freshFor (vs : List TyVar) : Keeps T₀.Evolved (freshFor vs) := by
  intro T hT
  obtain ⟨pairs, T', hrun, hevolved, _, _⟩ := exists_freshFor hT.wellFormed vs
  rw [hrun]
  exact hT.trans hevolved

theorem keeps_instantiate (s : Scheme) : Keeps T₀.Evolved (instantiate s) := by
  unfold instantiate
  split
  · exact keeps_pure _
  · exact (keeps_freshFor s.vars).bind fun _ => keeps_read _

theorem keeps_refresh (t : Ty) (known : Context) : Keeps T₀.Evolved (refresh t known) :=
  (keeps_read _).bind fun scheme => keeps_instantiate scheme

end Table

namespace Conversion

variable {T₀ : Table}

theorem keeps_param (name : String) :
    Keeps (fun c : Conversion => T₀.Evolved c.table) (param name) := by
  intro c hc
  unfold param
  split
  · exact hc
  · exact hc.fresh

private theorem keeps_convertAll {es : List TypeExpr}
    (h : ∀ e ∈ es, Keeps (fun c : Conversion => T₀.Evolved c.table) (convert e)) :
    Keeps (fun c : Conversion => T₀.Evolved c.table) (convertAll es) := by
  induction es with
  | nil =>
    rw [convertAll]
    exact keeps_pure _
  | cons e es ih =>
    rw [convertAll]
    exact (h e List.mem_cons_self).bind fun _ =>
      (ih fun e he => h e (List.mem_cons_of_mem _ he)).bind fun _ => keeps_pure _

theorem keeps_convert (e : TypeExpr) :
    Keeps (fun c : Conversion => T₀.Evolved c.table) (convert e) := by
  induction e using TypeExpr.induction_on with
  | node name params parameter span ih =>
    rw [convert]
    split
    · split
      · exact keeps_param name
      · exact keeps_fail _
    · exact (keeps_convertAll ih).bind fun _ => keeps_pure _

end Conversion

theorem TypeExpr.keeps_toTy {T₀ : Table} (e : TypeExpr) : Keeps T₀.Evolved e.toTy := by
  intro T hT
  have hconvert := Conversion.keeps_convert e ⟨T, ∅⟩ hT
  unfold TypeExpr.toTy
  split
  · rename_i hrun
    rw [hrun] at hconvert
    exact hconvert
  · rename_i hrun
    rw [hrun] at hconvert
    exact hconvert
  · trivial

namespace Builder

variable {T₀ : Table}

theorem evolved_perform {b b' : Builder} {call : Call} (h : b.perform call = .ok b')
    (hb : T₀.Evolved b.table) : T₀.Evolved b'.table := by
  have happend : ∀ {c : Builder} {v : ValueId}, c.append v = .ok b' → T₀.Evolved c.table →
      T₀.Evolved b'.table := by
    intro c v hc hT
    unfold append at hc
    split at hc
    · obtain rfl := Except.ok.inj hc
      exact hT
    · cases hc
  cases call with
  | arg | global =>
    obtain rfl := Except.ok.inj h
    exact hb.fresh
  | int | float | block | «at» =>
    obtain rfl := Except.ok.inj h
    exact hb
  | instr i =>
    cases i with
    | branch | jump => exact happend h hb
    | _ => exact happend h hb.fresh

/-- What holds of a builder at the start, and is kept by every call, holds of it
after any sequence of calls. -/
theorem foldlM_induct {P : Builder → Prop}
    (hstep : ∀ b call b', P b → b.perform call = .ok b' → P b') {b b' : Builder}
    {calls : List Call} (hb : P b) (h : calls.foldlM perform b = .ok b') : P b' := by
  induction calls generalizing b with
  | nil =>
    obtain rfl := Except.ok.inj h
    exact hb
  | cons call calls ih =>
    rw [List.foldlM_cons] at h
    cases hcall : b.perform call with
    | error f =>
      rw [hcall] at h
      cases h
    | ok c =>
      rw [hcall] at h
      exact ih (hstep b call c hb hcall) h

end Builder

theorem Func.build_induct {P : Builder → Prop}
    (hstep : ∀ b call b', P b → b.perform call = .ok b' → P b') {T T' : Table} {name : String}
    {calls : List Builder.Call} {f : Func} (hstart : P (Builder.start name T))
    (h : Func.build name calls T = .ok (f, T')) : ∃ b, b.func = f ∧ b.table = T' ∧ P b := by
  unfold Func.build at h
  cases hcalls : calls.foldlM Builder.perform (Builder.start name T) with
  | error f =>
    rw [hcalls] at h
    cases h
  | ok b =>
    rw [hcalls] at h
    cases h
    exact ⟨b, rfl, rfl, Builder.foldlM_induct hstep hstart hcalls⟩

theorem Func.evolved_build {T₀ T T' : Table} {name : String} {calls : List Builder.Call} {f : Func}
    (h : Func.build name calls T = .ok (f, T')) (hT : T₀.Evolved T) : T₀.Evolved T' := by
  obtain ⟨b, _, rfl, hb⟩ := Func.build_induct (P := fun b => T₀.Evolved b.table)
    (fun b call b' hb hcall => Builder.evolved_perform hcall hb) hT.fresh h
  exact hb

namespace Deduction

variable {T₀ : Table}

/-- Typing moves the table by changes, whatever types it meets. -/
theorem evolved_invariant (env : Env) (f : Func) :
    Invariant (fun d => T₀.Evolved d.table) (fun _ => True) env f where
  unify := fun a b origin _ _ => (Table.keeps_unify a b origin).zoom fun _ _ => rfl
  instantiate := fun _ s _ => ((Table.keeps_instantiate s).zoom fun _ _ => rfl).yields
  known := fun _ _ _ _ _ => trivial
  record := fun _ _ _ _ _ _ => keeps_modify fun _ hd => hd
  own := fun _ _ _ => trivial
  ret := trivial
  bool := trivial
  unit := trivial
  curried := fun _ _ _ _ => trivial

end Deduction

theorem Func.keeps_infer {T₀ : Table} (f : Func) (env : Env) :
    Keeps T₀.Evolved (f.infer env) := by
  intro T hT
  refine ((Deduction.evolved_invariant env f).infer hT).mono ?_ ?_
  · intro _ T' h
    exact h.elim fun _ hT' => hT'
  · intro _ T' h
    exact h.elim fun _ hT' => hT'

namespace Inference

variable {T₀ : Table}

theorem keeps_inferFunc (f : Func) :
    Keeps (fun s : Inference => T₀.Evolved s.table) (inferFunc f) := by
  have hpublish : ∀ scheme, Keeps (fun s : Inference => T₀.Evolved s.table)
      (Action.modify fun s => { s with env := s.env.insert f.name scheme } :
        Action Inference TypeError Unit) :=
    fun _ => keeps_modify fun _ hs => hs
  unfold inferFunc
  refine (keeps_read _).bind fun own => (hpublish _).bind fun _ => ?_
  refine keeps_get.bind fun s => ((Func.keeps_infer f s.env).zoom fun _ _ => rfl).bind fun t => ?_
  exact (keeps_read _).bind fun scheme => (hpublish _).bind fun _ => keeps_pure _

theorem keeps_inferProgram (funcs : List Func) :
    Keeps (fun s : Inference => T₀.Evolved s.table) (inferProgram funcs) :=
  Keeps.mapM fun f _ => keeps_inferFunc f

end Inference

namespace Table

variable {T₀ T T' : Table}

/-- Whatever an operation does to the table, it does by changes. -/
theorem Operation.evolved {op : Operation} (h : op.after T = some T') (hT : T₀.Evolved T) :
    T₀.Evolved T' := by
  cases op with
  | fresh =>
    obtain rfl := Option.some.inj h
    exact hT.fresh
  | union v t origin => exact (keeps_union v t origin).state hT h
  | unify a b origin => exact (keeps_unify a b origin).state hT h
  | generalize t known =>
    obtain ⟨_, _, rfl⟩ := Option.map_eq_some_iff.1 h
    exact hT
  | instantiate s => exact (keeps_instantiate s).state hT h
  | refresh t known => exact (keeps_refresh t known).state hT h
  | convert e => exact (TypeExpr.keeps_toTy e).state hT h
  | build name calls =>
    obtain ⟨p, hp, rfl⟩ := Option.map_eq_some_iff.1 h
    cases hbuild : Func.build name calls T with
    | error f =>
      rw [hbuild] at hp
      cases hp
    | ok q =>
      rw [hbuild] at hp
      obtain rfl := Option.some.inj hp
      exact Func.evolved_build hbuild hT
  | deduce env f known v =>
    obtain ⟨d, hd, rfl⟩ := Option.map_eq_some_iff.1 h
    exact ((Deduction.evolved_invariant env f).deduceWithin _ v).keeps.state hT hd
  | infer env f => exact (Func.keeps_infer f env).state hT h
  | inferProgram env funcs =>
    obtain ⟨s, hs, rfl⟩ := Option.map_eq_some_iff.1 h
    exact (Inference.keeps_inferProgram funcs).state hT hs

theorem Leads.evolved (h : T.Leads T') (hT : T.WellFormed) : T.Evolved T' := by
  induction h with
  | refl => exact hT.evolved
  | tail _ hop ih =>
    obtain ⟨op, hop⟩ := hop
    exact op.evolved hop ih

theorem Reachable.wellFormed (h : T.Reachable) : T.WellFormed :=
  (Leads.evolved h wellFormed_empty).wellFormed

theorem Reachable.after (h : T.Reachable) (op : Operation) (hop : op.after T = some T') :
    T'.Reachable :=
  h.tail ⟨op, hop⟩

/-! ## Unification in reachable tables -/

variable {a b : Ty} {origin : Origin}

/-- Unification is sound and most general: the solutions of the table afterwards
are the solutions it had before that make the two types equal. In particular both
types are resolved to the same type. -/
theorem unify_mostGeneral (hT : T.Reachable) (h : unify a b origin T = .ok () T') :
    (∀ s, T'.Solves s ↔ T.Solves s ∧ a.subst s = b.subst s) ∧
      ∃ t, T'.resolve a = .ok t ∧ T'.resolve b = .ok t := by
  have hsolved : T.Solved a b T' := by
    have hdecides : T.Decides a b (unify a b origin T) := unify_decides hT.wellFormed
    rw [h] at hdecides
    exact hdecides
  exact ⟨hsolved.solves_iff, agree_iff_resolve.1 (hsolved.agree hT.wellFormed)⟩

/-- The second argument meets the binding that the first one has made. -/
theorem unify_mostGeneral_pair :
    ∃ T T', T.Reachable ∧
      unify (.con "Pair" [.var 0, .con "List" [.var 1]]) (.con "Pair" [.con "List" [.var 2], .var 0])
        .builtin T = .ok () T' ∧
      (∀ s, T'.Solves s ↔ T.Solves s ∧
        (Ty.con "Pair" [.var 0, .con "List" [.var 1]]).subst s =
          (Ty.con "Pair" [.con "List" [.var 2], .var 0]).subst s) ∧
      ∃ t, T'.resolve (.con "Pair" [.var 0, .con "List" [.var 1]]) = .ok t ∧
        T'.resolve (.con "Pair" [.con "List" [.var 2], .var 0]) = .ok t := by
  have hT : empty.fresh.2.fresh.2.fresh.2.Reachable :=
    (((Relation.ReflTransGen.refl.tail ⟨.fresh, rfl⟩).tail ⟨.fresh, rfl⟩).tail ⟨.fresh, rfl⟩)
  obtain ⟨T', hrun⟩ : ∃ T', unify (.con "Pair" [.var 0, .con "List" [.var 1]])
      (.con "Pair" [.con "List" [.var 2], .var 0]) .builtin empty.fresh.2.fresh.2.fresh.2 =
        .ok () T' := ⟨_, rfl⟩
  exact ⟨_, T', hT, hrun, unify_mostGeneral hT hrun⟩

/-- Unification is refused exactly if the equation has no solution. -/
theorem unify_refused_iff (hT : T.Reachable) (ha : T.Covers a) (hb : T.Covers b)
    (origin : Origin) :
    (∃ e T', unify a b origin T = .error e T') ↔
      ∀ s, T.Solves s → a.subst s ≠ b.subst s := by
  have hdecides : T.Decides a b (unify a b origin T) := unify_decides hT.wellFormed
  constructor
  · intro h
    obtain ⟨e, T', h⟩ := h
    rw [h] at hdecides
    exact hdecides.unsolvable
  · intro hnone
    have hreturns : (unify a b origin T).Returns := unify_returns hT.wellFormed ha hb
    cases hrun : unify a b origin T with
    | ok u T₁ =>
      rw [hrun] at hdecides
      obtain ⟨s, hs⟩ := (hdecides.steps.wellFormed hT.wellFormed).solvable
      obtain ⟨hs, heq⟩ := (hdecides.solves_iff s).1 hs
      exact absurd heq (hnone s hs)
    | error e T₁ => exact ⟨e, T₁, rfl⟩
    | fault f =>
      rw [hrun] at hreturns
      obtain ⟨T', hstate⟩ := hreturns
      cases hstate

/-- After `t0 = List t1`, the equation `t1 = List t0` would make a type contain
itself. -/
theorem unify_refused_iff_circle :
    ∃ T : Table, T.Reachable ∧ T.Covers (.var 1) ∧ T.Covers (.con "List" [.var 0]) ∧
      (∃ e T', unify (.var 1) (.con "List" [.var 0]) .builtin T = .error e T') ∧
      ∀ s, T.Solves s → (Ty.var 1).subst s ≠ (Ty.con "List" [.var 0]).subst s := by
  have hfresh : empty.fresh.2.fresh.2.Reachable :=
    (Relation.ReflTransGen.refl.tail ⟨.fresh, rfl⟩).tail ⟨.fresh, rfl⟩
  have hT := hfresh.after (.unify (.var 0) (.con "List" [.var 1]) .builtin) rfl
  exact ⟨_, hT, by decide, by decide, ⟨_, _, rfl⟩,
    (unify_refused_iff hT (by decide) (by decide) .builtin).1 ⟨_, _, rfl⟩⟩

/-! ## Walks along bindings -/

theorem exists_substituteWithin (hT : T.WellFormed) {level : TyVar → Nat} (hl : T.IsLevel level)
    (pairs : List (TyVar × TyVar)) {n : Nat} {t : Ty} (ht : T.Covers t)
    (hn : ∀ v ∈ t.occurrences, level v < n) : ∃ u, T.substituteWithin pairs n t = .ok u := by
  induction n generalizing t with
  | zero => exact Ty.exists_fill fun v hv => absurd (hn v hv) (Nat.not_lt_zero _)
  | succ n ih =>
    refine Ty.exists_fill fun v hv => ?_
    cases replacement? pairs v with
    | some w => exact ⟨_, rfl⟩
    | none =>
      refine exists_follow hT (ht v hv) (fun _ => ⟨_, rfl⟩) fun r t' hclass => ?_
      refine ih (hT.covered hclass) fun w hw => ?_
      have hdown := hl.down hclass w hw
      have hlt := hn v hv
      omega

theorem exists_substitute (hT : T.WellFormed) (pairs : List (TyVar × TyVar)) {t : Ty}
    (ht : T.Covers t) : ∃ u, T.substitute pairs t = .ok u := by
  obtain ⟨level, hl⟩ := exists_isLevel hT
  exact exists_substituteWithin hT hl pairs ht fun v hv => hl.lt_size v (ht v hv)

/-- Classes are bound to applications, and can be ordered so that the binding of a
class mentions smaller classes only. Hence every walk along bindings ends: none of
the calls that follow them runs into its bound. -/
theorem bindings_acyclic (hT : T.Reachable) :
    (∀ v r t, T.classOf v = .ok (r, some t) → ∃ name args, t = .con name args) ∧
    (∃ level : TyVar → Nat, ∀ v r t, T.classOf v = .ok (r, some t) → ∀ w ∈ t.occurrences,
      ∃ q c, T.classOf w = .ok (q, c) ∧ level q < level r) ∧
    ∀ t, T.Covers t →
      (∃ u, T.find t = .ok u) ∧ (∃ u, T.resolve t = .ok u) ∧
      (∀ v, v < T.size → ∃ c, T.occurs v t = .ok c) ∧
      (∀ pairs, ∃ u, T.substitute pairs t = .ok u) ∧
      (∀ v origin, v < T.size → (union v t origin T).Returns) ∧
      ∀ u origin, T.Covers u → (unify t u origin T).Returns := by
  have hwf := hT.wellFormed
  refine ⟨fun v r t => hwf.named, ?_, fun t ht => ?_⟩
  · obtain ⟨level, hl⟩ := exists_isLevel hwf
    refine ⟨level, fun v r t hclass w hw => ?_⟩
    obtain ⟨q, c, hq⟩ := hwf.created w (hwf.covered hclass w hw)
    refine ⟨q, c, hq, ?_⟩
    have hdown := hl.down (hwf.rooted hclass) w hw
    rw [hl.same ⟨q, c, hq, hwf.rooted hq⟩] at hdown
    exact hdown
  · exact ⟨exists_find hwf ht, exists_resolve hwf ht, fun v hv => exists_occurs hwf hv ht,
      fun pairs => exists_substitute hwf pairs ht, fun v origin hv => union_returns hwf hv ht,
      fun u origin hu => unify_returns hwf ht hu⟩

/-- A chain of two bindings, followed to its end. -/
theorem bindings_acyclic_chain :
    ∃ T : Table, T.Reachable ∧ T.classOf 0 = .ok (0, some (.con "List" [.var 1])) ∧
      T.classOf 1 = .ok (1, some (.con "List" [.var 2])) ∧ T.Covers (.var 0) ∧
      ∃ u, T.resolve (.var 0) = .ok u := by
  have hfresh : empty.fresh.2.fresh.2.fresh.2.Reachable :=
    ((Relation.ReflTransGen.refl.tail ⟨.fresh, rfl⟩).tail ⟨.fresh, rfl⟩).tail ⟨.fresh, rfl⟩
  have hfirst := hfresh.after (.unify (.var 0) (.con "List" [.var 1]) .builtin) rfl
  have hT := hfirst.after (.unify (.var 1) (.con "List" [.var 2]) .builtin) rfl
  exact ⟨_, hT, rfl, rfl, by decide, ((bindings_acyclic hT).2.2 (.var 0) (by decide)).2.1⟩

/-! ## The occurs check -/

/-- What is left in a resolved type is the representative of a free class. -/
theorem free_of_mem_resolved (hT : T.WellFormed) {t : Ty} (ht : T.Covers t) {w : TyVar}
    (hw : w ∈ (t.subst T.solution).occurrences) : T.classOf w = .ok (w, none) := by
  obtain ⟨v, hv, hw⟩ := Ty.mem_occurrences_subst.1 hw
  exact free_of_mem_solution hT (ht v hv) hw

/-- The occurs check comes to an answer, and the answer is exact: an unknown occurs in a
type if and only if its class is free and the representative of the class is left in the
resolved type. -/
theorem occurs_iff_resolved (hT : T.Reachable) {v : TyVar} (hv : v < T.size) {t : Ty}
    (ht : T.Covers t) :
    ∃ found root binding u, T.occurs v t = .ok found ∧ T.classOf v = .ok (root, binding) ∧
      T.resolve t = .ok u ∧ (found = true ↔ binding = none ∧ root ∈ u.vars) := by
  have hwf := hT.wellFormed
  obtain ⟨found, hfound⟩ := exists_occurs hwf hv ht
  obtain ⟨root, binding, hroot⟩ := hwf.created v hv
  refine ⟨found, root, binding, t.subst T.solution, hfound, hroot, resolve_eq hwf ht, ?_⟩
  rw [Ty.vars, List.mem_eraseDups]
  constructor
  · rintro rfl
    have hmem := mem_solution_of_occurs hwf hroot hfound
    -- A representative that is left has a free class, and it is the class of the unknown.
    have hfree := free_of_mem_resolved hwf ht hmem
    rw [hwf.rooted hroot] at hfree
    cases hfree
    exact ⟨rfl, hmem⟩
  · rintro ⟨-, hmem⟩
    cases found with
    | true => rfl
    | false => exact absurd hmem (not_mem_solution_of_occurs hwf hroot hfound)

/-- A refused unification leaves `t0` and `t1` joined, and `t2` is bound to a list of `t0`
afterwards.  The check finds `t1` behind the binding of `t2`, under its representative. -/
theorem occurs_iff_resolved_joined :
    ∃ T₀ T₁ T : Table, T₀.Reachable ∧
      unify (.con "Pair" [.var 1, .var 0]) (.con "Pair" [.var 0, .con "List" [.var 1]])
        .builtin T₀ = .error (.infiniteType 0 (.con "List" [.var 0]) .builtin) T₁ ∧
      unify (.var 2) (.con "List" [.var 0]) .builtin T₁ = .ok () T ∧
      T.Reachable ∧ 1 < T.size ∧ T.Covers (.var 2) ∧ T.occurs 1 (.var 2) = .ok true ∧
      ∃ found root binding u, T.occurs 1 (.var 2) = .ok found ∧
        T.classOf 1 = .ok (root, binding) ∧ T.resolve (.var 2) = .ok u ∧
        (found = true ↔ binding = none ∧ root ∈ u.vars) := by
  have hfresh : empty.fresh.2.fresh.2.fresh.2.Reachable :=
    ((Relation.ReflTransGen.refl.tail ⟨.fresh, rfl⟩).tail ⟨.fresh, rfl⟩).tail ⟨.fresh, rfl⟩
  let joined : Table := ⟨#[⟨0, 1, none⟩, ⟨0, 0, none⟩, ⟨2, 0, none⟩]⟩
  have hrefused : unify (.con "Pair" [.var 1, .var 0])
      (.con "Pair" [.var 0, .con "List" [.var 1]]) .builtin empty.fresh.2.fresh.2.fresh.2 =
        .error (.infiniteType 0 (.con "List" [.var 0]) .builtin) joined := by
    decide +kernel
  have hjoined : joined.Reachable := hfresh.after (.unify _ _ .builtin) (by
    rw [Operation.after, hrefused, Outcome.state?_error])
  have hT := hjoined.after (.unify (.var 2) (.con "List" [.var 0]) .builtin) rfl
  exact ⟨_, joined, _, hfresh, hrefused, rfl, hT, by decide, by decide, rfl,
    occurs_iff_resolved hT (by decide) (by decide)⟩

end Table

end TypeLayer
