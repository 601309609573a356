import TypeLayer.Function.Typing
import TypeLayer.Proofs.Outcome

/-!
# Invariants of typing

Typing a function touches the table and the known types in a few ways only: it
makes types equal, uses schemes, and makes types of values known.  A property of
deductions that these keep, as long as the types they are called with have a property
of types, is an `Invariant`; typing any number of values keeps it.
-/

namespace TypeLayer.Deduction

open TypeLayer.Action

/-- What the steps of typing a function keep: `P` of the deduction, and `V` of every
type that is found on the way. -/
structure Invariant (P : Deduction → Prop) (V : Ty → Prop) (env : Env) (f : Func) : Prop where
  unify : ∀ a b origin, V a → V b → Keeps P (unify a b origin)
  instantiate : ∀ name s, env.get? name = some s → Yields P V (solve (Table.instantiate s))
  known : ∀ d v t, P d → d.known.get? v = some t → V t
  /-- A value that refers to a function is recorded with the type it was given. -/
  record : ∀ (v : ValueId) (value : Value) t, f.values[v]? = some value →
    (∀ name, value.kind = .global name → t = value.ty) → V t → Keeps P (record v t)
  own : ∀ (v : ValueId) (value : Value), f.values[v]? = some value → V value.ty
  ret : V f.ret
  bool : V Ty.bool
  unit : V Ty.unit
  curried : ∀ ts t, (∀ u ∈ ts, V u) → V t → V (Ty.curried ts t)

namespace Invariant

variable {P : Deduction → Prop} {V : Ty → Prop} {env : Env} {f : Func}
  {operand : ValueId → Deduce Ty}

/-- A type is found once an equation between two types is imposed. -/
theorem unify_pure (h : Invariant P V env f) {a b t : Ty} (ha : V a) (hb : V b) (ht : V t)
    (origin : Origin) :
    Yields P V (do Deduction.unify a b origin; return t : Deduce Ty) :=
  (h.unify a b origin ha hb).yields.bind fun _ _ => yields_pure ht

theorem instrType (h : Invariant P V env f) (hoperand : ∀ o, Yields P V (operand o))
    (id : ValueId) {own : Ty} (hown : V own) (i : Instr) :
    Yields P V (instrType f operand id own i) := by
  cases i with
  | alloc => exact yields_pure hown
  | store dst src =>
    exact (hoperand dst).bind fun _ hd => (hoperand src).bind fun _ hs => h.unify_pure hd hs hd _
  | load src => exact (hoperand src).bind fun _ hs => h.unify_pure hown hs hs _
  | ret value => exact (hoperand value).bind fun _ hv => h.unify_pure h.ret hv hv _
  | binary op lhs rhs =>
    exact (hoperand lhs).bind fun _ hl => (hoperand rhs).bind fun _ hr =>
      (h.unify _ _ _ hl hr).yields.bind fun _ _ => h.unify_pure hown hl hown _
  | call callee args =>
    exact (hoperand callee).bind fun _ hc => (Yields.mapM fun o _ => hoperand o).bind fun _ hargs =>
      h.unify_pure hc (h.curried _ _ hargs hown) hown _
  | branch cond thenBlock elseBlock =>
    exact (hoperand cond).bind fun _ hc => h.unify_pure h.bool hc h.unit _
  | jump target => exact yields_pure h.unit

theorem valueType (h : Invariant P V env f) (hoperand : ∀ o, Yields P V (operand o))
    {id : ValueId} {value : Value} (hid : f.values[id]? = some value) :
    Yields P (fun t => V t ∧ ∀ name, value.kind = .global name → t = value.ty)
      (valueType env f operand id value) := by
  have hown := h.own id value hid
  obtain ⟨kind, own⟩ := value
  cases kind with
  | int | float | arg =>
    refine yields_pure ⟨hown, fun _ heq => ?_⟩
    cases heq
  | global name =>
    simp only [Deduction.valueType]
    cases hs : env.get? name with
    | none => exact yields_fail _
    | some s =>
      exact (h.instantiate name s hs).bind fun t ht => (h.unify _ _ _ hown ht).yields.bind
        fun _ _ => yields_pure ⟨hown, fun _ _ => rfl⟩
  | instr i =>
    refine fun d hd => (h.instrType hoperand id hown i d hd).mono (fun t d' ht => ?_) fun _ _ h => h
    refine ⟨ht.1, ht.2, fun _ heq => ?_⟩
    cases heq

theorem deduceWithin (h : Invariant P V env f) (depth : Nat) (id : ValueId) :
    Yields P V (deduceWithin env f depth id) := by
  induction depth generalizing id with
  | zero => exact fun _ _ => trivial
  | succ depth ih =>
    intro d hd
    rw [Deduction.deduceWithin, bind_apply, get_apply]
    dsimp only
    cases hknown : d.known.get? id with
    | some t => exact ⟨hd, h.known d id t hd hknown⟩
    | none =>
      refine meets_read_bind fun value hvalue => ?_
      have hid : f.values[id]? = some value := by
        unfold Func.value at hvalue
        split at hvalue
        · rename_i heq
          obtain rfl := Except.ok.inj hvalue
          exact heq
        · cases hvalue
      refine (h.valueType ih hid).bind (fun t ht => ?_) d hd
      exact (h.record id value t hid ht.2 ht.1).yields.bind fun _ _ => yields_pure ht.1

theorem deduceEach (h : Invariant P V env f) (vs : List ValueId) :
    Keeps P (deduceEach env f vs) := by
  induction vs with
  | nil => exact keeps_pure _
  | cons v vs ih => exact (h.deduceWithin _ v).keeps.bind fun _ => ih

/-- Typing the function as a whole leaves the table of a deduction with the
property. -/
theorem infer (h : Invariant P V env f) {T : Table} (hT : P ⟨T, ∅⟩) :
    (f.infer env T).Meets (fun _ T' => ∃ G, P ⟨T', G⟩) (fun _ T' => ∃ G, P ⟨T', G⟩) := by
  have hall := h.deduceEach (f.args ++ f.instrs) ⟨T, ∅⟩ hT
  unfold Func.infer deduceAll
  split
  · rename_i d hrun
    rw [hrun] at hall
    exact meets_read fun _ _ => ⟨d.known, hall⟩
  · rename_i e d hrun
    rw [hrun] at hall
    exact ⟨d.known, hall⟩
  · trivial

end Invariant

end TypeLayer.Deduction
