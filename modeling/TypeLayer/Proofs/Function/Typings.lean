import Mathlib.Data.List.Nodup
import TypeLayer.Proofs.Function.Soundness

/-!
# Typings of a function

Typing a function looks at the values that can be reached from its arguments and
instructions (`Func.Reaches`), and at the schemes of the functions that these
mention (`Deduction.infer_congr`).  A `Func.Typing` gives a type to every value, and
one to the result, such that the rule of every value that is reached holds
literally.

A function that has just been built is nothing but new unknowns: each of its values
that has no fixed type has an unknown of its own, and so has its result
(`Func.Built`).  As long as these are independent in the table, every typing of the
function is part of a solution of the table (`Func.Built.exists_solves`).
-/

namespace TypeLayer

open TypeLayer.Action

/-- The map with only the keys that pass a test. -/
def Assoc.filterKeys {κ α : Type} (m : Assoc κ α) (test : κ → Bool) : Assoc κ α :=
  ⟨m.entries.filter fun e => test e.1⟩

theorem Assoc.get?_filterKeys {κ α : Type} [DecidableEq κ] (m : Assoc κ α) (test : κ → Bool)
    (k : κ) : (m.filterKeys test).get? k = if test k then m.get? k else none := by
  obtain ⟨entries⟩ := m
  unfold filterKeys get?
  induction entries with
  | nil => simp [find?]
  | cons e rest ih =>
    obtain ⟨j, a⟩ := e
    by_cases hj : j = k
    · subst hj
      by_cases htest : test j <;> simp_all [find?]
    · by_cases htest : test j <;> simp_all [find?]

/-! ## Values that are reached -/

namespace Func

/-- The value is an argument or an instruction of a block, or used by such a value,
directly or through others. -/
def Reaches (f : Func) (v : ValueId) : Prop :=
  ∃ u ∈ f.args ++ f.instrs, Relation.ReflTransGen (fun v o => o ∈ f.operands v) u v

/-- Some value that is reached refers to the function of that name. -/
def Mentions (f : Func) (name : String) : Prop :=
  ∃ v own, f.Reaches v ∧ f.values[v]? = some ⟨.global name, own⟩

variable {f : Func} {v o : ValueId}

theorem reaches_of_mem (h : v ∈ f.args ++ f.instrs) : f.Reaches v :=
  ⟨v, h, .refl⟩

theorem Reaches.operand (h : f.Reaches v) (ho : o ∈ f.operands v) : f.Reaches o := by
  obtain ⟨u, hu, hpath⟩ := h
  exact ⟨u, hu, hpath.tail ho⟩

theorem Reaches.lt_size (h : f.Reaches v) {T : Table} (hf : f.Scoped T) (hrange : f.InRange) :
    v < f.values.size := by
  obtain ⟨u, hu, hpath⟩ := h
  induction hpath with
  | refl => exact hf.lt_size u hu
  | tail _ ho ih => exact hrange _ ih _ ho

/-- The type that a value was built with. -/
def typeOf (f : Func) (v : ValueId) : Ty :=
  (f.values[v]?.map Value.ty).getD Ty.unit

theorem typeOf_eq {value : Value} (h : f.values[v]? = some value) : f.typeOf v = value.ty := by
  rw [typeOf, h]
  rfl

/-- The type of the function in terms of the types that it was built with. -/
def prototype (f : Func) : Ty :=
  Ty.curried (f.args.map f.typeOf) f.ret

theorem map_ty_eq {vs : List ValueId} {values : List Value} (h : vs.mapM f.value = .ok values) :
    values.map Value.ty = vs.map f.typeOf := by
  induction vs generalizing values with
  | nil =>
    obtain rfl := Except.ok.inj h
    rfl
  | cons v vs ih =>
    rw [List.mapM_cons] at h
    cases hget : f.values[v]? with
    | none => simp [Func.value, hget, Bind.bind, Except.bind] at h
    | some value =>
      have hvalue : f.value v = .ok value := by simp only [Func.value, hget]
      cases hrest : vs.mapM f.value with
      | error e => simp [hvalue, hrest, Bind.bind, Except.bind] at h
      | ok rest =>
        simp only [hvalue, hrest, Bind.bind, Except.bind, pure, Except.pure, Except.ok.injEq] at h
        rw [← h, List.map_cons, List.map_cons, ih hrest, typeOf_eq hget]

/-- A function that has a type has its prototype. -/
theorem eq_prototype {t : Ty} (h : f.signature = .ok t) : t = f.prototype := by
  unfold signature at h
  cases hargs : f.args.mapM f.value with
  | error e => simp [hargs, Bind.bind, Except.bind] at h
  | ok values =>
    simp only [hargs, Bind.bind, Except.bind, pure, Except.pure, Except.ok.injEq] at h
    rw [← h, prototype, map_ty_eq hargs]

theorem signature_eq {T : Table} (hf : f.Scoped T) : f.signature = .ok f.prototype := by
  have hvalues : ∀ vs ⊆ f.args, ∃ values, vs.mapM f.value = .ok values := by
    intro vs hvs
    induction vs with
    | nil => exact ⟨[], rfl⟩
    | cons v vs ih =>
      obtain ⟨hv, hvs⟩ := List.cons_subset.1 hvs
      obtain ⟨values, hrun⟩ := ih hvs
      obtain ⟨index, own, hown⟩ := hf.arg v hv
      have hvalue : f.value v = .ok ⟨.arg index, own⟩ := by simp only [Func.value, hown]
      refine ⟨⟨.arg index, own⟩ :: values, ?_⟩
      rw [List.mapM_cons, hvalue, hrun]
      rfl
  obtain ⟨values, hrun⟩ := hvalues f.args (List.Subset.refl _)
  unfold signature prototype
  rw [hrun, ← map_ty_eq hrun]
  rfl

theorem covers_prototype {T : Table} (hf : f.Scoped T) : T.Covers f.prototype := by
  refine Table.covers_curried.2 ⟨fun u hu => ?_, hf.ret⟩
  obtain ⟨v, hv, rfl⟩ := List.mem_map.1 hu
  obtain ⟨index, own, hown⟩ := hf.arg v hv
  rw [typeOf_eq hown]
  exact hf.own v _ hown

end Func

namespace Deduction

variable {f : Func} {env env' : Env}

theorem mapM_congr {operand operand' : ValueId → Deduce Ty} {vs : List ValueId}
    (h : ∀ v ∈ vs, operand v = operand' v) : vs.mapM operand = vs.mapM operand' := by
  induction vs with
  | nil => rfl
  | cons v vs ih =>
    obtain ⟨hv, hvs⟩ := List.forall_mem_cons.1 h
    rw [List.mapM_cons, List.mapM_cons, hv, ih hvs]

/-- An instruction asks for its operands only. -/
theorem instrType_congr {operand operand' : ValueId → Deduce Ty} {i : Instr}
    (h : ∀ o ∈ i.operands, operand o = operand' o) (id : ValueId) (own : Ty) :
    instrType f operand id own i = instrType f operand' id own i := by
  cases i with
  | alloc | jump target => rfl
  | store dst src | binary op dst src =>
    simp only [instrType]
    rw [h dst (by simp [Instr.operands]), h src (by simp [Instr.operands])]
  | load src | ret src | branch src thenBlock elseBlock =>
    simp only [instrType]
    rw [h src (by simp [Instr.operands])]
  | call callee args =>
    simp only [instrType]
    rw [h callee (by simp [Instr.operands]),
      mapM_congr fun o ho => h o (by simp [Instr.operands, ho])]

theorem deduceWithin_congr (henv : ∀ name, f.Mentions name → env.get? name = env'.get? name)
    (depth : Nat) {id : ValueId} (hid : f.Reaches id) :
    deduceWithin env f depth id = deduceWithin env' f depth id := by
  induction depth generalizing id with
  | zero => rfl
  | succ depth ih =>
    have hvalue : ∀ value, f.values[id]? = some value →
        valueType env f (deduceWithin env f depth) id value =
          valueType env' f (deduceWithin env' f depth) id value := by
      intro value hvalue
      obtain ⟨kind, own⟩ := value
      cases kind with
      | int n | float | arg index => rfl
      | global name =>
        simp only [valueType]
        rw [henv name ⟨id, own, hid, hvalue⟩]
      | instr i =>
        refine instrType_congr (fun o ho => ih (hid.operand ?_)) id own
        rw [Func.operands_of_instr hvalue]
        exact ho
    funext d
    cases hknown : d.known.get? id with
    | some t => rw [Setting.deduceWithin_known hknown, Setting.deduceWithin_known hknown]
    | none =>
      cases hget : f.values[id]? with
      | none =>
        simp only [deduceWithin, bind_apply, get_apply, hknown, Func.value, hget, Action.read]
      | some value =>
        rw [Setting.deduceWithin_unknown hknown hget, Setting.deduceWithin_unknown hknown hget,
          hvalue value hget]

/-- Only the schemes of functions that are mentioned count. -/
theorem infer_congr (henv : ∀ name, f.Mentions name → env.get? name = env'.get? name) :
    f.infer env = f.infer env' := by
  have heach : ∀ vs, (∀ v ∈ vs, f.Reaches v) → deduceEach env f vs = deduceEach env' f vs := by
    intro vs hvs
    induction vs with
    | nil => rfl
    | cons v vs ih =>
      obtain ⟨hv, hvs⟩ := List.forall_mem_cons.1 hvs
      simp only [deduceEach, deduce]
      rw [deduceWithin_congr henv _ hv, ih hvs]
  funext T
  unfold Func.infer deduceAll
  rw [heach _ fun v hv => Func.reaches_of_mem hv]

/-- Once all its values have been typed, the type of a function is found by resolving
its prototype. -/
theorem infer_of_deduceAll {T : Table} {d : Deduction} (hrun : deduceAll env f ⟨T, ∅⟩ = .ok () d)
    (hd : d.table.WellFormed) (hf : f.Scoped d.table) :
    f.infer env T = .ok (f.prototype.subst d.table.solution) d.table := by
  unfold Func.infer
  rw [hrun, Func.signature_eq hf]
  simp only [Action.read, Bind.bind, Except.bind, Table.resolve_eq hd (Func.covers_prototype hf)]

end Deduction

/-! ## Typings -/

namespace Func

/-- A type for every value and one for the result, under which the rules of all
values that are reached hold. The type that a value is given takes the place of the
type it was built with. -/
structure Typing (f : Func) (env : Env) where
  type : ValueId → Ty
  result : Ty
  typed : ∀ v value, f.Reaches v → f.values[v]? = some value →
    { value with ty := type v }.Typed (· = ·) env result (fun o => some (type o)) (type v)

variable {f : Func} {env env' : Env}

/-- The type of the function under a typing. -/
def Typing.signature (τ : f.Typing env) : Ty :=
  Ty.curried (f.args.map τ.type) τ.result

/-- A typing under schemes that are the same as far as they are mentioned. -/
def Typing.transfer (τ : f.Typing env)
    (henv : ∀ name, f.Mentions name → env.get? name = env'.get? name) : f.Typing env' where
  type := τ.type
  result := τ.result
  typed := fun v value hv hvalue => by
    have htyped := τ.typed v value hv hvalue
    obtain ⟨kind, own⟩ := value
    cases kind with
    | global name =>
      obtain ⟨s, u, hs, hinstance, heq⟩ := htyped
      exact ⟨s, u, (henv name ⟨v, own, hv, hvalue⟩).symm.trans hs, hinstance, heq⟩
    | _ => exact htyped

end Func

/-- An instance of a closed scheme goes on to be one under substitution. -/
theorem Scheme.IsInstance.subst {scheme : Scheme} {t : Ty} (h : scheme.IsInstance t)
    (hclosed : scheme.Closed) (s : Assignment) : scheme.IsInstance (t.subst s) := by
  obtain ⟨ρ, _, rfl⟩ := h
  refine ⟨fun v => if v ∈ scheme.vars then (ρ v).subst s else .var v, fun v hv => if_neg hv, ?_⟩
  rw [Ty.subst_subst]
  exact Ty.subst_congr fun v hv => (if_pos (hclosed v hv)).symm

section
variable {same : Ty → Ty → Prop} {G : ValueId → Option Ty} {A : ValueId → Ty} {s : Assignment}
  {ret own t : Ty}

theorem map_of_mapM (hA : ∀ v t, G v = some t → A v = t.subst s) {vs : List ValueId}
    {ts : List Ty} (h : vs.mapM G = some ts) : vs.map A = ts.map (Ty.subst s) := by
  induction vs generalizing ts with
  | nil =>
    obtain rfl := Option.some.inj h
    rfl
  | cons v vs ih =>
    simp only [List.mapM_cons, Option.bind_eq_bind, Option.bind_eq_some_iff] at h
    obtain ⟨t, ht, rest, hrest, heq⟩ := h
    obtain rfl := Option.some.inj heq
    rw [List.map_cons, List.map_cons, hA v t ht, ih hrest]

/-- A rule that holds up to an equality which substitution makes literal holds
literally after the substitution. -/
theorem Instr.Typed.subst (hsame : ∀ a b, same a b → a.subst s = b.subst s)
    (hA : ∀ v t, G v = some t → A v = t.subst s) {i : Instr} (h : i.Typed same ret own G t) :
    i.Typed (· = ·) (ret.subst s) (t.subst s) (fun o => some (A o)) (t.subst s) := by
  cases i with
  | alloc => rfl
  | store dst src =>
    obtain ⟨d, u, hd, hu, htd, htu⟩ := h
    exact ⟨_, _, rfl, rfl, (hsame _ _ htd).trans (hA _ _ hd).symm,
      (hsame _ _ htu).trans (hA _ _ hu).symm⟩
  | load src =>
    obtain ⟨u, hu, _, htu⟩ := h
    exact ⟨_, rfl, rfl, (hsame _ _ htu).trans (hA _ _ hu).symm⟩
  | ret value =>
    obtain ⟨u, hu, htu, hret⟩ := h
    exact ⟨_, rfl, (hsame _ _ htu).trans (hA _ _ hu).symm, hsame _ _ hret⟩
  | binary op lhs rhs =>
    obtain ⟨l, r, hl, hr, hlr, hlt⟩ := h
    refine ⟨_, _, rfl, rfl, ?_, ?_⟩
    · rw [hA _ _ hl, hA _ _ hr]
      exact hsame _ _ hlr
    · exact (hA _ _ hl).trans (hsame _ _ hlt)
  | call callee args =>
    obtain ⟨c, ts, hc, hts, hcall⟩ := h
    have hargs : args.mapM (fun o => some (A o)) = some (args.map A) := List.mapM_pure (m := Option)
    refine ⟨_, _, rfl, hargs, ?_⟩
    rw [hA _ _ hc, hsame _ _ hcall, Ty.subst_curried, map_of_mapM hA hts]
  | branch cond thenBlock elseBlock =>
    obtain ⟨c, hc, hbool, hunit⟩ := h
    exact ⟨_, rfl, (hA _ _ hc).trans ((hsame _ _ hbool).trans (by simp [Ty.bool])),
      (hsame _ _ hunit).trans (by simp [Ty.unit, Ty.tuple])⟩
  | jump target => exact (hsame _ _ h).trans (by simp [Ty.unit, Ty.tuple])

theorem Value.Typed.subst {env : Env} {value : Value}
    (hclosed : env.Closed)
    (hsame : ∀ a b, same a b → a.subst s = b.subst s)
    (hA : ∀ v t, G v = some t → A v = t.subst s) (h : value.Typed same env ret G t) :
    { value with ty := t.subst s }.Typed (· = ·) env (ret.subst s) (fun o => some (A o))
      (t.subst s) := by
  obtain ⟨kind, own⟩ := value
  cases kind with
  | int n => exact (hsame _ _ h).trans (by simp [Ty.int])
  | float => exact (hsame _ _ h).trans (by simp [Ty.float])
  | arg index => rfl
  | global name =>
    obtain ⟨scheme, u, hscheme, hinstance, htu⟩ := h
    exact ⟨scheme, u.subst s, hscheme, hinstance.subst (hclosed name scheme hscheme) s,
      hsame _ _ htu⟩
  | instr i => exact Instr.Typed.subst hsame hA h

end

/-! ## The unknowns of a function -/

/-- The type that values of a kind have from the start. -/
def ValueKind.fixed? : ValueKind → Option Ty
  | .int _ => some Ty.int
  | .float => some Ty.float
  | .instr (.branch ..) | .instr (.jump _) => some Ty.unit
  | _ => none

theorem ValueKind.occurrences_fixed {kind : ValueKind} {t : Ty} (h : kind.fixed? = some t) :
    t.occurrences = [] := by
  unfold ValueKind.fixed? at h
  split at h
  all_goals cases h
  all_goals rfl

/-- The rule of a value of a fixed type asks for that type. -/
theorem Value.Typed.fixed {env : Env} {ret t u : Ty} {G : ValueId → Option Ty} {value : Value}
    (h : value.Typed (· = ·) env ret G t) (hfixed : value.kind.fixed? = some u) : t = u := by
  obtain ⟨kind, own⟩ := value
  cases kind with
  | int n | float => exact h.trans (Option.some.inj hfixed)
  | arg index | global name => cases hfixed
  | instr i =>
    cases i with
    | branch cond thenBlock elseBlock =>
      obtain ⟨_, _, _, hunit⟩ := h
      exact hunit.trans (Option.some.inj hfixed)
    | jump target => exact h.trans (Option.some.inj hfixed)
    | _ => cases hfixed

namespace Func

/-- The unknowns of a function: that of its result, and those of its values in
order. -/
def unknowns (f : Func) : List TyVar :=
  f.ret.occurrences ++ f.values.toList.flatMap fun value => value.ty.occurrences

/-- What building a function does: it creates the unknowns of the function, each of
them for the result or for one value. -/
structure Built (f : Func) (T T' : Table) : Prop where
  table : T' = T.grow f.unknowns.length
  unknowns : f.unknowns = List.range' T.size f.unknowns.length
  ret : ∃ u, f.ret = .var u
  own : ∀ (v : ValueId) (value : Value), f.values[v]? = some value →
    (∃ u, value.ty = .var u) ∨ value.kind.fixed? = some value.ty

/-- Blocks and arguments are listed apart from the unknowns. -/
theorem Built.congr {f f' : Func} {T T' : Table} (h : f.Built T T')
    (hvalues : f'.values = f.values) (hret : f'.ret = f.ret) : f'.Built T T' := by
  have hsame : f'.unknowns = f.unknowns := by
    unfold Func.unknowns
    rw [hvalues, hret]
  refine ⟨?_, ?_, ?_, ?_⟩
  · rw [hsame]
    exact h.table
  · rw [hsame]
    exact h.unknowns
  · rw [hret]
    exact h.ret
  · rw [hvalues]
    exact h.own

end Func

namespace Builder

variable {b b' : Builder} {T : Table}

theorem unknowns_push (b : Builder) (kind : ValueKind) (ty : Ty) :
    (b.push kind ty).func.unknowns = b.func.unknowns ++ ty.occurrences := by
  simp [push, Func.unknowns]

theorem own_push {kind : ValueKind} {ty : Ty} (hb : b.func.Built T b.table)
    (hty : (∃ u, ty = .var u) ∨ kind.fixed? = some ty) (v : ValueId) (value : Value)
    (hv : (b.func.values.push ⟨kind, ty⟩)[v]? = some value) :
    (∃ u, value.ty = .var u) ∨ value.kind.fixed? = some value.ty := by
  rw [Array.getElem?_push] at hv
  split at hv
  · obtain rfl := Option.some.inj hv
    exact hty
  · exact hb.own v value hv

/-- A value of a fixed type has no unknown. -/
theorem built_push (hb : b.func.Built T b.table) {kind : ValueKind} {ty : Ty}
    (hkind : kind.fixed? = some ty) : (b.push kind ty).func.Built T b.table := by
  have hsame : (b.push kind ty).func.unknowns = b.func.unknowns := by
    rw [unknowns_push, ValueKind.occurrences_fixed hkind, List.append_nil]
  refine ⟨?_, ?_, hb.ret, own_push hb (Or.inr hkind)⟩
  · rw [hsame]
    exact hb.table
  · rw [hsame]
    exact hb.unknowns

/-- Any other value gets the unknown that is created for it. -/
theorem built_pushFresh (hb : b.func.Built T b.table) (kind : ValueKind) :
    (b.pushFresh kind).func.Built T (b.pushFresh kind).table := by
  have hnew : (b.pushFresh kind).func.unknowns = b.func.unknowns ++ [b.table.size] :=
    unknowns_push { b with table := b.table.fresh.2 } kind (.var b.table.size)
  have hlength : (b.pushFresh kind).func.unknowns.length = b.func.unknowns.length + 1 := by
    rw [hnew, List.length_append, List.length_singleton]
  have hsize : b.table.size = T.size + b.func.unknowns.length := by
    rw [hb.table, Table.size_grow]
  refine ⟨?_, ?_, hb.ret, own_push (b := b) hb (Or.inl ⟨b.table.size, rfl⟩)⟩
  · rw [hlength, Table.grow_add, ← hb.table]
    rfl
  · rw [hlength, hnew, List.range'_1_concat, ← hb.unknowns, hsize]

theorem built_append {v : ValueId} (hb : b.func.Built T b.table) (h : b.append v = .ok b') :
    b'.func.Built T b'.table := by
  unfold append at h
  split at h
  · obtain rfl := Except.ok.inj h
    exact hb.congr rfl rfl
  · cases h

theorem built_perform {call : Call} (hb : b.func.Built T b.table) (h : b.perform call = .ok b') :
    b'.func.Built T b'.table := by
  cases call with
  | arg | global name =>
    obtain rfl := Except.ok.inj h
    exact (built_pushFresh hb _).congr rfl rfl
  | int n | float =>
    obtain rfl := Except.ok.inj h
    exact built_push hb rfl
  | block | «at» block =>
    obtain rfl := Except.ok.inj h
    exact hb.congr rfl rfl
  | instr i =>
    cases i with
    | branch cond thenBlock elseBlock | jump target => exact built_append (built_push hb rfl) h
    | _ => exact built_append (built_pushFresh hb _) h

end Builder

theorem Func.built_build {name : String} {calls : List Builder.Call} {T T' : Table} {f : Func}
    (h : Func.build name calls T = .ok (f, T')) : f.Built T T' := by
  have hstart : (Builder.start name T).func.Built T (Builder.start name T).table := by
    refine ⟨rfl, rfl, ⟨T.size, rfl⟩, fun v value hv => ?_⟩
    cases hv
  obtain ⟨b, rfl, rfl, hb⟩ := Func.build_induct (P := fun b => b.func.Built T b.table)
    (fun b call b' hb hcall => Builder.built_perform hb hcall) hstart h
  exact hb

/-! ## Independent unknowns -/

namespace Table

variable {T : Table} {vs : List TyVar}

/-- Nothing has been imposed on the unknowns: they are free, and no two of them are
in one class. -/
structure Independent (T : Table) (vs : List TyVar) : Prop where
  free : ∀ v ∈ vs, ∃ r, T.classOf v = .ok (r, none)
  apart : ∀ v ∈ vs, ∀ w ∈ vs, T.SameClass v w → v = w

theorem independent_grow (hT : T.WellFormed) (n : Nat) :
    (T.grow n).Independent (List.range' T.size n) := by
  have hnew : ∀ v ∈ List.range' T.size n, ∃ i < n, v = T.size + i := by
    intro v hv
    obtain ⟨i, hi, rfl⟩ := List.mem_range'.1 hv
    exact ⟨i, hi, by rw [Nat.one_mul]⟩
  constructor
  · intro v hv
    obtain ⟨i, hi, rfl⟩ := hnew v hv
    exact ⟨_, classOf_grow_new hT hi⟩
  · intro v hv w _ hsame
    obtain ⟨i, hi, rfl⟩ := hnew v hv
    exact (eq_of_sameClass_grow hT hi hsame).symm

/-- Independent unknowns can be given any types. -/
theorem Independent.exists_solves (h : T.Independent vs) (hT : T.WellFormed) (s₀ : Assignment) :
    ∃ s, T.Solves s ∧ ∀ v ∈ vs, s v = s₀ v := by
  classical
  -- The classes of the unknowns get their types, and what was bound follows.
  let σ : Assignment := fun r =>
    if h : ∃ v ∈ vs, T.classOf v = .ok (r, none) then s₀ h.choose else .var r
  refine ⟨fun v => (T.solution v).subst σ, (solves_solution hT).subst σ, fun v hv => ?_⟩
  obtain ⟨r, hr⟩ := h.free v hv
  have hex : ∃ v ∈ vs, T.classOf v = .ok (r, none) := ⟨v, hv, hr⟩
  have hchosen : hex.choose = v :=
    h.apart _ hex.choose_spec.1 v hv ⟨r, none, hex.choose_spec.2, hr⟩
  simp only [solution_free hr, Ty.subst_var, σ, dif_pos hex, hchosen]

end Table

namespace Func.Built

variable {f : Func} {T₀ T₁ T : Table} {u : TyVar} {v w : ValueId} {a b : Value}

theorem nodup (h : f.Built T₀ T₁) : f.unknowns.Nodup := by
  rw [h.unknowns]
  exact List.nodup_range'

theorem independent (h : f.Built T₀ T₁) (hT₀ : T₀.WellFormed) : T₁.Independent f.unknowns := by
  rw [h.table, h.unknowns, List.length_range']
  exact Table.independent_grow hT₀ _

theorem mem_unknowns_of_own (hv : f.values[v]? = some a) (hu : a.ty = .var u) :
    u ∈ f.unknowns := by
  refine List.mem_append_right _ (List.mem_flatMap.2 ⟨a, ?_, by simp [hu]⟩)
  exact Array.mem_toList_iff.2 (Array.mem_of_getElem? hv)

theorem own_ne_ret (h : f.Built T₀ T₁) (hv : f.values[v]? = some a) (hu : a.ty = .var u) :
    f.ret ≠ .var u := by
  intro hret
  have hdisjoint := (List.nodup_append.1 h.nodup).2.2
  refine hdisjoint u (by simp [hret]) u (List.mem_flatMap.2 ⟨a, ?_, by simp [hu]⟩) rfl
  exact Array.mem_toList_iff.2 (Array.mem_of_getElem? hv)

/-- No two values have the same unknown. -/
theorem own_injective (h : f.Built T₀ T₁) (hv : f.values[v]? = some a) (hw : f.values[w]? = some b)
    (ha : a.ty = .var u) (hb : b.ty = .var u) : v = w := by
  have hpairwise := (List.nodup_flatMap.1 (List.nodup_append.1 h.nodup).2.1).2
  rw [List.pairwise_iff_getElem] at hpairwise
  rw [← Array.getElem?_toList] at hv hw
  obtain ⟨hvlt, rfl⟩ := List.getElem?_eq_some_iff.1 hv
  obtain ⟨hwlt, rfl⟩ := List.getElem?_eq_some_iff.1 hw
  have hmem : ∀ {t : Ty}, t = .var u → u ∈ t.occurrences := by
    rintro t rfl
    simp
  rcases Nat.lt_trichotomy v w with hlt | heq | hlt
  · exact absurd (hmem hb) (hpairwise v w hvlt hwlt hlt (hmem ha))
  · exact heq
  · exact absurd (hmem ha) (hpairwise w v hwlt hvlt hlt (hmem hb))

/-- As long as nothing is imposed on the unknowns of a function, every typing of it is
part of a solution. -/
theorem exists_solves {env : Env} (h : f.Built T₀ T₁) (hT : T.WellFormed)
    (hfree : T.Independent f.unknowns) (τ : f.Typing env) :
    ∃ s, T.Solves s ∧ f.ret.subst s = τ.result ∧
      ∀ v value, f.Reaches v → f.values[v]? = some value → value.ty.subst s = τ.type v := by
  classical
  let s₀ : Assignment := fun u =>
    if f.ret = .var u then τ.result
    else if h : ∃ (v : ValueId) (value : Value), f.values[v]? = some value ∧ value.ty = .var u then
      τ.type h.choose
    else .var u
  obtain ⟨s, hs, hs₀⟩ := hfree.exists_solves hT s₀
  refine ⟨s, hs, ?_, fun v value hv hvalue => ?_⟩
  · obtain ⟨u, hu⟩ := h.ret
    rw [hu, Ty.subst_var, hs₀ u (by simp [Func.unknowns, hu])]
    simp only [s₀, if_pos hu]
  · rcases h.own v value hvalue with ⟨u, hu⟩ | hfixed
    · have hex : ∃ (v : ValueId) (value : Value), f.values[v]? = some value ∧ value.ty = .var u :=
        ⟨v, value, hvalue, hu⟩
      obtain ⟨a, ha, hau⟩ := hex.choose_spec
      have hchosen : hex.choose = v := h.own_injective ha hvalue hau hu
      rw [hu, Ty.subst_var, hs₀ u (mem_unknowns_of_own hvalue hu)]
      simp only [s₀, if_neg (h.own_ne_ret hvalue hu), dif_pos hex, hchosen]
    · rw [(τ.typed v value hv hvalue).fixed hfixed]
      refine Ty.subst_eq_self fun u hu => ?_
      rw [ValueKind.occurrences_fixed hfixed] at hu
      cases hu

end Func.Built

end TypeLayer
