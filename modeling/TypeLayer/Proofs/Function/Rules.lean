import TypeLayer.Proofs.Structural.Fresh

/-!
# Typing rules

`Value.Typed` states the typing rule of a value: how its type is related to the
types of its operands.  The rule is stated for any notion of equality of types, so
that it can be read under the bindings of a table (`Table.Agree`) as well as
literally.  A rule that holds goes on to hold if more types become equal and more
values become known (`Value.Typed.mono`).

The other facts below are what typing a function starts from: the types that
building has given to its values (`Func.Scoped`), a rank of its values if no value
uses itself (`Func.exists_rank`), and the types that a scheme is used at
(`Table.exists_instantiate`).
-/

namespace TypeLayer

/-! ## Operands -/

namespace Func

/-- The values that a value uses. -/
def operands (f : Func) (v : ValueId) : List ValueId :=
  match f.values[v]? with
  | some ⟨.instr i, _⟩ => i.operands
  | _ => []

theorem operands_of_instr {f : Func} {v : ValueId} {i : Instr} {own : Ty}
    (h : f.values[v]? = some ⟨.instr i, own⟩) : f.operands v = i.operands := by
  simp only [operands, h]

theorem lt_size_of_mem_operands {f : Func} {v o : ValueId} (h : o ∈ f.operands v) :
    v < f.values.size := by
  by_contra hv
  have hnone : f.values[v]? = none := Array.getElem?_eq_none (Nat.le_of_not_lt hv)
  simp [operands, hnone] at h

/-- All operands are values of the function. -/
def InRange (f : Func) : Prop :=
  ∀ v < f.values.size, ∀ o ∈ f.operands v, o < f.values.size

instance (f : Func) : Decidable f.InRange :=
  inferInstanceAs (Decidable (∀ v < f.values.size, ∀ o ∈ f.operands v, o < f.values.size))

/-- No value uses itself, directly or through others. -/
def Acyclic (f : Func) : Prop :=
  ∀ v, ¬ Relation.TransGen (fun v o => o ∈ f.operands v) v v

variable {f : Func}

theorem acyclic_of_rank (rank : ValueId → Nat)
    (hrank : ∀ v < f.values.size, ∀ o ∈ f.operands v, rank o < rank v) : f.Acyclic := by
  have hpath : ∀ v w, Relation.TransGen (fun v o => o ∈ f.operands v) v w → rank w < rank v := by
    intro v w h
    induction h with
    | single ho => exact hrank _ (lt_size_of_mem_operands ho) _ ho
    | tail _ ho ih => exact Nat.lt_trans (hrank _ (lt_size_of_mem_operands ho) _ ho) ih
  exact fun v h => Nat.lt_irrefl _ (hpath v v h)

/-- If no value uses itself, the number of values below a value is greater than
the number of values below its operands. -/
theorem exists_rank (hf : f.Acyclic) :
    ∃ rank : ValueId → Nat, (∀ v, rank v ≤ f.values.size) ∧
      ∀ v, ∀ o ∈ f.operands v, rank o < rank v := by
  classical
  let uses : ValueId → ValueId → Prop := fun v o => o ∈ f.operands v
  let below : ValueId → Finset ValueId := fun v =>
    (Finset.range f.values.size).filter (Relation.ReflTransGen uses v)
  refine ⟨fun v => (below v).card, fun v => ?_, fun v o ho => Finset.card_lt_card ?_⟩
  · have hle := Finset.card_filter_le (Finset.range f.values.size) (Relation.ReflTransGen uses v)
    rw [Finset.card_range] at hle
    exact hle
  · have hv := lt_size_of_mem_operands ho
    refine Finset.ssubset_iff_subset_ne.2 ⟨fun w hw => ?_, fun heq => ?_⟩
    · obtain ⟨hlt, hpath⟩ := Finset.mem_filter.1 hw
      exact Finset.mem_filter.2 ⟨hlt, hpath.head ho⟩
    · have hmem : v ∈ below v := Finset.mem_filter.2 ⟨Finset.mem_range.2 hv, .refl⟩
      rw [← heq] at hmem
      exact hf v (Relation.TransGen.head' ho (Finset.mem_filter.1 hmem).2)

end Func

/-! ## Schemes -/

namespace Scheme

/-- Every unknown of the type is quantified. -/
def Closed (s : Scheme) : Prop :=
  ∀ v ∈ s.ty.occurrences, v ∈ s.vars

instance (s : Scheme) : Decidable s.Closed :=
  inferInstanceAs (Decidable (∀ v ∈ s.ty.occurrences, v ∈ s.vars))

/-- The type is an instance of the scheme: it has types in place of the quantified
unknowns. -/
def IsInstance (s : Scheme) (t : Ty) : Prop :=
  ∃ ρ : Assignment, (∀ v, v ∉ s.vars → ρ v = .var v) ∧ t = s.ty.subst ρ

end Scheme

namespace Env

/-- Every scheme quantifies all of its unknowns. -/
def Closed (env : Env) : Prop :=
  ∀ name s, env.get? name = some s → s.Closed

/-- Every scheme quantifies all of its unknowns or none. -/
def Plain (env : Env) : Prop :=
  ∀ name s, env.get? name = some s → s.Closed ∨ s.vars = []

/-- Schemes that quantify nothing mention created unknowns only. -/
def Covered (env : Env) (T : Table) : Prop :=
  ∀ name s, env.get? name = some s → s.vars = [] → T.Covers s.ty

theorem Covered.mono {env : Env} {T T' : Table} (h : env.Covered T) (hle : T.size ≤ T'.size) :
    env.Covered T' :=
  fun name s hs hvars => (h name s hs hvars).mono hle

end Env

namespace Table

variable {T : Table}

theorem mem_of_replacement {pairs : List (TyVar × TyVar)} {v w : TyVar}
    (h : replacement? pairs v = some w) : (v, w) ∈ pairs := by
  obtain ⟨before, after, heq, _⟩ := List.lookup_eq_some_iff.1 h
  rw [← List.mem_reverse, heq]
  simp

/-- The unknowns that are not replaced are those that no pair is for. -/
theorem replacement_eq_none_iff {pairs : List (TyVar × TyVar)} {v : TyVar} :
    replacement? pairs v = none ↔ v ∉ pairs.map Prod.fst := by
  refine List.lookup_eq_none_iff.trans ?_
  constructor
  · intro hne hmem
    obtain ⟨p, hp, rfl⟩ := List.mem_map.1 hmem
    simpa using hne p (List.mem_reverse.2 hp)
  · intro hv p hp
    rw [bne_iff_ne]
    intro heq
    exact hv (List.mem_map.2 ⟨p, List.mem_reverse.1 hp, heq.symm⟩)

theorem exists_replacement {pairs : List (TyVar × TyVar)} {v : TyVar}
    (hv : v ∈ pairs.map Prod.fst) : ∃ w, (v, w) ∈ pairs ∧ replacement? pairs v = some w := by
  cases h : replacement? pairs v with
  | none => exact absurd hv (replacement_eq_none_iff.1 h)
  | some w => exact ⟨w, mem_of_replacement h, rfl⟩

theorem replacement_zipIdx_eq_none_iff {vs : List TyVar} {n : Nat} {v : TyVar} :
    replacement? (vs.zipIdx n) v = none ↔ v ∉ vs := by
  rw [replacement_eq_none_iff, List.zipIdx_map_fst]

/-- What a use of a scheme puts in place of its unknowns, if the new ones are numbered
from `n` on. -/
def renewal (s : Scheme) (n : Nat) : Assignment := fun v =>
  .var ((replacement? (s.vars.zipIdx n) v).getD v)

/-- Each quantified unknown is replaced by the new one for some place where it is
listed. -/
theorem exists_renewal {s : Scheme} {v : TyVar} (hv : v ∈ s.vars) (n : Nat) :
    ∃ i < s.vars.length, s.vars[i]? = some v ∧ renewal s n v = .var (n + i) := by
  have hkeys : v ∈ (s.vars.zipIdx n).map Prod.fst := by
    rw [List.zipIdx_map_fst]
    exact hv
  obtain ⟨w, hmem, hw⟩ := exists_replacement hkeys
  obtain ⟨hle, hget⟩ := List.mk_mem_zipIdx_iff_le_and_getElem?_sub.1 hmem
  have hlt : w - n < s.vars.length := (List.getElem?_eq_some_iff.1 hget).1
  refine ⟨w - n, hlt, hget, ?_⟩
  have hsum : n + (w - n) = w := by omega
  rw [renewal, hw, Option.getD_some, hsum]

/-- Unknowns that are not quantified stay. -/
theorem renewal_of_not_mem {s : Scheme} {v : TyVar} (hv : v ∉ s.vars) (n : Nat) :
    renewal s n v = .var v := by
  rw [renewal, replacement_zipIdx_eq_none_iff.2 hv, Option.getD_none]

section
variable {pairs : List (TyVar × TyVar)} {n : Nat} {v r : TyVar}

/-- Unknowns are replaced one by one. -/
theorem substituteWithin_eq_ok_iff {t u : Ty} :
    T.substituteWithin pairs n t = .ok u ↔
      ∃ σ : Assignment, (∀ v ∈ t.occurrences, T.substituteWithin pairs n (.var v) = .ok (σ v)) ∧
        u = t.subst σ := by
  cases n <;> simp only [substituteWithin, Ty.fill] <;> exact Ty.fill_eq_ok_iff

theorem substituteWithin_replaced {w : TyVar} (h : replacement? pairs v = some w) :
    T.substituteWithin pairs n (.var v) = .ok (.var w) := by
  cases n <;> simp only [substituteWithin, Ty.fill, h]

theorem substituteWithin_free (h : replacement? pairs v = none)
    (hclass : T.classOf v = .ok (r, none)) : T.substituteWithin pairs n (.var v) = .ok (.var v) := by
  cases n <;> simp only [substituteWithin, Ty.fill, h, follow_free hclass]

/-- An unknown is replaced, or stays because it is free, or is treated as its binding if one more
may be followed. -/
theorem substituteWithin_cases {u : Ty} (h : T.substituteWithin pairs n (.var v) = .ok u) :
    (∃ w, replacement? pairs v = some w ∧ u = .var w) ∨
    replacement? pairs v = none ∧ (∃ r, T.classOf v = .ok (r, none)) ∧ u = .var v ∨
    replacement? pairs v = none ∧ ∃ r t m, T.classOf v = .ok (r, some t) ∧ n = m + 1 ∧
      T.substituteWithin pairs m t = .ok u := by
  cases hv : replacement? pairs v with
  | some w =>
    rw [substituteWithin_replaced hv] at h
    exact .inl ⟨w, rfl, (Except.ok.inj h).symm⟩
  | none =>
    obtain ⟨r, b, hclass⟩ : ∃ r b, T.classOf v = .ok (r, b) := by
      cases n <;> simp only [substituteWithin, Ty.fill, hv] at h <;>
        exact exists_classOf_of_follow h
    cases b with
    | none =>
      rw [substituteWithin_free hv hclass] at h
      exact .inr (.inl ⟨rfl, ⟨r, hclass⟩, (Except.ok.inj h).symm⟩)
    | some t =>
      cases n with
      | zero =>
        simp only [substituteWithin, Ty.fill, hv, follow_bound hclass] at h
        cases h
      | succ m =>
        simp only [substituteWithin, Ty.fill, hv, follow_bound hclass] at h
        exact .inr (.inr ⟨rfl, r, t, m, hclass, rfl, h⟩)

end

/-- A scheme is used by creating one new unknown for each quantified one.  The others stay, if
they are free. -/
theorem instantiate_eq {s : Scheme} {T : Table}
    (hs : ∀ v ∈ s.ty.occurrences, v ∉ s.vars →
      ∃ r, (T.grow s.vars.length).classOf v = .ok (r, none)) :
    instantiate s T = .ok (s.ty.subst (renewal s T.size)) (T.grow s.vars.length) := by
  by_cases hvars : s.vars = []
  · have hnone : ∀ v ∈ s.ty.occurrences, renewal s T.size v = .var v := by
      intro v _
      exact renewal_of_not_mem (by simp [hvars]) _
    rw [Ty.subst_eq_self hnone]
    simp [instantiate, hvars, grow]
  · have hsubst : (T.grow s.vars.length).substitute (s.vars.zipIdx T.size) s.ty =
        .ok (s.ty.subst (renewal s T.size)) := by
      refine substituteWithin_eq_ok_iff.2 ⟨_, fun v hv => ?_, rfl⟩
      cases hreplaced : replacement? (s.vars.zipIdx T.size) v with
      | some w => rw [substituteWithin_replaced hreplaced, renewal, hreplaced, Option.getD_some]
      | none =>
        have hkept := replacement_zipIdx_eq_none_iff.1 hreplaced
        obtain ⟨r, hfree⟩ := hs v hv hkept
        rw [substituteWithin_free hreplaced hfree, renewal_of_not_mem hkept]
    simp [instantiate, hvars, Action.bind_apply, freshFor_eq, Action.read, hsubst]

/-- A closed scheme is used by creating one new unknown for each quantified one. -/
theorem instantiate_closed {s : Scheme} (hs : s.Closed) (T : Table) :
    instantiate s T = .ok (s.ty.subst (renewal s T.size)) (T.grow s.vars.length) :=
  instantiate_eq fun v hv hkept => absurd (hs v hv) hkept

/-- A scheme that quantifies all of its unknowns or none is used at one of its
instances. -/
theorem exists_instantiate (hT : T.WellFormed) {s : Scheme} (hs : s.Closed ∨ s.vars = []) :
    ∃ t T', instantiate s T = .ok t T' ∧ T.Evolved T' ∧ s.IsInstance t ∧
      ((s.vars = [] → T'.Covers s.ty) → T'.Covers t) := by
  rcases hs with hclosed | hvars
  · refine ⟨_, _, instantiate_closed hclosed T, evolved_grow hT _,
      ⟨_, fun v hv => renewal_of_not_mem hv _, rfl⟩, fun _ w hw => ?_⟩
    obtain ⟨v, hv, hw⟩ := Ty.mem_occurrences_subst.1 hw
    obtain ⟨i, hi, _, hrenewal⟩ := exists_renewal (hclosed v hv) T.size
    rw [hrenewal, Ty.mem_occurrences_var] at hw
    rw [hw, size_grow]
    exact Nat.add_lt_add_left hi _
  · refine ⟨s.ty, T, ?_, hT.evolved, ⟨.var, fun _ _ => rfl, by simp⟩, fun h => h hvars⟩
    simp [instantiate, hvars]

end Table

/-! ## Rules -/

/-- The typing rule of an instruction. `own` is the type it was given when it was
added, `ret` the result type of its function, and `G` gives the types of the values
that are known. -/
def Instr.Typed (same : Ty → Ty → Prop) (ret own : Ty) (G : ValueId → Option Ty) (t : Ty) :
    Instr → Prop
  | .alloc => same t own
  | .store dst src => ∃ d s, G dst = some d ∧ G src = some s ∧ same t d ∧ same t s
  | .load src => ∃ s, G src = some s ∧ same t own ∧ same t s
  | .ret value => ∃ s, G value = some s ∧ same t s ∧ same t ret
  | .binary _ lhs rhs => ∃ l r, G lhs = some l ∧ G rhs = some r ∧ same l r ∧ same l t
  | .call callee args =>
    ∃ c ts, G callee = some c ∧ args.mapM G = some ts ∧ same c (Ty.curried ts t)
  | .branch cond _ _ => ∃ c, G cond = some c ∧ same c Ty.bool ∧ same t Ty.unit
  | .jump _ => same t Ty.unit

/-- The typing rule of a value. -/
def Value.Typed (same : Ty → Ty → Prop) (env : Env) (ret : Ty) (G : ValueId → Option Ty)
    (value : Value) (t : Ty) : Prop :=
  match value.kind with
  | .int _ => same t Ty.int
  | .float => same t Ty.float
  | .arg _ => same t value.ty
  | .global name => ∃ s u, env.get? name = some s ∧ s.IsInstance u ∧ same t u
  | .instr i => i.Typed same ret value.ty G t

section
variable {same same' : Ty → Ty → Prop} {G G' : ValueId → Option Ty} {ret own t : Ty}

theorem mapM_mono (hG : ∀ v t, G v = some t → G' v = some t) {vs : List ValueId} {ts : List Ty}
    (h : vs.mapM G = some ts) : vs.mapM G' = some ts := by
  induction vs generalizing ts with
  | nil => exact h
  | cons v vs ih =>
    simp only [List.mapM_cons, Option.bind_eq_bind, Option.bind_eq_some_iff] at h ⊢
    obtain ⟨t, ht, rest, hrest, heq⟩ := h
    exact ⟨t, hG v t ht, rest, ih hrest, heq⟩

theorem exists_of_mapM {vs : List ValueId} {ts : List Ty} (h : vs.mapM G = some ts) :
    ∀ v ∈ vs, ∃ t, G v = some t := by
  induction vs generalizing ts with
  | nil => exact fun v hv => nomatch hv
  | cons w vs ih =>
    simp only [List.mapM_cons, Option.bind_eq_bind, Option.bind_eq_some_iff] at h
    obtain ⟨t, ht, rest, hrest, _⟩ := h
    intro v hv
    rcases List.mem_cons.1 hv with rfl | hv
    · exact ⟨t, ht⟩
    · exact ih hrest v hv

theorem Instr.Typed.mono (hsame : ∀ a b, same a b → same' a b)
    (hG : ∀ v t, G v = some t → G' v = some t) {i : Instr} (h : i.Typed same ret own G t) :
    i.Typed same' ret own G' t := by
  cases i with
  | alloc => exact hsame _ _ h
  | store dst src =>
    obtain ⟨d, s, hd, hs, htd, hts⟩ := h
    exact ⟨d, s, hG _ _ hd, hG _ _ hs, hsame _ _ htd, hsame _ _ hts⟩
  | load src =>
    obtain ⟨s, hs, hown, hts⟩ := h
    exact ⟨s, hG _ _ hs, hsame _ _ hown, hsame _ _ hts⟩
  | ret value =>
    obtain ⟨s, hs, hts, hret⟩ := h
    exact ⟨s, hG _ _ hs, hsame _ _ hts, hsame _ _ hret⟩
  | binary op lhs rhs =>
    obtain ⟨l, r, hl, hr, hlr, hlt⟩ := h
    exact ⟨l, r, hG _ _ hl, hG _ _ hr, hsame _ _ hlr, hsame _ _ hlt⟩
  | call callee args =>
    obtain ⟨c, ts, hc, hts, hcall⟩ := h
    exact ⟨c, ts, hG _ _ hc, mapM_mono hG hts, hsame _ _ hcall⟩
  | branch cond thenBlock elseBlock =>
    obtain ⟨c, hc, hbool, hunit⟩ := h
    exact ⟨c, hG _ _ hc, hsame _ _ hbool, hsame _ _ hunit⟩
  | jump target => exact hsame _ _ h

/-- The operands of a typed instruction are known. -/
theorem Instr.Typed.operands {i : Instr} (h : i.Typed same ret own G t) :
    ∀ o ∈ i.operands, ∃ s, G o = some s := by
  cases i with
  | alloc | jump target => exact fun o ho => nomatch ho
  | store dst src =>
    obtain ⟨d, s, hd, hs, _⟩ := h
    simp [Instr.operands, hd, hs]
  | load src | ret value | branch cond thenBlock elseBlock =>
    obtain ⟨s, hs, _⟩ := h
    simp [Instr.operands, hs]
  | binary op lhs rhs =>
    obtain ⟨l, r, hl, hr, _⟩ := h
    simp [Instr.operands, hl, hr]
  | call callee args =>
    obtain ⟨c, ts, hc, hts, _⟩ := h
    intro o ho
    rcases List.mem_cons.1 ho with rfl | ho
    · exact ⟨c, hc⟩
    · exact exists_of_mapM hts o ho

theorem Value.Typed.mono {env : Env} {value : Value} (hsame : ∀ a b, same a b → same' a b)
    (hG : ∀ v t, G v = some t → G' v = some t) (h : value.Typed same env ret G t) :
    value.Typed same' env ret G' t := by
  obtain ⟨kind, own⟩ := value
  cases kind with
  | int n => exact hsame _ _ h
  | float => exact hsame _ _ h
  | arg index => exact hsame _ _ h
  | global name =>
    obtain ⟨s, u, hs, hinstance, htu⟩ := h
    exact ⟨s, u, hs, hinstance, hsame _ _ htu⟩
  | instr i => exact Instr.Typed.mono hsame hG h

/-- The operands of a typed value are known. -/
theorem Value.Typed.operands {env : Env} {value : Value} {f : Func} {v : ValueId}
    (h : value.Typed same env ret G t) (hv : f.values[v]? = some value) :
    ∀ o ∈ f.operands v, ∃ s, G o = some s := by
  obtain ⟨kind, own⟩ := value
  cases kind with
  | instr i =>
    rw [Func.operands_of_instr hv]
    exact Instr.Typed.operands h
  | _ => simp [Func.operands, hv]

end

/-! ## Built functions -/

/-- The type of a constant. -/
def ValueKind.constant? : ValueKind → Option Ty
  | .int _ => some Ty.int
  | .float => some Ty.float
  | _ => none

/-- What building promises of a function: its types mention created unknowns only,
constants have their own types, and arguments and instructions are among the
values. -/
structure Func.Scoped (f : Func) (T : Table) : Prop where
  ret : T.Covers f.ret
  own : ∀ (v : ValueId) (value : Value), f.values[v]? = some value → T.Covers value.ty
  constant : ∀ (v : ValueId) (value : Value) (t : Ty), f.values[v]? = some value →
    value.kind.constant? = some t → value.ty = t
  arg : ∀ v ∈ f.args, ∃ index own, f.values[v]? = some ⟨.arg index, own⟩
  instr : ∀ block ∈ f.blocks, ∀ v ∈ block, v < f.values.size

theorem Func.Scoped.mono {f : Func} {T T' : Table} (h : f.Scoped T) (hle : T.size ≤ T'.size) :
    f.Scoped T' :=
  { h with
    ret := h.ret.mono hle
    own := fun v value hv => (h.own v value hv).mono hle }

theorem Func.Scoped.lt_size {f : Func} {T : Table} (hf : f.Scoped T) :
    ∀ v ∈ f.args ++ f.instrs, v < f.values.size := by
  intro v hv
  rcases List.mem_append.1 hv with hv | hv
  · obtain ⟨index, own, hown⟩ := hf.arg v hv
    exact (Array.getElem?_eq_some_iff.1 hown).1
  · obtain ⟨block, hblock, hv⟩ := List.mem_flatten.1 hv
    exact hf.instr block (Array.mem_toList_iff.1 hblock) v hv

namespace Builder

variable {b b' : Builder}

theorem scoped_push (hb : b.func.Scoped b.table) {kind : ValueKind} {ty : Ty}
    (hty : b.table.Covers ty) (hconstant : ∀ t, kind.constant? = some t → ty = t) :
    (b.push kind ty).func.Scoped b.table := by
  have hvalues : ∀ v, (b.push kind ty).func.values[v]? =
      if v = b.func.values.size then some ⟨kind, ty⟩ else b.func.values[v]? :=
    fun v => Array.getElem?_push
  refine ⟨hb.ret, fun v value hv => ?_, fun v value t hv ht => ?_, fun v hv => ?_,
    fun block hblock v hv => ?_⟩
  · rw [hvalues] at hv
    split at hv
    · obtain rfl := Option.some.inj hv
      exact hty
    · exact hb.own v value hv
  · rw [hvalues] at hv
    split at hv
    · obtain rfl := Option.some.inj hv
      exact hconstant t ht
    · exact hb.constant v value t hv ht
  · obtain ⟨index, own, hown⟩ := hb.arg v hv
    have hlt : v < b.func.values.size := (Array.getElem?_eq_some_iff.1 hown).1
    refine ⟨index, own, ?_⟩
    rw [hvalues, if_neg (Nat.ne_of_lt hlt)]
    exact hown
  · have hlt := hb.instr block hblock v hv
    have hsize : (b.push kind ty).func.values.size = b.func.values.size + 1 := Array.size_push ..
    rw [hsize]
    exact Nat.lt_succ_of_lt hlt

theorem scoped_pushFresh (hb : b.func.Scoped b.table) (kind : ValueKind)
    (hkind : kind.constant? = none) :
    (b.pushFresh kind).func.Scoped (b.pushFresh kind).table := by
  have hfresh : b.func.Scoped b.table.fresh.2 := hb.mono (by simp)
  refine scoped_push (b := { b with table := b.table.fresh.2 }) hfresh ?_ ?_
  · simp [Table.fresh, Table.size]
  · intro t ht
    rw [hkind] at ht
    cases ht

theorem scoped_append {v : ValueId} (hb : b.func.Scoped b.table) (hv : v < b.func.values.size)
    (h : b.append v = .ok b') : b'.func.Scoped b'.table := by
  unfold append at h
  split at h
  · obtain rfl := Except.ok.inj h
    refine { hb with instr := fun block hblock w hw => ?_ }
    obtain ⟨k, hk⟩ := Array.mem_iff_getElem?.1 hblock
    rw [Array.getElem?_modify] at hk
    split at hk
    · obtain ⟨old, hold, rfl⟩ := Option.map_eq_some_iff.1 hk
      rcases List.mem_append.1 hw with hw | hw
      · exact hb.instr old (Array.mem_of_getElem? hold) w hw
      · obtain rfl := List.mem_singleton.1 hw
        exact hv
    · exact hb.instr block (Array.mem_of_getElem? hk) w hw
  · cases h

theorem scoped_perform {call : Call} (hb : b.func.Scoped b.table) (h : b.perform call = .ok b') :
    b'.func.Scoped b'.table := by
  cases call with
  | arg =>
    obtain rfl := Except.ok.inj h
    have hpush := scoped_pushFresh hb (.arg b.func.args.length) rfl
    refine { hpush with arg := fun v hv => ?_ }
    rcases List.mem_append.1 hv with hv | hv
    · exact hpush.arg v hv
    · obtain rfl := List.mem_singleton.1 hv
      exact ⟨_, _, Array.getElem?_push_size⟩
  | int n =>
    obtain rfl := Except.ok.inj h
    exact scoped_push hb (Table.covers_nullary _) fun t ht => Option.some.inj ht
  | float =>
    obtain rfl := Except.ok.inj h
    exact scoped_push hb (Table.covers_nullary _) fun t ht => Option.some.inj ht
  | global name =>
    obtain rfl := Except.ok.inj h
    exact scoped_pushFresh hb _ rfl
  | block =>
    obtain rfl := Except.ok.inj h
    refine { hb with instr := fun block hblock v hv => ?_ }
    rcases Array.mem_push.1 hblock with hblock | rfl
    · exact hb.instr block hblock v hv
    · cases hv
  | «at» block =>
    obtain rfl := Except.ok.inj h
    exact hb
  | instr i =>
    cases i with
    | branch cond thenBlock elseBlock =>
      exact scoped_append (scoped_push hb (Table.covers_nullary _)
        fun t ht => by cases ht) (by simp [push]) h
    | jump target =>
      exact scoped_append (scoped_push hb (Table.covers_nullary _)
        fun t ht => by cases ht) (by simp [push]) h
    | _ => exact scoped_append (scoped_pushFresh hb _ rfl) (by simp [pushFresh, push]) h

end Builder

/-- What building promises, it keeps. -/
theorem Func.scoped_build {name : String} {calls : List Builder.Call} {T T' : Table} {f : Func}
    (h : Func.build name calls T = .ok (f, T')) : f.Scoped T' := by
  have hstart : (Builder.start name T).func.Scoped (Builder.start name T).table := by
    refine ⟨?_, ?_, ?_, ?_, ?_⟩
    all_goals simp [Builder.start, Table.fresh, Table.size]
  obtain ⟨b, rfl, rfl, hb⟩ := Func.build_induct (P := fun b => b.func.Scoped b.table)
    (fun b call b' hb hcall => Builder.scoped_perform hb hcall) hstart h
  exact hb

end TypeLayer
