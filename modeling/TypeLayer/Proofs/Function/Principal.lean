import TypeLayer.Proofs.Function.Typings

/-!
# Principal types

Typing a function finds its most general type.  Whatever typing the function has,
it survives every step of `deduce`: the steps impose equations that hold under the
typing, and each new use of a scheme can be given the instance that the typing has
there.  `Setting.Fits` is this invariant, a solution of the table that gives all
types their value under the typing; `Setting.Succeeds` says that a call returns and
keeps it.  It complements `Setting.Ensures`, which says what is true once a call has
returned.

The main result is `infer_principal`: a function is typed exactly if it has a
typing, and then every typing gives it an instance of the type that was found.
-/

namespace TypeLayer

open TypeLayer.Action

/-- Every instance of a closed scheme can be had by giving types to the new
unknowns. -/
theorem Table.exists_solves_instance {T : Table} (hT : T.WellFormed) {s : Assignment}
    (hs : T.Solves s) {scheme : Scheme} (hclosed : scheme.Closed) {u : Ty}
    (hu : scheme.IsInstance u) :
    ∃ s', (T.grow scheme.vars.length).Solves s' ∧ (∀ v < T.size, s' v = s v) ∧
      (scheme.ty.subst (renewal scheme T.size)).subst s' = u := by
  obtain ⟨ρ, _, rfl⟩ := hu
  let s' : Assignment := fun w =>
    if w < T.size then s w else ((scheme.vars[w - T.size]?).map ρ).getD (.var w)
  have hold : ∀ v < T.size, s' v = s v := fun v hv => if_pos hv
  refine ⟨s', hs.grow hT hold _, hold, ?_⟩
  rw [Ty.subst_subst]
  refine Ty.subst_congr fun v hv => ?_
  obtain ⟨i, _, hi, hrenewal⟩ := exists_renewal (hclosed v hv) T.size
  rw [hrenewal, Ty.subst_var]
  simp [s', hi]

/-- A closed scheme that quantifies nothing mentions no unknowns. -/
theorem Env.covered_of_closed {env : Env}
    (hclosed : env.Closed) (T : Table) :
    env.Covered T := by
  intro name scheme hscheme hvars v hv
  have hmem := hclosed name scheme hscheme v hv
  rw [hvars] at hmem
  cases hmem

namespace Deduction.Setting

variable {S : Setting} {n : Nat} {d d' : Deduction} {s : Assignment} {α β : Type}

/-! ## Typings that survive -/

/-- The solution gives every value that is reached, the result, and everything that
has been found so far the type that the typing gives it. -/
structure Fits (S : Setting) (τ : S.func.Typing S.env) (s : Assignment) (d : Deduction) :
    Prop where
  solves : d.table.Solves s
  ret : S.func.ret.subst s = τ.result
  own : ∀ v value, S.func.Reaches v → S.func.values[v]? = some value →
    value.ty.subst s = τ.type v
  known : ∀ v t, d.known.get? v = some t → t.subst s = τ.type v

variable {τ : S.func.Typing S.env}

/-- Another solution that gives created unknowns the same types fits as well. -/
theorem Fits.congr (h : S.Fits τ s d) (hd : S.Sound d) {s' : Assignment} {T : Table}
    (hs' : T.Solves s') (hsame : ∀ v < d.table.size, s' v = s v) :
    S.Fits τ s' { d with table := T } where
  solves := hs'
  ret := by
    rw [← h.ret]
    exact Ty.subst_congr fun v hv => hsame v (hd.built.ret v hv)
  own := fun v value hv hvalue => by
    rw [← h.own v value hv hvalue]
    exact Ty.subst_congr fun u hu => hsame u (hd.built.own v value hvalue u hu)
  known := fun v t hv => by
    rw [← h.known v t hv]
    exact Ty.subst_congr fun u hu => hsame u (hd.covered v t hv u hu)

/-- The call returns, and the typing still fits. -/
def Succeeds (S : Setting) (τ : S.func.Typing S.env) (x : Deduce α) (d : Deduction)
    (P : α → Assignment → Prop) : Prop :=
  ∃ a d' s, x d = .ok a d' ∧ S.Fits τ s d' ∧ P a s

variable {x : Deduce α} {P : α → Assignment → Prop} {Q : α → Deduction → Prop}
  {R : β → Assignment → Prop}

theorem Succeeds.bind {k : α → Deduce β} (hensures : S.Ensures n x d Q)
    (hx : S.Succeeds τ x d P)
    (hk : ∀ a d' s, S.Advance n d d' → Q a d' → S.Fits τ s d' → P a s → S.Succeeds τ (k a) d' R) :
    S.Succeeds τ (x >>= k) d R := by
  obtain ⟨a, d₁, s, hrun, hfits, ha⟩ := hx
  have hmeets := hensures.meets
  rw [hrun] at hmeets
  obtain ⟨b, d₂, s', hrun', hfits', hb⟩ := hk a d₁ s hmeets.1 hmeets.2 hfits ha
  refine ⟨b, d₂, s', ?_, hfits', hb⟩
  rw [bind_apply, hrun]
  exact hrun'

theorem succeeds_pure {a : α} (hfits : S.Fits τ s d) (ha : P a s) :
    S.Succeeds τ (pure a) d P :=
  ⟨a, d, s, rfl, hfits, ha⟩

/-- An equation that holds under the typing is not refused. -/
theorem succeeds_unify (hd : S.Sound d) (hfits : S.Fits τ s d) {a b : Ty}
    (ha : d.table.Covers a) (hb : d.table.Covers b) (heq : a.subst s = b.subst s)
    (origin : Origin) : S.Succeeds τ (unify a b origin) d fun _ _ => True := by
  have hdecides : d.table.Decides a b (Table.unify a b origin d.table) :=
    Table.unify_decides hd.wellFormed
  have hreturns : (Table.unify a b origin d.table).Returns :=
    Table.unify_returns hd.wellFormed ha hb
  cases hrun : Table.unify a b origin d.table with
  | ok u T =>
    rw [hrun] at hdecides
    refine ⟨u, { d with table := T }, s, ?_, hfits.congr hd ?_ fun _ _ => rfl, trivial⟩
    · simp only [unify, solve, zoom, hrun]
    · exact (hdecides.solves_iff s).2 ⟨hfits.solves, heq⟩
  | error e T =>
    rw [hrun] at hdecides
    exact absurd heq (hdecides.unsolvable s hfits.solves)
  | fault f =>
    rw [hrun] at hreturns
    obtain ⟨T, hT⟩ := hreturns
    cases hT

/-! ## Instructions -/

/-- What is promised of a call that finds the type of a value, and that it returns if
the typing fits. -/
structure Answers (S : Setting) (τ : S.func.Typing S.env) (n : Nat)
    (operand : ValueId → Deduce Ty) (o : ValueId) : Prop where
  finds : S.Finds n operand o
  succeeds : ∀ d s, S.Sound d → S.Fits τ s d → S.Succeeds τ (operand o) d fun _ _ => True

variable {operand : ValueId → Deduce Ty}

theorem Answers.bind {o : ValueId} {k : Ty → Deduce β} (ho : S.Answers τ n operand o)
    (hd : S.Sound d) (hfits : S.Fits τ s d)
    (hk : ∀ t d' s, S.Advance n d d' → S.Fits τ s d' → d'.known.get? o = some t →
      S.Succeeds τ (k t) d' R) : S.Succeeds τ (operand o >>= k) d R :=
  .bind (ho.finds d hd) (ho.succeeds d s hd hfits) fun t d' s h ht hfits' _ =>
    hk t d' s h hfits' ht

theorem succeeds_unify_bind {a b : Ty} {origin : Origin} {k : Unit → Deduce β} (hd : S.Sound d)
    (hfits : S.Fits τ s d) (ha : d.table.Covers a) (hb : d.table.Covers b)
    (heq : a.subst s = b.subst s)
    (hk : ∀ d' s, S.Advance 0 d d' → S.Fits τ s d' → S.Succeeds τ (k ()) d' R) :
    S.Succeeds τ (unify a b origin >>= k) d R :=
  .bind (ensures_unify hd (fun _ => ⟨ha, hb⟩) origin) (succeeds_unify hd hfits ha hb heq origin)
    fun _ d' s h _ hfits' _ => hk d' s h hfits'

theorem succeeds_operands {args : List ValueId} (hd : S.Sound d) (hfits : S.Fits τ s d)
    (hoperand : ∀ o ∈ args, S.Answers τ n operand o) :
    S.Succeeds τ (args.mapM operand) d fun _ _ => True := by
  induction args generalizing d s with
  | nil => exact succeeds_pure hfits trivial
  | cons o args ih =>
    obtain ⟨ho, hargs⟩ := List.forall_mem_cons.1 hoperand
    rw [List.mapM_cons]
    refine ho.bind hd hfits fun t d₁ s₁ h₁ hfits₁ _ => ?_
    refine .bind (ensures_operands h₁.sound fun o ho => (hargs o ho).finds)
      (ih h₁.sound hfits₁ hargs) fun ts d₂ s₂ _ _ hfits₂ _ => ?_
    exact succeeds_pure hfits₂ trivial

section Rules

variable {id : ValueId} {own : Ty}

theorem succeeds_store {dst src : ValueId} (hd : S.Sound d) (hfits : S.Fits τ s d)
    (hrule : τ.type id = τ.type dst ∧ τ.type id = τ.type src) (hdst : S.Answers τ n operand dst)
    (hsrc : S.Answers τ n operand src) :
    S.Succeeds τ (instrType S.func operand id own (.store dst src)) d
      fun t s => t.subst s = τ.type id := by
  refine hdst.bind hd hfits fun dstTy d₁ s₁ h₁ hfits₁ hdst₁ => ?_
  refine hsrc.bind h₁.sound hfits₁ fun srcTy d₂ s₂ h₂ hfits₂ hsrc₂ => ?_
  have hdst₂ := h₂.kept dst dstTy hdst₁
  have heq : dstTy.subst s₂ = srcTy.subst s₂ := by
    rw [hfits₂.known dst dstTy hdst₂, hfits₂.known src srcTy hsrc₂, ← hrule.1, hrule.2]
  refine succeeds_unify_bind h₂.sound hfits₂ (h₂.sound.covered dst dstTy hdst₂)
    (h₂.sound.covered src srcTy hsrc₂) heq fun d₃ s₃ h₃ hfits₃ => succeeds_pure hfits₃ ?_
  rw [hfits₃.known dst dstTy (h₃.kept dst dstTy hdst₂), hrule.1]

theorem succeeds_ret {value : ValueId} (hd : S.Sound d) (hfits : S.Fits τ s d)
    (hrule : τ.type id = τ.type value ∧ τ.type id = τ.result)
    (hvalue : S.Answers τ n operand value) :
    S.Succeeds τ (instrType S.func operand id own (.ret value)) d
      fun t s => t.subst s = τ.type id := by
  refine hvalue.bind hd hfits fun valueTy d₁ s₁ h₁ hfits₁ hvalue₁ => ?_
  have heq : S.func.ret.subst s₁ = valueTy.subst s₁ := by
    rw [hfits₁.ret, hfits₁.known value valueTy hvalue₁, ← hrule.1, hrule.2]
  refine succeeds_unify_bind h₁.sound hfits₁ h₁.sound.built.ret
    (h₁.sound.covered value valueTy hvalue₁) heq fun d₂ s₂ h₂ hfits₂ => succeeds_pure hfits₂ ?_
  rw [hfits₂.known value valueTy (h₂.kept value valueTy hvalue₁), hrule.1]

theorem succeeds_branch {cond : ValueId} {thenBlock elseBlock : BlockId} (hd : S.Sound d)
    (hfits : S.Fits τ s d) (hrule : τ.type cond = Ty.bool ∧ τ.type id = Ty.unit)
    (hcond : S.Answers τ n operand cond) :
    S.Succeeds τ (instrType S.func operand id own (.branch cond thenBlock elseBlock)) d
      fun t s => t.subst s = τ.type id := by
  refine hcond.bind hd hfits fun condTy d₁ s₁ h₁ hfits₁ hcond₁ => ?_
  have heq : Ty.bool.subst s₁ = condTy.subst s₁ := by
    rw [hfits₁.known cond condTy hcond₁, hrule.1]
    simp [Ty.bool]
  refine succeeds_unify_bind h₁.sound hfits₁ (Table.covers_nullary _)
    (h₁.sound.covered cond condTy hcond₁) heq fun d₂ s₂ _ hfits₂ => succeeds_pure hfits₂ ?_
  rw [hrule.2]
  simp [Ty.unit, Ty.tuple]

-- The remaining instructions equate the type that the instruction was given with another one.
variable (hown : d.table.Covers own)
  (hownTy : ∀ {d s}, S.Fits τ s d → own.subst s = τ.type id)

include hown hownTy

theorem succeeds_load {src : ValueId} (hd : S.Sound d) (hfits : S.Fits τ s d)
    (hrule : τ.type id = τ.type src) (hsrc : S.Answers τ n operand src) :
    S.Succeeds τ (instrType S.func operand id own (.load src)) d
      fun t s => t.subst s = τ.type id := by
  refine hsrc.bind hd hfits fun srcTy d₁ s₁ h₁ hfits₁ hsrc₁ => ?_
  have heq : own.subst s₁ = srcTy.subst s₁ := by
    rw [hownTy hfits₁, hfits₁.known src srcTy hsrc₁, hrule]
  refine succeeds_unify_bind h₁.sound hfits₁ (hown.mono h₁.steps.size_le)
    (h₁.sound.covered src srcTy hsrc₁) heq fun d₂ s₂ h₂ hfits₂ => succeeds_pure hfits₂ ?_
  rw [hfits₂.known src srcTy (h₂.kept src srcTy hsrc₁), hrule]

theorem succeeds_binary {op : BinOp} {lhs rhs : ValueId} (hd : S.Sound d)
    (hfits : S.Fits τ s d) (hrule : τ.type lhs = τ.type rhs ∧ τ.type lhs = τ.type id)
    (hlhs : S.Answers τ n operand lhs) (hrhs : S.Answers τ n operand rhs) :
    S.Succeeds τ (instrType S.func operand id own (.binary op lhs rhs)) d
      fun t s => t.subst s = τ.type id := by
  refine hlhs.bind hd hfits fun lhsTy d₁ s₁ h₁ hfits₁ hlhs₁ => ?_
  refine hrhs.bind h₁.sound hfits₁ fun rhsTy d₂ s₂ h₂ hfits₂ hrhs₂ => ?_
  have hlhs₂ := h₂.kept lhs lhsTy hlhs₁
  have hcovers := h₂.sound.covered lhs lhsTy hlhs₂
  have heq : lhsTy.subst s₂ = rhsTy.subst s₂ := by
    rw [hfits₂.known lhs lhsTy hlhs₂, hfits₂.known rhs rhsTy hrhs₂, hrule.1]
  refine succeeds_unify_bind h₂.sound hfits₂ hcovers (h₂.sound.covered rhs rhsTy hrhs₂) heq
    fun d₃ s₃ h₃ hfits₃ => ?_
  have heq' : own.subst s₃ = lhsTy.subst s₃ := by
    rw [hownTy hfits₃, hfits₃.known lhs lhsTy (h₃.kept lhs lhsTy hlhs₂), hrule.2]
  have hown₃ := ((hown.mono h₁.steps.size_le).mono h₂.steps.size_le).mono h₃.steps.size_le
  exact succeeds_unify_bind h₃.sound hfits₃ hown₃ (hcovers.mono h₃.steps.size_le) heq'
    fun d₄ s₄ _ hfits₄ => succeeds_pure hfits₄ (hownTy hfits₄)

theorem succeeds_call {callee : ValueId} {args : List ValueId} (hd : S.Sound d)
    (hfits : S.Fits τ s d) (hrule : τ.type callee = Ty.curried (args.map τ.type) (τ.type id))
    (hcallee : S.Answers τ n operand callee) (hargs : ∀ o ∈ args, S.Answers τ n operand o) :
    S.Succeeds τ (instrType S.func operand id own (.call callee args)) d
      fun t s => t.subst s = τ.type id := by
  refine hcallee.bind hd hfits fun calleeTy d₁ s₁ h₁ hfits₁ hcallee₁ => ?_
  refine .bind (ensures_operands h₁.sound fun o ho => (hargs o ho).finds)
    (succeeds_operands h₁.sound hfits₁ hargs) fun argTys d₂ s₂ h₂ hargTys hfits₂ _ => ?_
  have hcallee₂ := h₂.kept callee calleeTy hcallee₁
  have hargs₂ : args.map τ.type = argTys.map (Ty.subst s₂) :=
    map_of_mapM (fun v t hv => (hfits₂.known v t hv).symm) hargTys.1
  have heq : calleeTy.subst s₂ = (Ty.curried argTys own).subst s₂ := by
    rw [hfits₂.known callee calleeTy hcallee₂, hrule, Ty.subst_curried, hargs₂, hownTy hfits₂]
  have hown₂ := (hown.mono h₁.steps.size_le).mono h₂.steps.size_le
  exact succeeds_unify_bind h₂.sound hfits₂ (h₂.sound.covered callee calleeTy hcallee₂)
    (Table.covers_curried.2 ⟨hargTys.2, hown₂⟩) heq
    fun d₃ s₃ _ hfits₃ => succeeds_pure hfits₃ (hownTy hfits₃)

end Rules

/-- The equations that an instruction imposes hold by its rule. -/
theorem succeeds_instrType {i : Instr} {id : ValueId} {own : Ty} (hd : S.Sound d)
    (hfits : S.Fits τ s d) (hid : S.func.Reaches id)
    (hvalue : S.func.values[id]? = some ⟨.instr i, own⟩)
    (hoperand : ∀ o ∈ i.operands, S.Answers τ n operand o) :
    S.Succeeds τ (instrType S.func operand id own i) d fun t s => t.subst s = τ.type id := by
  have hrule := τ.typed id _ hid hvalue
  have hown : d.table.Covers own := hd.built.own id _ hvalue
  have hownTy : ∀ {d s}, S.Fits τ s d → own.subst s = τ.type id :=
    fun h => h.own id _ hid hvalue
  cases i with
  | alloc => exact succeeds_pure hfits (hownTy hfits)
  | store dst src =>
    exact succeeds_store hd hfits (by simpa [Value.Typed, Instr.Typed] using hrule)
      (hoperand dst (by simp [Instr.operands])) (hoperand src (by simp [Instr.operands]))
  | load src =>
    exact succeeds_load hown hownTy hd hfits (by simpa [Value.Typed, Instr.Typed] using hrule)
      (hoperand src (by simp [Instr.operands]))
  | ret value =>
    exact succeeds_ret hd hfits (by simpa [Value.Typed, Instr.Typed] using hrule)
      (hoperand value (by simp [Instr.operands]))
  | binary op lhs rhs =>
    exact succeeds_binary hown hownTy hd hfits (by simpa [Value.Typed, Instr.Typed] using hrule)
      (hoperand lhs (by simp [Instr.operands])) (hoperand rhs (by simp [Instr.operands]))
  | call callee args =>
    have hargTypes : args.mapM (fun o => some (τ.type o)) = some (args.map τ.type) :=
      List.mapM_pure (m := Option)
    exact succeeds_call hown hownTy hd hfits
      (by simpa [Value.Typed, Instr.Typed, hargTypes] using hrule)
      (hoperand callee (by simp [Instr.operands]))
      fun o ho => hoperand o (by simp [Instr.operands, ho])
  | branch cond thenBlock elseBlock =>
    exact succeeds_branch hd hfits (by simpa [Value.Typed, Instr.Typed] using hrule)
      (hoperand cond (by simp [Instr.operands]))
  | jump target =>
    have hrule : τ.type id = Ty.unit := hrule
    refine succeeds_pure hfits ?_
    rw [hrule]
    simp [Ty.unit, Ty.tuple]

/-! ## Values -/

/-- A closed scheme can be used at any of its instances. -/
theorem succeeds_instantiate (hd : S.Sound d) (hfits : S.Fits τ s d) {scheme : Scheme}
    (hclosed : scheme.Closed) {u : Ty} (hu : scheme.IsInstance u) :
    S.Succeeds τ (solve (Table.instantiate scheme)) d fun t s => t.subst s = u := by
  obtain ⟨s', hs', hsame, hinstance⟩ :=
    Table.exists_solves_instance hd.wellFormed hfits.solves hclosed hu
  refine ⟨_, _, s', ?_, hfits.congr hd hs' hsame, hinstance⟩
  simp only [solve, zoom, Table.instantiate_closed hclosed]

theorem succeeds_valueType {id : ValueId} {value : Value}
    (hclosed : S.env.Closed) (hd : S.Sound d)
    (hfits : S.Fits τ s d) (hid : S.func.Reaches id) (hvalue : S.func.values[id]? = some value)
    (hoperand : ∀ o ∈ S.func.operands id, S.Answers τ n operand o) :
    S.Succeeds τ (valueType S.env S.func operand id value) d fun t s => t.subst s = τ.type id := by
  have hown := hd.built.own id value hvalue
  obtain ⟨kind, own⟩ := value
  cases kind with
  | int k | float | arg index => exact succeeds_pure hfits (hfits.own id _ hid hvalue)
  | global name =>
    obtain ⟨scheme, u, hscheme, hinstance, hu⟩ := τ.typed id _ hid hvalue
    simp only [valueType, hscheme]
    refine .bind (n := 0) (ensures_instantiate hd hscheme)
      (succeeds_instantiate hd hfits (hclosed name scheme hscheme) hinstance)
      fun t d₁ s₁ h₁ ht hfits₁ htu => ?_
    have heq : own.subst s₁ = t.subst s₁ := by
      rw [hfits₁.own id _ hid hvalue, htu]
      exact hu
    have ht₁ := ht.2 (Env.covered_of_closed hclosed d₁.table)
    exact succeeds_unify_bind h₁.sound hfits₁ (hown.mono h₁.steps.size_le) ht₁ heq
      fun d₂ s₂ _ hfits₂ => succeeds_pure hfits₂ (hfits₂.own id _ hid hvalue)
  | instr i =>
    rw [Func.operands_of_instr hvalue] at hoperand
    exact succeeds_instrType hd hfits hid hvalue hoperand

/-- Induction on the depth, as for `ensures_deduceWithin`. -/
theorem succeeds_deduceWithin {depth : Nat} {id : ValueId}
    (hclosed : S.env.Closed) (hd : S.Sound d)
    (hfits : S.Fits τ s d) (hid : S.func.Reaches id) (hdepth : S.rank id < depth) :
    S.Succeeds τ (deduceWithin S.env S.func depth id) d fun _ _ => True := by
  induction depth generalizing id d s with
  | zero => exact absurd hdepth (Nat.not_lt_zero _)
  | succ depth ih =>
    cases hknown : d.known.get? id with
    | some t => exact ⟨t, d, s, deduceWithin_known hknown, hfits, trivial⟩
    | none =>
      have hlt := hid.lt_size hd.built S.inRange
      obtain ⟨value, hvalue⟩ : ∃ value, S.func.values[id]? = some value :=
        ⟨_, Array.getElem?_eq_getElem hlt⟩
      have hoperand : ∀ o ∈ S.func.operands id,
          S.Answers τ (S.rank id) (deduceWithin S.env S.func depth) o := by
        intro o ho
        have hrank := S.rank_lt id o ho
        refine ⟨fun d₁ hd₁ => ?_, fun d₁ s₁ hd₁ hfits₁ => ?_⟩
        · exact (ensures_deduceWithin hd₁ (S.inRange id hlt o ho) (by omega)).mono hrank
            fun _ _ _ h => h
        · exact ih hd₁ hfits₁ (hid.operand ho) (by omega)
      obtain ⟨t, d₁, s₁, hrun, hfits₁, ht⟩ :=
        succeeds_valueType hclosed hd hfits hid hvalue hoperand
      refine ⟨t, { d₁ with known := d₁.known.insert id t }, s₁, ?_, ?_, trivial⟩
      · rw [deduceWithin_unknown hknown hvalue, bind_apply, hrun]
        rfl
      · refine { hfits₁ with known := fun v u hv => ?_ }
        rw [Assoc.get?_insert] at hv
        split at hv
        · rename_i heq
          subst heq
          obtain rfl := Option.some.inj hv
          exact ht
        · exact hfits₁.known v u hv

theorem succeeds_deduceEach {vs : List ValueId}
    (hclosed : S.env.Closed) (hd : S.Sound d)
    (hfits : S.Fits τ s d) (hvs : ∀ v ∈ vs, S.func.Reaches v) :
    S.Succeeds τ (deduceEach S.env S.func vs) d fun _ _ => True := by
  induction vs generalizing d s with
  | nil => exact succeeds_pure hfits trivial
  | cons v vs ih =>
    obtain ⟨hv, hvs⟩ := List.forall_mem_cons.1 hvs
    have hrank := S.rank_le v
    refine .bind (ensures_deduce hd (hv.lt_size hd.built S.inRange))
      (succeeds_deduceWithin hclosed hd hfits hv (by omega)) fun _ d₁ s₁ h₁ _ hfits₁ _ => ?_
    exact ih h₁.sound hfits₁ hvs

/-! ## Typings from solutions -/

theorem Sound.exists_known (hd : S.Sound d)
    (hknown : ∀ v ∈ S.func.args ++ S.func.instrs, ∃ t, d.known.get? v = some t) {v : ValueId}
    (hv : S.func.Reaches v) : ∃ t, d.known.get? v = some t := by
  obtain ⟨u, hu, hpath⟩ := hv
  induction hpath with
  | refl => exact hknown u hu
  | tail _ ho ih =>
    obtain ⟨t, ht⟩ := ih
    obtain ⟨value, hvalue, htyped⟩ := hd.typed _ t ht
    exact htyped.operands hvalue _ ho

/-- Once everything that is reached is known, every solution of the table gives a
typing. -/
theorem Sound.exists_typing (hd : S.Sound d) (hheld : S.held = fun _ => S.env)
    (hclosed : S.env.Closed)
    (hknown : ∀ v ∈ S.func.args ++ S.func.instrs, ∃ t, d.known.get? v = some t)
    (hs : d.table.Solves s) :
    ∃ τ : S.func.Typing S.env, τ.result = S.func.ret.subst s ∧
      ∀ v t, d.known.get? v = some t → τ.type v = t.subst s := by
  let A : ValueId → Ty := fun v => ((d.known.get? v).map (Ty.subst s)).getD Ty.unit
  have hA : ∀ v t, d.known.get? v = some t → A v = t.subst s := by
    intro v t hv
    simp only [A, hv, Option.map_some, Option.getD_some]
  refine ⟨⟨A, S.func.ret.subst s, fun v value hv hvalue => ?_⟩, rfl, hA⟩
  obtain ⟨t, ht⟩ := hd.exists_known hknown hv
  obtain ⟨value', hvalue', htyped⟩ := hd.typed v t ht
  obtain rfl := Option.some.inj (hvalue.symm.trans hvalue')
  rw [hheld] at htyped
  rw [hA v t ht]
  exact htyped.subst hclosed (fun a b hab => ((Table.agree_iff hd.wellFormed).1 hab).2.2 s hs) hA

end Deduction.Setting

/-! ## Whole functions -/

namespace Deduction

section
variable {S : Setting} {T T' : Table} {t : Ty}

/-- If a typing fits from the start, the function is typed, and the typing gives it an
instance of the type that is found. -/
theorem Setting.Sound.infer_of_fits {τ : S.func.Typing S.env} {s : Assignment}
    (hclosed : S.env.Closed)
    (hS : S.Sound ⟨T, ∅⟩) (hfits : S.Fits τ s ⟨T, ∅⟩) :
    ∃ t T', S.func.infer S.env T = .ok t T' ∧ ∃ σ, τ.signature = t.subst σ := by
  obtain ⟨_, d, s', hrun, hfits', _⟩ :=
    Setting.succeeds_deduceEach hclosed hS hfits fun v hv => Func.reaches_of_mem hv
  have hall := (Setting.ensures_deduceEach hS hS.built.lt_size).meets
  rw [hrun] at hall
  have hd := hall.1.sound
  refine ⟨_, _, infer_of_deduceAll hrun hd.wellFormed hd.built, s', ?_⟩
  have htypes : S.func.args.map τ.type = (S.func.args.map S.func.typeOf).map (Ty.subst s') := by
    rw [List.map_map]
    refine List.map_congr_left fun v hv => ?_
    obtain ⟨index, own, hown⟩ := hd.built.arg v hv
    rw [Function.comp_apply, Func.typeOf_eq hown]
    exact (hfits'.own v _ (Func.reaches_of_mem (List.mem_append_left _ hv)) hown).symm
  have hcovers := Func.covers_prototype hd.built
  calc τ.signature = S.func.prototype.subst s' := by
        rw [Func.prototype, Ty.subst_curried, ← htypes, hfits'.ret]
        rfl
    _ = (S.func.prototype.subst d.table.solution).subst s' := by
        rw [Ty.subst_subst]
        exact Ty.subst_congr fun v hv =>
          (Table.subst_solution hd.wellFormed hfits'.solves v (hcovers v hv)).symm

/-- Typing a function comes back. -/
theorem Setting.Sound.infer_returns (hcovered : S.env.Covered T) (hS : S.Sound ⟨T, ∅⟩) :
    (S.func.infer S.env T).Returns := by
  have hall := Setting.ensures_deduceEach hS hS.built.lt_size
  cases hrun : deduceEach S.env S.func (S.func.args ++ S.func.instrs) ⟨T, ∅⟩ with
  | ok a d =>
    have hd : S.Sound d := hall.sound (by rw [hrun]; rfl)
    rw [infer_of_deduceAll hrun hd.wellFormed hd.built]
    exact Outcome.returns_ok _ _
  | error e d =>
    unfold Func.infer deduceAll
    rw [hrun]
    exact Outcome.returns_error _ _
  | fault f =>
    have hreturns := hall.returns hcovered
    rw [hrun] at hreturns
    obtain ⟨d, hd⟩ := hreturns
    cases hd

/-- Every instance of the type that is found is the type under some typing. -/
theorem Setting.Sound.exists_typing_of_infer (hheld : S.held = fun _ => S.env)
    (hclosed : S.env.Closed)
    (hS : S.Sound ⟨T, ∅⟩) (h : S.func.infer S.env T = .ok t T') (σ : Assignment) :
    ∃ τ : S.func.Typing S.env, τ.signature = t.subst σ := by
  obtain ⟨d, hd, rfl, hknown, argTys, hargTys, hresolve⟩ := hS.infer h
  have hsolves := (Table.solves_solution hd.wellFormed).subst σ
  obtain ⟨τ, hresult, htypes⟩ := hd.exists_typing hheld hclosed hknown hsolves
  refine ⟨τ, ?_⟩
  rw [Table.resolve_eq hd.wellFormed (Table.covers_of_resolve hresolve)] at hresolve
  rw [← Except.ok.inj hresolve, Ty.subst_subst, Ty.subst_curried, ← hresult,
    ← map_of_mapM htypes hargTys]
  rfl

end

variable {f : Func} {T₀ T₁ T : Table} {name : String} {calls : List Builder.Call} {env : Env}

/-- Typing infers the principal type. Let nothing have been imposed on the unknowns of a
function since it was built, and let the schemes it mentions be closed. Then typing it
comes back; it succeeds exactly if the function has a typing; and the types that the
function has under its typings are exactly the instances of the type that was found. -/
theorem infer_principal (hT₀ : T₀.Reachable) (hbuild : Func.build name calls T₀ = .ok (f, T₁))
    (hrange : f.InRange) (hacyclic : f.Acyclic) (hleads : T₁.Leads T)
    (hfree : T.Independent f.unknowns)
    (henv : ∀ g scheme, f.Mentions g → env.get? g = some scheme → scheme.Closed) :
    (f.infer env T).Returns ∧
    ((∃ t T', f.infer env T = .ok t T') ↔ Nonempty (f.Typing env)) ∧
    ∀ t T', f.infer env T = .ok t T' →
      ∀ u, (∃ τ : f.Typing env, τ.signature = u) ↔ ∃ σ, u = t.subst σ := by
  classical
  have hT₁ := (Func.evolved_build hbuild hT₀.wellFormed.evolved).wellFormed
  have hT := hleads.evolved hT₁
  -- Schemes that are not mentioned may be anything; without them, all are closed.
  let env' : Env := env.filterKeys fun g => decide (f.Mentions g)
  have hget : ∀ g, env'.get? g = if f.Mentions g then env.get? g else none := by
    intro g
    simp only [env', Assoc.get?_filterKeys, decide_eq_true_eq]
  have hsame : ∀ g, f.Mentions g → env.get? g = env'.get? g := by
    intro g hg
    rw [hget, if_pos hg]
  have hclosed : env'.Closed := by
    intro g scheme hscheme
    rw [hget] at hscheme
    split at hscheme
    · exact henv g scheme ‹_› hscheme
    · cases hscheme
  rw [infer_congr hsame]
  obtain ⟨S, rfl, henv', hheld, hS⟩ := exists_setting hrange hacyclic
    (fun g scheme hscheme => Or.inl (hclosed g scheme hscheme)) hT.wellFormed
    ((Func.scoped_build hbuild).mono hT.steps.size_le)
  rw [← henv'] at hheld hclosed hsame ⊢
  have hinfer : ∀ τ : S.func.Typing env, ∃ t T', S.func.infer S.env T = .ok t T' ∧
      ∃ σ, τ.signature = t.subst σ := by
    intro τ
    obtain ⟨s, hs, hret, hown⟩ := (Func.built_build hbuild).exists_solves hT.wellFormed hfree τ
    refine hS.infer_of_fits (τ := τ.transfer hsame) (s := s) hclosed ⟨hs, hret, hown, ?_⟩
    intro v t hv
    cases hv
  have htyping : ∀ t T', S.func.infer S.env T = .ok t T' → ∀ σ,
      ∃ τ : S.func.Typing env, τ.signature = t.subst σ := by
    intro t T' h σ
    obtain ⟨τ, hτ⟩ := hS.exists_typing_of_infer hheld hclosed h σ
    exact ⟨τ.transfer fun g hg => (hsame g hg).symm, hτ⟩
  refine ⟨?_, ⟨?_, ?_⟩, fun t T' h u => ⟨?_, ?_⟩⟩
  · exact hS.infer_returns (Env.covered_of_closed hclosed T)
  · rintro ⟨t, T', h⟩
    obtain ⟨τ, _⟩ := htyping t T' h .var
    exact ⟨τ⟩
  · rintro ⟨τ⟩
    obtain ⟨t, T', h, _⟩ := hinfer τ
    exact ⟨t, T', h⟩
  · rintro ⟨τ, rfl⟩
    obtain ⟨t', T'', h', hσ⟩ := hinfer τ
    rw [h] at h'
    cases h'
    exact hσ
  · rintro ⟨σ, rfl⟩
    exact htyping t T' h σ

/-- A function that uses the identity at the type of its argument and at `Int`. It takes
any type to itself. -/
theorem infer_principal_identity :
    let env : Env := (∅ : Env).insert "id" ⟨[7], .arrow (.var 7) (.var 7)⟩
    ∃ f T₁, Func.build "both" [.arg, .global "id", .instr (.call 1 [0]), .int 1, .global "id",
        .instr (.call 4 [3]), .instr (.ret 2)] Table.empty = .ok (f, T₁) ∧ f.InRange ∧ f.Acyclic ∧
      T₁.Independent f.unknowns ∧ (∃ t T', f.infer env T₁ = .ok t T') ∧
      ∀ u, (∃ τ : f.Typing env, τ.signature = u) ↔ ∃ t, u = .arrow t t := by
  intro env
  let f : Func :=
    { name := "both"
      values := #[⟨.arg 0, .var 1⟩, ⟨.global "id", .var 2⟩, ⟨.instr (.call 1 [0]), .var 3⟩,
        ⟨.int 1, Ty.int⟩, ⟨.global "id", .var 4⟩, ⟨.instr (.call 4 [3]), .var 5⟩,
        ⟨.instr (.ret 2), .var 6⟩]
      blocks := #[[2, 5, 6]], args := [0], ret := .var 0 }
  have hbuild : Func.build "both" [.arg, .global "id", .instr (.call 1 [0]), .int 1, .global "id",
      .instr (.call 4 [3]), .instr (.ret 2)] Table.empty = .ok (f, Table.empty.grow 7) := rfl
  have hrange : f.InRange := by decide
  have hacyclic : f.Acyclic := Func.acyclic_of_rank id (by decide)
  have hfree := (Func.built_build hbuild).independent Table.wellFormed_empty
  have hclosed : ∀ g scheme, f.Mentions g → env.get? g = some scheme → scheme.Closed := by
    intro g scheme _ hscheme
    rw [Assoc.get?_insert] at hscheme
    split at hscheme
    · obtain rfl := Option.some.inj hscheme
      decide
    · cases hscheme
  obtain ⟨T', hrun⟩ : ∃ T', f.infer env (Table.empty.grow 7) = .ok (.arrow (.var 1) (.var 1)) T' :=
    Outcome.exists_ok (by decide +kernel)
  have hprincipal := infer_principal .refl hbuild hrange hacyclic .refl hfree hclosed
  refine ⟨f, _, hbuild, hrange, hacyclic, hfree, ⟨_, _, hrun⟩, fun u => ?_⟩
  rw [hprincipal.2.2 _ _ hrun]
  constructor
  · rintro ⟨σ, rfl⟩
    exact ⟨σ 1, by simp⟩
  · rintro ⟨t, rfl⟩
    exact ⟨fun _ => t, by simp⟩

end Deduction

end TypeLayer
