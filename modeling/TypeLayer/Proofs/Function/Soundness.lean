import TypeLayer.Proofs.Function.Rules

/-!
# Soundness of typing

A type that has been found for a value stays right.  The equations of a value are
imposed once, when it becomes known; from then on its typing rule holds under the
bindings of the table, whatever is typed or unified later, and however that ends.

`Setting` holds what one call of `deduce` works under, and `Setting.Sound` is the
invariant of a deduction: every known value is typed.  `Setting.Ensures` is the
promise of a part of a call: however it ends, the deduction has advanced to a sound
one; and it ends.  The promise of `deduce` is put together from the promises of its
parts, one case for each instruction.

A `Session` is a sequence of calls on one context, with other operations in
between.  The main result `deduce_sound` is about all sessions.
-/

namespace TypeLayer

open TypeLayer.Action

namespace Deduction

/-- What a call of `deduce` works under. `held` gives for every known value the
environment it was typed in. Ranks decrease from values to operands, so that typing
the operands of a value never touches the value itself. -/
structure Setting where
  func : Func
  inRange : func.InRange
  rank : ValueId → Nat
  rank_le : ∀ v, rank v ≤ func.values.size
  rank_lt : ∀ v, ∀ o ∈ func.operands v, rank o < rank v
  env : Env
  plain : env.Plain
  held : ValueId → Env

namespace Setting

variable {S : Setting} {n m : Nat} {d d' d'' : Deduction} {T : Table} {α β : Type}

/-! ## Sound deductions -/

/-- Every known value is typed. Values still to be typed are left to the
environment of the call. -/
structure Sound (S : Setting) (d : Deduction) : Prop where
  wellFormed : d.table.WellFormed
  built : S.func.Scoped d.table
  pending : ∀ v, d.known.get? v = none → S.held v = S.env
  covered : ∀ v t, d.known.get? v = some t → d.table.Covers t
  typed : ∀ v t, d.known.get? v = some t → ∃ value, S.func.values[v]? = some value ∧
    value.Typed d.table.Agree (S.held v) S.func.ret d.known.get? t

/-- The deduction has advanced to a sound one. Values of rank `n` and above are as
they were. -/
structure Advance (S : Setting) (n : Nat) (d d' : Deduction) : Prop where
  sound : S.Sound d'
  steps : d.table.Steps d'.table
  kept : ∀ v t, d.known.get? v = some t → d'.known.get? v = some t
  above : ∀ v, n ≤ S.rank v → d'.known.get? v = d.known.get? v

theorem Sound.refl (hd : S.Sound d) : S.Advance n d d :=
  ⟨hd, .refl, fun _ _ h => h, fun _ _ => rfl⟩

theorem Advance.trans (h : S.Advance n d d') (h' : S.Advance n d' d'') : S.Advance n d d'' where
  sound := h'.sound
  steps := h.steps.trans h'.steps
  kept := fun v t hv => h'.kept v t (h.kept v t hv)
  above := fun v hv => (h'.above v hv).trans (h.above v hv)

theorem Advance.mono (h : S.Advance n d d') (hnm : n ≤ m) : S.Advance m d d' :=
  { h with above := fun v hv => h.above v (Nat.le_trans hnm hv) }

/-- What happens to the table alone leaves all values typed. -/
theorem Sound.evolved (hd : S.Sound d) (hT : d.table.Evolved T) :
    S.Advance n d { d with table := T } where
  sound :=
    { wellFormed := hT.wellFormed
      built := hd.built.mono hT.steps.size_le
      pending := hd.pending
      covered := fun v t hv => (hd.covered v t hv).mono hT.steps.size_le
      typed := fun v t hv => by
        obtain ⟨value, hvalue, htyped⟩ := hd.typed v t hv
        exact ⟨value, hvalue, htyped.mono (fun _ _ => hT.steps.agree hd.wellFormed) fun _ _ h => h⟩ }
  steps := hT.steps
  kept := fun _ _ h => h
  above := fun _ _ => rfl

/-- A value that is not known yet can be recorded once its rule holds. -/
theorem Sound.recorded (hd : S.Sound d) {id : ValueId} {value : Value} {t : Ty}
    (hid : S.func.values[id]? = some value) (hunknown : d.known.get? id = none)
    (ht : d.table.Covers t)
    (htyped : value.Typed d.table.Agree S.env S.func.ret d.known.get? t) :
    S.Advance (S.rank id + 1) d { d with known := d.known.insert id t } := by
  have hget : ∀ v, (d.known.insert id t).get? v = if id = v then some t else d.known.get? v :=
    fun v => Assoc.get?_insert ..
  have hkept : ∀ v u, d.known.get? v = some u → (d.known.insert id t).get? v = some u :=
    fun v u hv => Assoc.get?_insert_of_unknown hunknown hv
  refine ⟨⟨hd.wellFormed, hd.built, ?_, ?_, ?_⟩, .refl, hkept, ?_⟩
  · intro v hv
    refine hd.pending v ?_
    cases hv' : d.known.get? v with
    | none => rfl
    | some u =>
      rw [hkept v u hv'] at hv
      cases hv
  · intro v u hv
    by_cases heq : id = v
    · rw [hget, if_pos heq] at hv
      obtain rfl := Option.some.inj hv
      exact ht
    · rw [hget, if_neg heq] at hv
      exact hd.covered v u hv
  · intro v u hv
    by_cases heq : id = v
    · -- The value was pending, so that it is typed in the environment of the call.
      rw [hget, if_pos heq] at hv
      obtain rfl := Option.some.inj hv
      subst heq
      refine ⟨value, hid, ?_⟩
      rw [hd.pending id hunknown]
      exact htyped.mono (fun _ _ h => h) hkept
    · rw [hget, if_neg heq] at hv
      obtain ⟨value', hvalue', htyped'⟩ := hd.typed v u hv
      exact ⟨value', hvalue', htyped'.mono (fun _ _ h => h) hkept⟩
  · intro v hv
    rw [hget, if_neg]
    intro heq
    rw [heq] at hv
    exact absurd hv (Nat.not_succ_le_self _)

/-! ## Promises of calls -/

/-- However the call ends, the deduction has advanced; if the call returns, `Q`
holds. The call ends unless the environment mentions unknowns that were never
created. -/
structure Ensures (S : Setting) (n : Nat) (x : Deduce α) (d : Deduction)
    (Q : α → Deduction → Prop) : Prop where
  meets : (x d).Meets (fun a d' => S.Advance n d d' ∧ Q a d') (fun _ d' => S.Advance n d d')
  returns : S.env.Covered d.table → (x d).Returns

variable {x : Deduce α} {Q : α → Deduction → Prop} {R : β → Deduction → Prop}

theorem Ensures.congr {y : Deduce α} (h : S.Ensures n y d Q) (hxy : x d = y d) :
    S.Ensures n x d Q := by
  obtain ⟨hmeets, hreturns⟩ := h
  rw [← hxy] at hmeets hreturns
  exact ⟨hmeets, hreturns⟩

theorem Ensures.mono {Q' : α → Deduction → Prop} (h : S.Ensures n x d Q) (hnm : n ≤ m)
    (hQ : ∀ a d', S.Advance n d d' → Q a d' → Q' a d') : S.Ensures m x d Q' where
  meets := h.meets.mono (fun a d' ha => ⟨ha.1.mono hnm, hQ a d' ha.1 ha.2⟩)
    (fun _ _ he => he.mono hnm)
  returns := h.returns

theorem Ensures.bind {k : α → Deduce β} (hx : S.Ensures n x d Q)
    (hk : ∀ a d', S.Advance n d d' → Q a d' → S.Ensures n (k a) d' R) :
    S.Ensures n (x >>= k) d R where
  meets := meets_bind hx.meets fun a d' ha =>
    (hk a d' ha.1 ha.2).meets.mono (fun _ _ h => ⟨ha.1.trans h.1, h.2⟩) (fun _ _ h => ha.1.trans h)
  returns := fun hcovered => returns_bind (hx.returns hcovered) fun a d' hrun => by
    have hmeets := hx.meets
    rw [hrun] at hmeets
    exact (hk a d' hmeets.1 hmeets.2).returns (hcovered.mono hmeets.1.steps.size_le)

theorem Ensures.sound (h : S.Ensures n x d Q) (hrun : (x d).state? = some d') : S.Sound d' := by
  have hmeets : (x d).Meets (fun _ => S.Sound) (fun _ => S.Sound) :=
    h.meets.mono (fun _ _ ha => ha.1.sound) (fun _ _ he => he.sound)
  exact Outcome.meets_state_iff.1 hmeets d' hrun

theorem ensures_pure {a : α} (hd : S.Sound d) (hQ : Q a d) : S.Ensures n (pure a) d Q :=
  ⟨⟨hd.refl, hQ⟩, fun _ => Outcome.returns_ok a d⟩

theorem ensures_fail (hd : S.Sound d) (e : TypeError) : S.Ensures n (fail e) d Q :=
  ⟨hd.refl, fun _ => Outcome.returns_error e d⟩

theorem ensures_unify (hd : S.Sound d) {a b : Ty}
    (hcovers : S.env.Covered d.table → d.table.Covers a ∧ d.table.Covers b) (origin : Origin) :
    S.Ensures n (unify a b origin) d fun _ d' => d'.table.Agree a b where
  meets := by
    unfold unify solve
    refine meets_zoom ((Table.unify_decides hd.wellFormed).mono ?_ ?_)
    · intro _ T h
      exact ⟨hd.evolved ⟨h.steps.wellFormed hd.wellFormed, h.steps⟩, h.agree hd.wellFormed⟩
    · intro _ T h
      exact hd.evolved ⟨h.steps.wellFormed hd.wellFormed, h.steps⟩
  returns := by
    intro hcovered
    obtain ⟨ha, hb⟩ := hcovers hcovered
    unfold unify solve
    exact returns_zoom (Table.unify_returns hd.wellFormed ha hb)

theorem ensures_instantiate (hd : S.Sound d) {name : String} {s : Scheme}
    (hs : S.env.get? name = some s) :
    S.Ensures n (solve (Table.instantiate s)) d fun t d' =>
      s.IsInstance t ∧ (S.env.Covered d'.table → d'.table.Covers t) := by
  obtain ⟨t, T, hrun, hevolved, hinstance, hcovers⟩ :=
    Table.exists_instantiate hd.wellFormed (S.plain name s hs)
  have hrun' : solve (Table.instantiate s) d = .ok t { d with table := T } := by
    simp only [solve, zoom, hrun]
  refine ⟨?_, fun _ => ?_⟩
  · rw [hrun']
    exact ⟨hd.evolved hevolved, hinstance, fun hcovered => hcovers (hcovered name s hs)⟩
  · rw [hrun']
    exact Outcome.returns_ok _ _

/-! ## Instructions -/

/-- The call finds the type of a value and leaves the value known. -/
abbrev Finds (S : Setting) (n : Nat) (operand : ValueId → Deduce Ty) (o : ValueId) : Prop :=
  ∀ d, S.Sound d → S.Ensures n (operand o) d fun t d' => d'.known.get? o = some t

variable {operand : ValueId → Deduce Ty}

theorem ensures_operands {args : List ValueId} (hd : S.Sound d)
    (hoperand : ∀ o ∈ args, S.Finds n operand o) :
    S.Ensures n (args.mapM operand) d fun ts d' =>
      args.mapM d'.known.get? = some ts ∧ ∀ t ∈ ts, d'.table.Covers t := by
  induction args generalizing d with
  | nil => exact ensures_pure hd ⟨rfl, fun t ht => nomatch ht⟩
  | cons o args ih =>
    rw [List.mapM_cons]
    refine (hoperand o List.mem_cons_self d hd).bind fun t d₁ h₁ ht => ?_
    refine (ih h₁.sound fun o ho => hoperand o (List.mem_cons_of_mem _ ho)).bind
      fun ts d₂ h₂ hts => ensures_pure h₂.sound ⟨?_, ?_⟩
    · simp [List.mapM_cons, h₂.kept o t ht, hts.1]
    · exact List.forall_mem_cons.2 ⟨h₂.sound.covered o t (h₂.kept o t ht), hts.2⟩

/-- An instruction imposes its rule. -/
theorem ensures_instrType {i : Instr} {id : ValueId} {own : Ty} (hd : S.Sound d)
    (hown : d.table.Covers own) (hoperand : ∀ o ∈ i.operands, S.Finds n operand o) :
    S.Ensures n (instrType S.func operand id own i) d fun t d' =>
      d'.table.Covers t ∧ i.Typed d'.table.Agree S.func.ret own d'.known.get? t := by
  cases i with
  | alloc => exact ensures_pure hd ⟨hown, Table.agree_self hd.wellFormed hown⟩
  | store dst src =>
    refine (hoperand dst (by simp [Instr.operands]) d hd).bind fun dstTy d₁ h₁ hdst => ?_
    refine (hoperand src (by simp [Instr.operands]) d₁ h₁.sound).bind fun srcTy d₂ h₂ hsrc => ?_
    have hdst₂ := h₂.kept dst dstTy hdst
    have hcovers := h₂.sound.covered dst dstTy hdst₂
    refine (ensures_unify h₂.sound
      (fun _ => ⟨hcovers, h₂.sound.covered src srcTy hsrc⟩) _).bind fun _ d₃ h₃ hagree => ?_
    have hcovers₃ := hcovers.mono h₃.steps.size_le
    exact ensures_pure h₃.sound ⟨hcovers₃, dstTy, srcTy, h₃.kept _ _ hdst₂, h₃.kept _ _ hsrc,
      Table.agree_self h₃.sound.wellFormed hcovers₃, hagree⟩
  | load src =>
    refine (hoperand src (by simp [Instr.operands]) d hd).bind fun srcTy d₁ h₁ hsrc => ?_
    have hcovers := h₁.sound.covered src srcTy hsrc
    refine (ensures_unify h₁.sound
      (fun _ => ⟨hown.mono h₁.steps.size_le, hcovers⟩) _).bind fun _ d₂ h₂ hagree => ?_
    have hcovers₂ := hcovers.mono h₂.steps.size_le
    exact ensures_pure h₂.sound ⟨hcovers₂, srcTy, h₂.kept _ _ hsrc, hagree.symm,
      Table.agree_self h₂.sound.wellFormed hcovers₂⟩
  | ret value =>
    refine (hoperand value (by simp [Instr.operands]) d hd).bind fun valueTy d₁ h₁ hvalue => ?_
    have hcovers := h₁.sound.covered value valueTy hvalue
    refine (ensures_unify h₁.sound
      (fun _ => ⟨h₁.sound.built.ret, hcovers⟩) _).bind fun _ d₂ h₂ hagree => ?_
    have hcovers₂ := hcovers.mono h₂.steps.size_le
    exact ensures_pure h₂.sound ⟨hcovers₂, valueTy, h₂.kept _ _ hvalue,
      Table.agree_self h₂.sound.wellFormed hcovers₂, hagree.symm⟩
  | binary op lhs rhs =>
    refine (hoperand lhs (by simp [Instr.operands]) d hd).bind fun lhsTy d₁ h₁ hlhs => ?_
    refine (hoperand rhs (by simp [Instr.operands]) d₁ h₁.sound).bind fun rhsTy d₂ h₂ hrhs => ?_
    have hlhs₂ := h₂.kept lhs lhsTy hlhs
    have hcovers := h₂.sound.covered lhs lhsTy hlhs₂
    have hown₂ := (hown.mono h₁.steps.size_le).mono h₂.steps.size_le
    refine (ensures_unify h₂.sound
      (fun _ => ⟨hcovers, h₂.sound.covered rhs rhsTy hrhs⟩) _).bind fun _ d₃ h₃ hagree => ?_
    refine (ensures_unify h₃.sound (fun _ => ⟨hown₂.mono h₃.steps.size_le,
      hcovers.mono h₃.steps.size_le⟩) _).bind fun _ d₄ h₄ hagree' => ?_
    exact ensures_pure h₄.sound ⟨(hown₂.mono h₃.steps.size_le).mono h₄.steps.size_le,
      lhsTy, rhsTy, h₄.kept _ _ (h₃.kept _ _ hlhs₂), h₄.kept _ _ (h₃.kept _ _ hrhs),
      h₄.steps.agree h₃.sound.wellFormed hagree, hagree'.symm⟩
  | call callee args =>
    refine (hoperand callee (by simp [Instr.operands]) d hd).bind fun calleeTy d₁ h₁ hcallee => ?_
    refine (ensures_operands h₁.sound fun o ho => hoperand o (by simp [Instr.operands, ho])).bind
      fun argTys d₂ h₂ hargs => ?_
    have hcallee₂ := h₂.kept callee calleeTy hcallee
    have hown₂ := (hown.mono h₁.steps.size_le).mono h₂.steps.size_le
    refine (ensures_unify h₂.sound (fun _ => ⟨h₂.sound.covered callee calleeTy hcallee₂,
      Table.covers_curried.2 ⟨hargs.2, hown₂⟩⟩) _).bind fun _ d₃ h₃ hagree => ?_
    exact ensures_pure h₃.sound ⟨hown₂.mono h₃.steps.size_le, calleeTy, argTys,
      h₃.kept _ _ hcallee₂, mapM_mono h₃.kept hargs.1, hagree⟩
  | branch cond thenBlock elseBlock =>
    refine (hoperand cond (by simp [Instr.operands]) d hd).bind fun condTy d₁ h₁ hcond => ?_
    refine (ensures_unify h₁.sound (fun _ => ⟨Table.covers_nullary _,
      h₁.sound.covered cond condTy hcond⟩) _).bind fun _ d₂ h₂ hagree => ?_
    have hunit : d₂.table.Covers Ty.unit := Table.covers_nullary _
    exact ensures_pure h₂.sound ⟨hunit, condTy, h₂.kept _ _ hcond, hagree.symm,
      Table.agree_self h₂.sound.wellFormed hunit⟩
  | jump target =>
    have hunit : d.table.Covers Ty.unit := Table.covers_nullary _
    exact ensures_pure hd ⟨hunit, Table.agree_self hd.wellFormed hunit⟩

/-- Typing a value imposes its rule. -/
theorem ensures_valueType {id : ValueId} {value : Value} (hd : S.Sound d)
    (hid : S.func.values[id]? = some value)
    (hoperand : ∀ o ∈ S.func.operands id, S.Finds n operand o) :
    S.Ensures n (valueType S.env S.func operand id value) d fun t d' =>
      d'.table.Covers t ∧ value.Typed d'.table.Agree S.env S.func.ret d'.known.get? t := by
  have hown := hd.built.own id value hid
  have hself := Table.agree_self hd.wellFormed hown
  obtain ⟨kind, own⟩ := value
  cases kind with
  | int k =>
    obtain rfl : own = Ty.int := hd.built.constant id _ Ty.int hid rfl
    exact ensures_pure hd ⟨hown, hself⟩
  | float =>
    obtain rfl : own = Ty.float := hd.built.constant id _ Ty.float hid rfl
    exact ensures_pure hd ⟨hown, hself⟩
  | arg index => exact ensures_pure hd ⟨hown, hself⟩
  | global name =>
    simp only [valueType]
    cases hs : S.env.get? name with
    | none => exact ensures_fail hd _
    | some s =>
      dsimp only
      refine (ensures_instantiate hd hs).bind fun t d₁ h₁ ht => ?_
      refine (ensures_unify h₁.sound
        (fun hcovered => ⟨hown.mono h₁.steps.size_le, ht.2 hcovered⟩) _).bind
          fun _ d₂ h₂ hagree => ?_
      exact ensures_pure h₂.sound ⟨(hown.mono h₁.steps.size_le).mono h₂.steps.size_le,
        s, t, hs, ht.1, hagree⟩
  | instr i =>
    rw [Func.operands_of_instr hid] at hoperand
    exact ensures_instrType hd hown hoperand

/-! ## Values -/

theorem deduceWithin_known {env : Env} {f : Func} {depth : Nat} {id : ValueId} {t : Ty}
    (h : d.known.get? id = some t) : deduceWithin env f (depth + 1) id d = .ok t d := by
  simp only [deduceWithin, bind_apply, get_apply, h, pure_apply]

theorem deduceWithin_unknown {env : Env} {f : Func} {depth : Nat} {id : ValueId} {value : Value}
    (h : d.known.get? id = none) (hid : f.values[id]? = some value) :
    deduceWithin env f (depth + 1) id d =
      (do
        let t ← valueType env f (deduceWithin env f depth) id value
        record id t
        return t : Deduce Ty) d := by
  simp only [deduceWithin, bind_apply, get_apply, h, Func.value, hid, Action.read]

/-- Induction on the depth. While the operands of a value are typed the value
itself stays unknown, since they are of smaller rank; so it is recorded only
once. -/
theorem ensures_deduceWithin {depth : Nat} {id : ValueId} (hd : S.Sound d)
    (hid : id < S.func.values.size) (hdepth : S.rank id < depth) :
    S.Ensures (S.rank id + 1) (deduceWithin S.env S.func depth id) d fun t d' =>
      d'.known.get? id = some t := by
  induction depth generalizing id d with
  | zero => exact absurd hdepth (Nat.not_lt_zero _)
  | succ depth ih =>
    cases hknown : d.known.get? id with
    | some t => exact (ensures_pure hd hknown).congr (deduceWithin_known hknown)
    | none =>
      obtain ⟨value, hvalue⟩ : ∃ value, S.func.values[id]? = some value :=
        ⟨_, Array.getElem?_eq_getElem hid⟩
      have hoperand : ∀ o ∈ S.func.operands id,
          S.Finds (S.rank id) (deduceWithin S.env S.func depth) o := by
        intro o ho d₁ hd₁
        have hlt := S.rank_lt id o ho
        exact (ih hd₁ (S.inRange id hid o ho) (by omega)).mono hlt fun _ _ _ h => h
      refine Ensures.congr ?_ (deduceWithin_unknown hknown hvalue)
      refine Ensures.bind (Q := fun t d' => d'.known.get? id = none ∧ d'.table.Covers t ∧
        value.Typed d'.table.Agree S.env S.func.ret d'.known.get? t) ?_ ?_
      · refine (ensures_valueType hd hvalue hoperand).mono (Nat.le_succ _) fun t d₁ h₁ ht => ?_
        exact ⟨(h₁.above id (Nat.le_refl _)).trans hknown, ht⟩
      · intro t d₁ h₁ ht
        obtain ⟨hunknown, hcovers, htyped⟩ := ht
        have hadvance := h₁.sound.recorded hvalue hunknown hcovers htyped
        exact ⟨⟨hadvance, Assoc.get?_insert_self ..⟩, fun _ => Outcome.returns_ok _ _⟩

theorem ensures_deduce {id : ValueId} (hd : S.Sound d) (hid : id < S.func.values.size) :
    S.Ensures (S.func.values.size + 1) (deduce S.env S.func id) d fun t d' =>
      d'.known.get? id = some t := by
  have hrank := S.rank_le id
  exact (ensures_deduceWithin hd hid (by omega)).mono (by omega) fun _ _ _ h => h

theorem ensures_deduceEach {vs : List ValueId} (hd : S.Sound d)
    (hvs : ∀ v ∈ vs, v < S.func.values.size) :
    S.Ensures (S.func.values.size + 1) (deduceEach S.env S.func vs) d fun _ d' =>
      ∀ v ∈ vs, ∃ t, d'.known.get? v = some t := by
  induction vs generalizing d with
  | nil => exact ensures_pure hd fun v hv => nomatch hv
  | cons v vs ih =>
    refine (ensures_deduce hd (hvs v List.mem_cons_self)).bind fun t d₁ h₁ ht => ?_
    refine (ih h₁.sound fun w hw => hvs w (List.mem_cons_of_mem _ hw)).mono (Nat.le_refl _) ?_
    intro _ d₂ h₂ hknown w hw
    rcases List.mem_cons.1 hw with rfl | hw
    · exact ⟨t, h₂.kept w t ht⟩
    · exact hknown w hw

/-! ## Changing the environment -/

/-- The setting of a later call: values that are known keep the environment they
were typed in. -/
def enter (S : Setting) (env : Env) (plain : env.Plain) (d : Deduction) : Setting :=
  { S with env, plain, held := fun v => if d.known.contains v then S.held v else env }

theorem Sound.enter (hd : S.Sound d) {env : Env} (plain : env.Plain) :
    (S.enter env plain d).Sound d where
  wellFormed := hd.wellFormed
  built := hd.built
  pending := fun v hv => by simp [Setting.enter, Assoc.contains, hv]
  covered := hd.covered
  typed := fun v t hv => by
    obtain ⟨value, hvalue, htyped⟩ := hd.typed v t hv
    refine ⟨value, hvalue, ?_⟩
    have hheld : (S.enter env plain d).held v = S.held v := by
      simp [Setting.enter, Assoc.contains, hv]
    rw [hheld]
    exact htyped

end Setting

/-! ## Sessions -/

/-- The calls of `deduce` on one context, which starts empty. The calls may end in
any way and have different environments, and anything may be done to the table in
between. `held` gives for every known value the environment of the call that made
it known. -/
inductive Session (f : Func) (T : Table) : Deduction → (ValueId → Env) → Prop
  | start : Session f T ⟨T, ∅⟩ fun _ => ∅
  | call {d d' : Deduction} {held : ValueId → Env} {env : Env} {id : ValueId} :
    Session f T d held → env.Plain → id < f.values.size →
    (deduce env f id d).state? = some d' →
    Session f T d' fun v => if d.known.contains v then held v else env
  | operation {d : Deduction} {held : ValueId → Env} {op : Table.Operation} {T' : Table} :
    Session f T d held → op.after d.table = some T' → Session f T { d with table := T' } held

variable {f : Func} {T : Table}

theorem exists_setting (hrange : f.InRange) (hacyclic : f.Acyclic) {env : Env} (hplain : env.Plain)
    (hT : T.WellFormed) (hf : f.Scoped T) :
    ∃ S : Setting, S.func = f ∧ S.env = env ∧ S.held = (fun _ => env) ∧ S.Sound ⟨T, ∅⟩ := by
  obtain ⟨rank, hle, hlt⟩ := Func.exists_rank hacyclic
  refine ⟨⟨f, hrange, rank, hle, hlt, env, hplain, fun _ => env⟩, rfl, rfl, rfl, hT, hf, ?_, ?_, ?_⟩
  · exact fun _ _ => rfl
  · exact fun _ _ hv => nomatch hv
  · exact fun _ _ hv => nomatch hv

theorem Session.sound (hrange : f.InRange) (hacyclic : f.Acyclic) (hT : T.WellFormed)
    (hf : f.Scoped T) {d : Deduction} {held : ValueId → Env} (h : Session f T d held) :
    ∃ S : Setting, S.func = f ∧ S.held = held ∧ S.Sound d := by
  induction h with
  | start =>
    have hplain : (∅ : Env).Plain := fun _ _ hs => nomatch hs
    obtain ⟨S, hfunc, _, hheld, hS⟩ := exists_setting hrange hacyclic hplain hT hf
    exact ⟨S, hfunc, hheld, hS⟩
  | @call d d' held env id _ hplain hid hrun ih =>
    obtain ⟨S, rfl, rfl, hS⟩ := ih
    exact ⟨S.enter env hplain d, rfl, rfl, (Setting.ensures_deduce (hS.enter hplain) hid).sound hrun⟩
  | operation _ hop ih =>
    obtain ⟨S, hfunc, hheld, hS⟩ := ih
    have hevolved := Table.Operation.evolved hop hS.wellFormed.evolved
    exact ⟨S, hfunc, hheld, (hS.evolved (n := 0) hevolved).sound⟩

/-! ## Whole functions -/

theorem infer_eq_ok {env : Env} {t : Ty} {T' : Table} (h : f.infer env T = .ok t T') :
    ∃ d, deduceAll env f ⟨T, ∅⟩ = .ok () d ∧ d.table = T' ∧
      ∃ s, f.signature = .ok s ∧ T'.resolve s = .ok t := by
  unfold Func.infer at h
  split at h
  · rename_i d hrun
    refine ⟨d, hrun, ?_⟩
    cases hs : f.signature with
    | error e => simp [Action.read, hs, Bind.bind, Except.bind] at h
    | ok s =>
      cases hr : d.table.resolve s with
      | error e => simp [Action.read, hs, hr, Bind.bind, Except.bind] at h
      | ok u =>
        simp only [Action.read, hs, hr, Bind.bind, Except.bind, Outcome.ok.injEq] at h
        obtain ⟨rfl, rfl⟩ := h
        exact ⟨rfl, s, rfl, hr⟩
  · cases h
  · cases h

/-- The types found for arguments agree with the types they were given. -/
theorem Setting.Sound.argTypes {S : Setting} {d : Deduction} (hd : S.Sound d) {vs : List ValueId}
    (hvs : ∀ v ∈ vs, v ∈ S.func.args ∧ ∃ t, d.known.get? v = some t) {values : List Value}
    (h : vs.mapM S.func.value = .ok values) :
    ∃ ts, vs.mapM d.known.get? = some ts ∧
      List.Forall₂ d.table.Agree ts (values.map Value.ty) := by
  induction vs generalizing values with
  | nil =>
    obtain rfl := Except.ok.inj h
    exact ⟨[], rfl, .nil⟩
  | cons v vs ih =>
    obtain ⟨hv, hvs⟩ := List.forall_mem_cons.1 hvs
    obtain ⟨harg, t, ht⟩ := hv
    obtain ⟨index, own, hown⟩ := hd.built.arg v harg
    have hvalue : S.func.value v = .ok ⟨.arg index, own⟩ := by simp only [Func.value, hown]
    rw [List.mapM_cons, hvalue] at h
    cases hrest : vs.mapM S.func.value with
    | error e =>
      rw [hrest] at h
      cases h
    | ok rest =>
      rw [hrest] at h
      obtain rfl := Except.ok.inj h
      obtain ⟨ts, hts, hagree⟩ := ih hvs hrest
      refine ⟨t :: ts, by simp [List.mapM_cons, ht, hts], .cons ?_ hagree⟩
      obtain ⟨value, hvalue', htyped⟩ := hd.typed v t ht
      obtain rfl := Option.some.inj (hown.symm.trans hvalue')
      exact htyped

/-- The signature is resolved to the type of a function from the types found for
the arguments. -/
theorem Setting.Sound.signature {S : Setting} {d : Deduction} (hd : S.Sound d)
    (hargs : ∀ v ∈ S.func.args, ∃ t, d.known.get? v = some t) {s t : Ty}
    (hs : S.func.signature = .ok s) (hresolve : d.table.resolve s = .ok t) :
    ∃ argTys, S.func.args.mapM d.known.get? = some argTys ∧
      d.table.resolve (Ty.curried argTys S.func.ret) = .ok t := by
  unfold Func.signature at hs
  cases hvalues : S.func.args.mapM S.func.value with
  | error e =>
    rw [hvalues] at hs
    cases hs
  | ok values =>
    rw [hvalues] at hs
    obtain rfl := Except.ok.inj hs
    obtain ⟨ts, hts, hagree⟩ := hd.argTypes (fun v hv => ⟨hv, hargs v hv⟩) hvalues
    have hret := Table.agree_self hd.wellFormed hd.built.ret
    obtain ⟨u, hu, hu'⟩ := Table.agree_iff_resolve.1
      (Table.agree_curried hd.wellFormed hagree hret)
    rw [hresolve] at hu'
    exact ⟨ts, hts, hu.trans hu'.symm⟩

theorem Setting.Sound.infer {S : Setting} (hS : S.Sound ⟨T, ∅⟩) {t : Ty} {T' : Table}
    (h : S.func.infer S.env T = .ok t T') :
    ∃ d, S.Sound d ∧ d.table = T' ∧ (∀ v ∈ S.func.args ++ S.func.instrs,
        ∃ u, d.known.get? v = some u) ∧
      ∃ argTys, S.func.args.mapM d.known.get? = some argTys ∧
        T'.resolve (Ty.curried argTys S.func.ret) = .ok t := by
  obtain ⟨d, hrun, rfl, s, hs, hresolve⟩ := infer_eq_ok h
  have hall := (Setting.ensures_deduceEach hS hS.built.lt_size).meets
  unfold deduceAll at hrun
  rw [hrun] at hall
  obtain ⟨hadvance, hknown⟩ := hall
  refine ⟨d, hadvance.sound, rfl, hknown, ?_⟩
  exact hadvance.sound.signature (fun v hv => hknown v (List.mem_append_left _ hv)) hs hresolve

variable {T₀ T₁ : Table} {name : String} {calls : List Builder.Call}

/-- At every moment of a session each known value has known operands and is typed
under the current bindings, at the environment in which it became known. The next
call comes back, and if it returns it has made its value known. Hence, if a function
is typed as a whole, all its instructions are typed, and its type is the resolved
type of its arguments and result. -/
theorem deduce_sound (hT₀ : T₀.Reachable) (hbuild : Func.build name calls T₀ = .ok (f, T₁))
    (hrange : f.InRange) (hacyclic : f.Acyclic) :
    (∀ d held, Session f T₁ d held →
      (∀ v t, d.known.get? v = some t → ∃ value, f.values[v]? = some value ∧
        (∀ o ∈ f.operands v, ∃ u, d.known.get? o = some u) ∧
        value.Typed d.table.Agree (held v) f.ret d.known.get? t) ∧
      ∀ env id, env.Plain → id < f.values.size →
        (env.Covered d.table → (deduce env f id d).Returns) ∧
        ∀ t d', deduce env f id d = .ok t d' → d'.known.get? id = some t) ∧
    ∀ T env t T', T₁.Leads T → env.Plain → f.infer env T = .ok t T' →
      ∃ G : Context, (∀ v ∈ f.args ++ f.instrs, ∃ u, G.get? v = some u) ∧
        (∀ v u, G.get? v = some u → ∃ value, f.values[v]? = some value ∧
          (∀ o ∈ f.operands v, ∃ w, G.get? o = some w) ∧
          value.Typed T'.Agree env f.ret G.get? u) ∧
        ∃ argTys, f.args.mapM G.get? = some argTys ∧
          T'.resolve (Ty.curried argTys f.ret) = .ok t := by
  have hT₁ := (Func.evolved_build hbuild hT₀.wellFormed.evolved).wellFormed
  have hf := Func.scoped_build hbuild
  refine ⟨fun d held hsession => ?_, fun T env t T' hleads hplain hinfer => ?_⟩
  · obtain ⟨S, rfl, rfl, hS⟩ := hsession.sound hrange hacyclic hT₁ hf
    refine ⟨fun v t hv => ?_, fun env id hplain hid => ?_⟩
    · obtain ⟨value, hvalue, htyped⟩ := hS.typed v t hv
      exact ⟨value, hvalue, htyped.operands hvalue, htyped⟩
    · have hcall := Setting.ensures_deduce (hS.enter hplain) hid
      refine ⟨hcall.returns, fun t d' hrun => ?_⟩
      have hmeets := hcall.meets
      rw [show deduce (S.enter env hplain d).env (S.enter env hplain d).func id d = .ok t d'
        from hrun] at hmeets
      exact hmeets.2
  · have hevolved := hleads.evolved hT₁
    obtain ⟨S, rfl, rfl, hheld, hS⟩ := exists_setting hrange hacyclic hplain hevolved.wellFormed
      (hf.mono hevolved.steps.size_le)
    obtain ⟨d, hd, rfl, hknown, hargs⟩ := hS.infer hinfer
    refine ⟨d.known, hknown, fun v u hv => ?_, hargs⟩
    obtain ⟨value, hvalue, htyped⟩ := hd.typed v u hv
    rw [hheld] at htyped
    exact ⟨value, hvalue, htyped.operands hvalue, htyped⟩

/-- The first call is typed before its operands are added. The second one is refused
at its second argument, when the first argument has been unified already. -/
theorem deduce_sound_refused :
    ∃ f T₁ d e d' held, Func.build "twice" [.instr (.call 1 [2, 3]), .arg, .arg, .int 1, .float,
        .instr (.call 1 [3, 4])] Table.empty = .ok (f, T₁) ∧ f.InRange ∧ f.Acyclic ∧
      Session f T₁ d' held ∧ deduce ∅ f 5 d = .error e d' ∧ ¬ d.table.Agree (.var 3) Ty.int ∧
      d'.table.Agree (.var 3) Ty.int ∧ d'.known.get? 0 = some (.var 1) ∧
      ∃ value, f.values[0]? = some value ∧ (∀ o ∈ f.operands 0, ∃ u, d'.known.get? o = some u) ∧
        value.Typed d'.table.Agree (held 0) f.ret d'.known.get? (.var 1) := by
  let f : Func :=
    { name := "twice"
      values := #[⟨.instr (.call 1 [2, 3]), .var 1⟩, ⟨.arg 0, .var 2⟩, ⟨.arg 1, .var 3⟩,
        ⟨.int 1, Ty.int⟩, ⟨.float, Ty.float⟩, ⟨.instr (.call 1 [3, 4]), .var 4⟩]
      blocks := #[[0, 5]], args := [1, 2], ret := .var 0 }
  let T₁ : Table := ⟨#[⟨0, 0, none⟩, ⟨1, 0, none⟩, ⟨2, 0, none⟩, ⟨3, 0, none⟩, ⟨4, 0, none⟩]⟩
  let callee := Ty.curried [.var 3, Ty.int] (.var 1)
  let d : Deduction :=
    { table := ⟨#[⟨0, 0, none⟩, ⟨1, 0, none⟩, ⟨2, 0, some callee⟩, ⟨3, 0, none⟩, ⟨4, 0, none⟩]⟩
      known := ⟨[(1, .var 2), (2, .var 3), (3, Ty.int), (0, .var 1)]⟩ }
  let d' : Deduction :=
    { table := ⟨#[⟨0, 0, none⟩, ⟨1, 0, none⟩, ⟨2, 0, some callee⟩, ⟨3, 0, some Ty.int⟩,
        ⟨4, 0, none⟩]⟩
      known := ⟨[(1, .var 2), (2, .var 3), (3, Ty.int), (0, .var 1), (4, Ty.float)]⟩ }
  have hbuild : Func.build "twice" [.instr (.call 1 [2, 3]), .arg, .arg, .int 1, .float,
      .instr (.call 1 [3, 4])] Table.empty = .ok (f, T₁) := rfl
  have hrange : f.InRange := by decide
  have hacyclic : f.Acyclic :=
    Func.acyclic_of_rank (fun v => if v = 0 ∨ v = 5 then 1 else 0) (by decide)
  have hplain : (∅ : Env).Plain := fun _ _ hs => nomatch hs
  have hfirst : Session f T₁ d _ :=
    Session.start.call hplain (show 0 < f.values.size by decide) rfl
  have hsecond : Session f T₁ d' _ :=
    hfirst.call hplain (show 5 < f.values.size by decide) rfl
  have hsound := (deduce_sound .refl hbuild hrange hacyclic).1 d' _ hsecond
  exact ⟨f, T₁, d, _, d', _, hbuild, hrange, hacyclic, hsecond, rfl, by decide, by decide, rfl,
    hsound.1 0 (.var 1) rfl⟩

end Deduction

end TypeLayer
