import TypeLayer.Proofs.Nominal.Mangling
import TypeLayer.Proofs.Nominal.Transitivity

/-!
# Types that are subtypes of each other

Two types that are subtypes of each other are the same, but for the names of numbers: they
are numbers of one style and width, or one type, or members of one family whose parameters
are subtypes of each other again (`Matches.both_ways`).

For objects each direction walks a chain of its own.  On a chain the numbers of the families
fall, so that the family of either type is no older than that of the other; and then the
member that each walk finds is the type that it starts from.
-/

namespace TypeLayer.Registry

variable {r : Registry} {a b : TypeId} {depth : Nat} {ta tb : Datatype} {fa fb : Family}

/-! ## Chains of two objects -/

/-- A chain has one member of a family. -/
theorem Holds.unique {k : FamilyId} {chain params params' : List TypeId}
    (hr : initial.Evolved r) (ha : a < r.size) (hchain : r.Chain a chain)
    (h : r.Holds chain k params) (h' : r.Holds chain k params') : params = params' := by
  obtain ⟨found, -, hfound⟩ : ∃ found, r.ancestor k a = .ok found ∧ _ := ancestor_eq hchain hr ha
  exact Option.some.inj (((hfound params).2 h).symm.trans ((hfound params').2 h'))

/-- What a chain holds is no younger than the type it starts from. -/
theorem Holds.family_le {k : FamilyId} {chain params : List TypeId} (hr : initial.Evolved r)
    (hta : r.types[a]? = some ta) (hchain : r.Chain a chain) (h : r.Holds chain k params) :
    k ≤ ta.family := by
  obtain ⟨m, hm, -, u, hu, rfl, -⟩ := h
  obtain ⟨-, u', hu', hle⟩ := hchain.mem_le hr hta m hm
  rw [Option.some.inj (hu.symm.trans hu')]
  exact hle

/-- There is one family of tuples, and one of each other style that cannot be declared. -/
theorem Evolved.family_eq_of_reserved {k k' : FamilyId} {name : String} (hr : initial.Evolved r)
    (hf : r.families[k]? = some fa) (hf' : r.families[k']? = some fb)
    (hstyle : fa.style = fb.style) (hname : fa.style.reserved? = some name) : k = k' := by
  have hfa := hr.wellFormed.reserved hf name hname
  have hfb := hr.wellFormed.reserved hf' name (hstyle ▸ hname)
  exact (hr.founded.eq_of_name hf hf' (hfa.trans hfb.symm)).1

/-! ## One step in both directions -/

section Step

variable {R : TypeId → TypeId → Prop}

/-- The objects are the same, or of one family, and then their own parameters are compared. -/
theorem Operand.object_both_ways (hr : initial.Evolved r) (hleft : r.Operand a ta fa)
    (hright : r.Operand b tb fb) (hab : r.Rule R a b ta tb fa fb .object)
    (hba : r.Rule R b a tb ta fb fa .object) :
    a = b ∨ ta.family = tb.family ∧ List.Forall₂ R ta.params tb.params ∧
      List.Forall₂ R tb.params ta.params := by
  have hta := (entry_eq_ok_iff.1 hleft.entry).1
  have htb := (entry_eq_ok_iff.1 hright.entry).1
  rcases hab with rfl | ⟨hb, chain, params, hchain, hholds, hparams⟩
  · rcases hba with rfl | ⟨-, chain', params', hchain', hholds', -⟩
    · exact .inl rfl
    · exact absurd hholds' (not_holds_any hchain')
  rcases hba with rfl | ⟨ha, chain', params', hchain', hholds', hparams'⟩
  · exact absurd hholds (not_holds_any hchain)
  right
  have hfamily : ta.family = tb.family := by
    have hle := hholds.family_le hr hta hchain
    have hle' := hholds'.family_le hr htb hchain'
    exact Nat.le_antisymm hle' hle
  -- Each type is itself the member of the family on its chain.
  have hself : r.Holds chain tb.family ta.params :=
    ⟨a, hchain.head_mem, ha, ta, hta, hfamily, rfl⟩
  have hself' : r.Holds chain' ta.family tb.params :=
    ⟨b, hchain'.head_mem, hb, tb, htb, hfamily.symm, rfl⟩
  rw [hholds.unique hr hleft.lt_size hchain hself] at hparams
  rw [hholds'.unique hr hright.lt_size hchain' hself'] at hparams'
  exact ⟨hfamily, hparams, hparams'⟩

/-- A step of the comparison that is made in both directions. -/
theorem Matches.both_ways (hr : initial.Evolved r) (hab : r.Matches R a b)
    (hba : r.Matches R b a) :
    ∃ ta fa tb fb, r.Operand a ta fa ∧ r.Operand b tb fb ∧ fa.style = fb.style ∧
      (fa.style.IsNumber ∧ fa.bits = fb.bits ∨ a = b ∨
        ¬ fa.style.IsNumber ∧ ta.family = tb.family ∧
          List.Forall₂ (fun p q => R p q ∧ R q p) ta.params tb.params) := by
  obtain @⟨ta, tb, fa, fb, hleft, hright, hstyle, hrule⟩ := hab
  obtain ⟨hright', hleft', -, hrule'⟩ := hba
  obtain ⟨rfl, rfl⟩ := hleft.unique hleft'
  obtain ⟨rfl, rfl⟩ := hright.unique hright'
  refine ⟨ta, fa, tb, fb, hleft, hright, hstyle, ?_⟩
  rw [← hstyle] at hrule'
  have hboth : ∀ {ps qs : List TypeId}, List.Forall₂ R ps qs → List.Forall₂ R qs ps →
      List.Forall₂ (fun p q => R p q ∧ R q p) ps qs :=
    fun h h' => h.mp (fun _ _ hpq hqp => ⟨hpq, hqp⟩) h'.flip
  cases hkind : fa.style with
  | integer | floating =>
    rw [hkind] at hrule hrule'
    exact .inl ⟨by simp [Style.IsNumber], Nat.le_antisymm hrule hrule'⟩
  | method | slice | union =>
    rw [hkind] at hrule
    exact .inr (.inl hrule)
  | object =>
    rw [hkind] at hrule hrule'
    rcases hleft.object_both_ways hr hright hrule hrule' with heq | ⟨hfamily, h, h'⟩
    · exact .inr (.inl heq)
    · exact .inr (.inr ⟨by simp [Style.IsNumber], hfamily, hboth h h'⟩)
  | tuple =>
    rw [hkind] at hrule hrule'
    have hfamily : ta.family = tb.family :=
      hr.family_eq_of_reserved (entry_eq_ok_iff.1 hleft.entry).2 (entry_eq_ok_iff.1 hright.entry).2
        hstyle (hkind ▸ rfl : fa.style.reserved? = some "Tuple")
    exact .inr (.inr ⟨by simp [Style.IsNumber], hfamily, hboth hrule hrule'⟩)

end Step

/-! ## What is accepted -/

theorem Matches.mono {R S : TypeId → TypeId → Prop} (hRS : ∀ p q, R p q → S p q)
    (h : r.Matches R a b) : r.Matches S a b := by
  obtain @⟨ta, tb, fa, fb, hleft, hright, hstyle, hrule⟩ := h
  refine ⟨hleft, hright, hstyle, ?_⟩
  cases hkind : fa.style with
  | integer | floating | method | slice | union =>
    rw [hkind] at hrule
    exact hrule
  | tuple =>
    rw [hkind] at hrule
    exact hrule.imp hRS
  | object =>
    rw [hkind] at hrule
    rcases hrule with hany | ⟨hany, chain, params, hchain, hholds, hparams⟩
    · exact .inl hany
    · exact .inr ⟨hany, chain, params, hchain, hholds, hparams.imp hRS⟩

/-- What is accepted within a bound is accepted within a greater one. -/
theorem subtypeWithin_succ (hr : initial.Evolved r)
    (h : r.subtypeWithin depth a b = .ok true) : r.subtypeWithin (depth + 1) a b = .ok true := by
  induction depth generalizing a b with
  | zero => cases h
  | succ depth ih =>
    rw [subtypeWithin_eq_true_iff hr] at h ⊢
    exact h.mono fun _ _ => ih

/-- Subtypes match, with parameters that are subtypes. -/
theorem matches_of_subtype (hr : initial.Evolved r) (h : r.subtype a b = .ok true) :
    r.Matches (fun p q => r.subtype p q = .ok true) a b :=
  ((subtypeWithin_eq_true_iff hr).1 h).mono fun _ _ => subtypeWithin_succ hr

/-! ## Likeness -/

/-- Either type is a subtype of the other. -/
def Mutual (r : Registry) (a b : TypeId) : Prop :=
  r.subtype a b = .ok true ∧ r.subtype b a = .ok true

instance (r : Registry) (a b : TypeId) : Decidable (r.Mutual a b) :=
  inferInstanceAs (Decidable (_ ∧ _))

theorem Mutual.cases (h : r.Mutual a b) (hr : initial.Evolved r) :
    ∃ ta fa tb fb, r.Operand a ta fa ∧ r.Operand b tb fb ∧ fa.style = fb.style ∧
      (fa.style.IsNumber ∧ fa.bits = fb.bits ∨ a = b ∨
        ¬ fa.style.IsNumber ∧ ta.family = tb.family ∧
          List.Forall₂ r.Mutual ta.params tb.params) :=
  (matches_of_subtype hr h.1).both_ways hr (matches_of_subtype hr h.2)

theorem alike_refl (hr : r.WellFormed) (ha : a < r.size) : r.Alike a a := by
  induction a using Nat.strongRecOn with
  | ind a ih =>
    obtain ⟨t, f, hentry⟩ := hr.exists_entry ha
    have ht := (entry_eq_ok_iff.1 hentry).1
    by_cases hnumber : f.style.IsNumber
    · exact .number hentry hentry hnumber rfl rfl
    · refine .family hentry hentry hnumber rfl (List.forall₂_same.2 fun p hp => ?_)
      exact ih p (hr.params_older ht p hp) (hr.has_params ht p hp)

/-- The induction is on the number of the first type: parameters are older. -/
theorem Mutual.alike (h : r.Mutual a b) (hr : initial.Evolved r) : r.Alike a b := by
  induction a using Nat.strongRecOn generalizing b with
  | ind a ih =>
    obtain ⟨ta, fa, tb, fb, hleft, hright, hstyle, hcases⟩ := h.cases hr
    rcases hcases with ⟨hnumber, hbits⟩ | rfl | ⟨hother, hfamily, hparams⟩
    · exact .number hleft.entry hright.entry hnumber hstyle hbits
    · exact alike_refl hr.wellFormed hleft.lt_size
    · have hta := (entry_eq_ok_iff.1 hleft.entry).1
      have hmutual : List.Forall₂ (fun p q => p ∈ ta.params ∧ r.Mutual p q) ta.params tb.params :=
        (List.forall₂_and_left _ _).2 ⟨fun _ hp => hp, hparams⟩
      refine .family hleft.entry hright.entry hother hfamily (hmutual.imp fun p q hpq => ?_)
      exact ih p (hr.wellFormed.params_older hta p hpq.1) hpq.2

/-- Types that are subtypes of each other are integers of one width, floating-point numbers of
one width, or the same type, or they are of one family and have as many parameters, which are
subtypes of each other in pairs. They have the same mangled name. If one of them is an object
that is not generic, then they are the same. -/
theorem subtype_both_ways (hr : r.Reachable) (hab : r.subtype a b = .ok true)
    (hba : r.subtype b a = .ok true) :
    ∃ ta fa tb fb, r.entry a = .ok (ta, fa) ∧ r.entry b = .ok (tb, fb) ∧
      (fa.style = .integer ∧ fb.style = .integer ∧ fa.bits = fb.bits ∨
        fa.style = .floating ∧ fb.style = .floating ∧ fa.bits = fb.bits ∨ a = b ∨
        ta.family = tb.family ∧ List.Forall₂ r.Mutual ta.params tb.params) ∧
      (∃ name, r.mangled a = .ok name ∧ r.mangled b = .ok name) ∧
      (fa.style = .object → fa.isGeneric = false → a = b) := by
  have hr := hr.evolved
  have hmutual : r.Mutual a b := ⟨hab, hba⟩
  obtain ⟨ta, fa, tb, fb, hleft, hright, hstyle, hcases⟩ := hmutual.cases hr
  obtain ⟨name, hname⟩ := exists_mangled hr.wellFormed hleft.lt_size
  have hmangled := mangled_eq_of_alike hr.wellFormed (hmutual.alike hr)
  refine ⟨ta, fa, tb, fb, hleft.entry, hright.entry, ?_, ⟨name, hname, hmangled ▸ hname⟩, ?_⟩
  · rcases hcases with ⟨hinteger | hfloating, hbits⟩ | heq | ⟨-, hfamily, hparams⟩
    · exact .inl ⟨hinteger, hstyle ▸ hinteger, hbits⟩
    · exact .inr (.inl ⟨hfloating, hstyle ▸ hfloating, hbits⟩)
    · exact .inr (.inr (.inl heq))
    · exact .inr (.inr (.inr ⟨hfamily, hparams⟩))
  · intro hobject hgeneric
    rcases hcases with ⟨hnumber, -⟩ | heq | ⟨-, hfamily, -⟩
    · simp [Style.IsNumber, hobject] at hnumber
    · exact heq
    · exact hr.founded.eq_of_not_isGeneric hleft.entry hright.entry hfamily hgeneric

/-- The pairs of boxes for two integers of one width are subtypes of each other. Between integers
of two widths there is one direction only, and they have different names. -/
theorem subtype_both_ways_parcels :
    parcels.Reachable ∧ parcels.subtype 18 19 = .ok true ∧ parcels.subtype 19 18 = .ok true ∧
      (∃ name, parcels.mangled 18 = .ok name ∧ parcels.mangled 19 = .ok name ∧
        name = "tuple.$41_12o.Box$5_3i32_23o.Box$15_12o.Box$5_3i32") ∧
      (∃ ta fa tb fb, parcels.entry 18 = .ok (ta, fa) ∧ parcels.entry 19 = .ok (tb, fb) ∧
        ta.family = tb.family ∧ List.Forall₂ parcels.Mutual ta.params tb.params) ∧
      parcels.subtype Builtin.short 12 = .ok true ∧ parcels.subtype 12 Builtin.short = .ok false ∧
      parcels.mangled Builtin.short = .ok "i16" ∧ parcels.mangled 12 = .ok "i32" := by
  have hreachable : parcels.Reachable := reachable_build _
  have hab : parcels.subtype 18 19 = .ok true := by decide +kernel
  have hba : parcels.subtype 19 18 = .ok true := by decide +kernel
  have hkind : Family.style <$> parcels.family 18 = .ok .tuple := by decide +kernel
  have hmangled : parcels.mangled 18 =
      .ok "tuple.$41_12o.Box$5_3i32_23o.Box$15_12o.Box$5_3i32" := by decide +kernel
  obtain ⟨ta, fa, tb, fb, ha, hb, hcases, ⟨name, hname, hname'⟩, -⟩ :=
    subtype_both_ways hreachable hab hba
  refine ⟨hreachable, hab, hba, ?_, ⟨ta, fa, tb, fb, ha, hb, ?_⟩, by decide +kernel,
    by decide +kernel, by decide +kernel, by decide +kernel⟩
  · exact ⟨name, hname, hname', Except.ok.inj (hname.symm.trans hmangled)⟩
  rw [family, ha] at hkind
  have hstyle : fa.style = .tuple := Except.ok.inj hkind
  rcases hcases with ⟨hinteger, -⟩ | ⟨hfloating, -⟩ | heq | hfamily
  · simp [hstyle] at hinteger
  · simp [hstyle] at hfloating
  · exact absurd heq (by decide)
  · exact hfamily

end TypeLayer.Registry
