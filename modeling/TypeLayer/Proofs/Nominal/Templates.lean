import TypeLayer.Proofs.Nominal.Declared
import TypeLayer.Proofs.Nominal.Transitivity

/-!
# Templates in comparisons

A template cannot be compared, neither as one of the two types in question nor as a parameter
that their comparison comes to.  One step of the comparison, `subtypeBy`, can be taken with any
question about parameters: it is refused because of the two types themselves (`Unfit`), it
compares two lists of parameters (`Compared`), or it is answered at once (`subtypeBy_kinds`).
Parameters are older than the types that have them, so that the bound on the nesting plays no
part, and the comparison is a fixed point of its step (`subtype_eq`).

`Asks` is the step from one question to the next, and a question is refused exactly if it leads
to one about a template (`subtype_eq_fail_iff`).  Templates get among the parameters of types
because nothing keeps a call from passing them there; `LeadsProperly.proper` says that there is no
other way.
-/

namespace TypeLayer.Registry

open TypeLayer.Action

variable {r r' : Registry} {a b id : TypeId} {e : DatatypeError}
  {related related' : TypeId → TypeId → Ask Bool} {ps qs : List TypeId}

/-! ## Lists of parameters -/

theorem allRelated_congr {pairs : List (TypeId × TypeId)}
    (h : ∀ m ∈ pairs, related m.1 m.2 = related' m.1 m.2) :
    allRelated related pairs = allRelated related' pairs := by
  induction pairs with
  | nil => rfl
  | cons m rest ih =>
    rw [List.forall_mem_cons] at h
    rw [allRelated, allRelated, h.1, ih h.2]

theorem pointwise_congr (h : ∀ p ∈ ps, ∀ q ∈ qs, related p q = related' p q) :
    pointwise related ps qs = pointwise related' ps qs := by
  unfold pointwise
  split
  · refine allRelated_congr fun m hm => ?_
    obtain ⟨hp, hq⟩ := List.of_mem_zip hm
    exact h m.1 hp m.2 hq
  · rfl

theorem allRelated_append_of_accepted {before : List (TypeId × TypeId)}
    (h : ∀ m ∈ before, related m.1 m.2 = .ok true) (rest : List (TypeId × TypeId)) :
    allRelated related (before ++ rest) = allRelated related rest := by
  induction before with
  | nil => rfl
  | cons m before ih =>
    rw [List.forall_mem_cons] at h
    rw [List.cons_append, allRelated, h.1]
    exact ih h.2

theorem allRelated_cons_of_not_accepted {m : TypeId × TypeId} (h : related m.1 m.2 ≠ .ok true)
    (rest : List (TypeId × TypeId)) : allRelated related (m :: rest) = related m.1 m.2 := by
  rw [allRelated]
  split
  · next haccepted => exact absurd haccepted h
  · rfl

/-- The pairs are gone through up to the first one that is not accepted. -/
theorem allRelated_eq_fail_iff {pairs : List (TypeId × TypeId)} :
    allRelated related pairs = Query.fail e ↔ ∃ before p q after,
      pairs = before ++ (p, q) :: after ∧ (∀ m ∈ before, related m.1 m.2 = .ok true) ∧
        related p q = Query.fail e := by
  constructor
  · intro h
    induction pairs with
    | nil => cases h
    | cons m rest ih =>
      by_cases haccepted : related m.1 m.2 = .ok true
      · rw [allRelated, haccepted] at h
        obtain ⟨before, p, q, after, rfl, hbefore, hfail⟩ := ih h
        exact ⟨m :: before, p, q, after, rfl, List.forall_mem_cons.2 ⟨haccepted, hbefore⟩, hfail⟩
      · rw [allRelated_cons_of_not_accepted haccepted] at h
        exact ⟨[], m.1, m.2, rest, rfl, List.forall_mem_nil _, h⟩
  · rintro ⟨before, p, q, after, rfl, hbefore, hfail⟩
    have hrefused : related p q ≠ .ok true := by
      intro haccepted
      cases hfail.symm.trans haccepted
    rw [allRelated_append_of_accepted hbefore, allRelated_cons_of_not_accepted hrefused]
    exact hfail

theorem pointwise_eq_fail_iff :
    pointwise related ps qs = Query.fail e ↔ ps.length = qs.length ∧ ∃ before p q after,
      ps.zip qs = before ++ (p, q) :: after ∧ (∀ m ∈ before, related m.1 m.2 = .ok true) ∧
        related p q = Query.fail e := by
  unfold pointwise
  split
  · next hlength => simp only [hlength, true_and, allRelated_eq_fail_iff]
  · next hlength =>
    refine ⟨fun h => ?_, fun h => absurd h.1 hlength⟩
    cases h

/-! ## One step -/

/-- One of the two types is a template. The error names the first one that is. -/
inductive Unfit (r : Registry) (a b : TypeId) : DatatypeError → Prop
  | left {ta tb : Datatype} {fa fb : Family} (left : r.entry a = .ok (ta, fa))
      (right : r.entry b = .ok (tb, fb)) (template : ta.specialized = false) :
      Unfit r a b (.unspecializedSubtype fa.name)
  | right {ta tb : Datatype} {fa fb : Family} (left : r.Operand a ta fa)
      (right : r.entry b = .ok (tb, fb)) (template : tb.specialized = false) :
      Unfit r a b (.unspecializedSubtype fb.name)

/-- The comparison of the two types is that of these parameters, member by member: their own if
they are tuples, and for objects those of the ancestor on the left that is of the family on the
right. -/
inductive Compared (r : Registry) (a b : TypeId) : List TypeId → List TypeId → Prop
  | tuple {ta tb : Datatype} {fa fb : Family} (left : r.Operand a ta fa)
      (right : r.Operand b tb fb) (style : fa.style = .tuple) (style' : fb.style = .tuple) :
      Compared r a b ta.params tb.params
  | object {ta tb : Datatype} {fa fb : Family} {c params : List TypeId}
      (left : r.Operand a ta fa) (right : r.Operand b tb fb) (style : fa.style = .object)
      (style' : fb.style = .object) (ne : b ≠ Builtin.any) (chain : r.Chain a c)
      (member : r.Holds c tb.family params) : Compared r a b params tb.params

theorem Unfit.not_isSpecialized (h : r.Unfit a b e) : r.IsSpecialized a → ¬ r.IsSpecialized b := by
  intro ha
  cases h with
  | left left right template =>
    exact absurd ha
      (Registry.not_isSpecialized (entry_eq_ok_iff.1 left).1 (Bool.eq_false_iff.1 template))
  | right left right template =>
    exact Registry.not_isSpecialized (entry_eq_ok_iff.1 right).1 (Bool.eq_false_iff.1 template)

/-- The parameters that are compared belong to types that are no younger than the two. -/
theorem Compared.owners (h : r.Compared a b ps qs) (hr : initial.Evolved r) :
    (∃ m ≤ a, ∃ u, r.types[m]? = some u ∧ u.params = ps) ∧
      ∃ u, r.types[b]? = some u ∧ u.params = qs := by
  cases h with
  | tuple left right =>
    exact ⟨⟨a, Nat.le_refl _, _, (entry_eq_ok_iff.1 left.entry).1, rfl⟩,
      _, (entry_eq_ok_iff.1 right.entry).1, rfl⟩
  | object left right _ _ _ chain member =>
    obtain ⟨m, hm, -, u, hu, -, hparams⟩ := member
    have hle := (chain.mem_le hr (entry_eq_ok_iff.1 left.entry).1 m hm).1
    exact ⟨⟨m, hle, u, hu, hparams⟩, _, (entry_eq_ok_iff.1 right.entry).1, rfl⟩

theorem Compared.older (h : r.Compared a b ps qs) (hr : initial.Evolved r) :
    (∀ p ∈ ps, p < a) ∧ ∀ q ∈ qs, q < b := by
  obtain ⟨⟨m, hle, u, hu, rfl⟩, v, hv, rfl⟩ := h.owners hr
  refine ⟨fun p hp => ?_, hr.wellFormed.params_older hv⟩
  exact Nat.lt_of_lt_of_le (hr.wellFormed.params_older hu p hp) hle

theorem Unfit.subtypeBy_eq (h : r.Unfit a b e) : r.subtypeBy related a b = Query.fail e := by
  cases h with
  | left left right template =>
    simp [subtypeBy, left, right, template, Query.ofExcept, Except.mapError, bind, Except.bind]
  | right left right template =>
    simp [subtypeBy, left.entry, left.specialized, right, template, Query.ofExcept,
      Except.mapError, bind, Except.bind]

theorem Compared.subtypeBy_eq (h : r.Compared a b ps qs) (hr : initial.Evolved r) :
    r.subtypeBy related a b = pointwise related ps qs := by
  cases h with
  | tuple left right style style' => simp [left.subtypeBy_eq right, compareBy, style, style']
  | object left right style style' ne chain member =>
    obtain ⟨found, hancestor, hfound⟩ := ancestor_eq chain hr left.lt_size
    obtain rfl := (hfound _).2 member
    simp [left.subtypeBy_eq right, compareBy, style, style', ne, hancestor, Query.ofExcept,
      Except.mapError, bind, Except.bind]

/-- Two types that can be used are compared by parameters, or else the answer does not depend on
parameters. -/
theorem Operand.compared_or_answered {ta tb : Datatype} {fa fb : Family}
    (left : r.Operand a ta fa) (right : r.Operand b tb fb) (hr : initial.Evolved r) :
    (∃ ps qs, r.Compared a b ps qs) ∨
      ∃ answer, ∀ related, r.subtypeBy related a b = .ok answer := by
  have hstep : ∀ related, r.subtypeBy related a b = r.compareBy related a b ta tb fa fb :=
    fun related => left.subtypeBy_eq right
  unfold compareBy at hstep
  by_cases hstyle : fa.style = fb.style
  swap
  · simp only [if_pos hstyle] at hstep
    exact .inr ⟨false, hstep⟩
  simp only [if_neg (not_not_intro hstyle)] at hstep
  cases hkind : fa.style with
  | integer | floating | method | slice | union =>
    rw [hkind] at hstep
    exact .inr ⟨_, hstep⟩
  | tuple => exact .inl ⟨_, _, .tuple left right hkind (hstyle ▸ hkind)⟩
  | object =>
    rw [hkind] at hstep
    by_cases hany : b = Builtin.any
    · simp only [if_pos hany] at hstep
      exact .inr ⟨true, hstep⟩
    · obtain ⟨c, hc⟩ := exists_chain hr left.lt_size
      obtain ⟨found, hancestor, hfound⟩ : ∃ found, r.ancestor tb.family a = .ok found ∧ _ :=
        ancestor_eq hc hr left.lt_size
      simp only [if_neg hany, hancestor] at hstep
      cases found with
      | none => exact .inr ⟨false, hstep⟩
      | some params =>
        have hholds := (hfound params).1 rfl
        exact .inl ⟨_, _, .object left right hkind (hstyle ▸ hkind) hany hc hholds⟩

/-- What the comparison of two types comes to: it is refused because of the types themselves, it
is that of parameters, or it is answered whatever is said about parameters. -/
theorem subtypeBy_kinds (hr : initial.Evolved r) (ha : a < r.size) (hb : b < r.size) :
    (∃ e, r.Unfit a b e) ∨ (∃ ps qs, r.Compared a b ps qs) ∨
      ∃ answer, ∀ related, r.subtypeBy related a b = .ok answer := by
  obtain ⟨ta, fa, hleft⟩ := hr.wellFormed.exists_entry ha
  obtain ⟨tb, fb, hright⟩ := hr.wellFormed.exists_entry hb
  cases hsa : ta.specialized with
  | false => exact .inl ⟨_, .left hleft hright hsa⟩
  | true =>
    cases hsb : tb.specialized with
    | false => exact .inl ⟨_, .right ⟨hleft, hsa⟩ hright hsb⟩
    | true =>
      have left : r.Operand a ta fa := ⟨hleft, hsa⟩
      exact .inr (left.compared_or_answered ⟨hright, hsb⟩ hr)

theorem subtypeBy_congr (hr : initial.Evolved r) (ha : a < r.size) (hb : b < r.size)
    (h : ∀ p q, p < a → q < b → related p q = related' p q) :
    r.subtypeBy related a b = r.subtypeBy related' a b := by
  rcases subtypeBy_kinds hr ha hb with ⟨e, hunfit⟩ | ⟨ps, qs, hcompared⟩ | ⟨answer, hanswer⟩
  · rw [hunfit.subtypeBy_eq, hunfit.subtypeBy_eq]
  · rw [hcompared.subtypeBy_eq hr, hcompared.subtypeBy_eq hr]
    obtain ⟨hps, hqs⟩ := hcompared.older hr
    exact pointwise_congr fun p hp q hq => h p q (hps p hp) (hqs q hq)
  · rw [hanswer, hanswer]

/-- A bound that is greater than the number of the type on the left is no bound. -/
theorem subtypeWithin_eq_of_lt {depth depth' : Nat} (hr : initial.Evolved r) (ha : a < r.size)
    (hb : b < r.size) (hdepth : a < depth) (hdepth' : a < depth') :
    r.subtypeWithin depth a b = r.subtypeWithin depth' a b := by
  induction depth generalizing a b depth' with
  | zero => exact absurd hdepth (Nat.not_lt_zero _)
  | succ depth ih =>
    obtain ⟨depth', rfl⟩ := Nat.exists_eq_add_one_of_ne_zero (Nat.ne_zero_of_lt hdepth')
    rw [subtypeWithin, subtypeWithin]
    refine subtypeBy_congr hr ha hb fun p q hp hq => ?_
    exact ih (Nat.lt_trans hp ha) (Nat.lt_trans hq hb)
      (Nat.lt_of_lt_of_le hp (Nat.le_of_lt_succ hdepth))
      (Nat.lt_of_lt_of_le hp (Nat.le_of_lt_succ hdepth'))

theorem subtype_eq (hr : initial.Evolved r) (ha : a < r.size) (hb : b < r.size) :
    r.subtype a b = r.subtypeBy r.subtype a b := by
  rw [subtype, subtypeWithin]
  refine subtypeBy_congr hr ha hb fun p q hp hq => ?_
  have hp' : p < r.size * r.size :=
    Nat.lt_of_lt_of_le (Nat.lt_trans hp ha) (Nat.le_mul_self _)
  exact subtypeWithin_eq_of_lt hr (Nat.lt_trans hp ha) (Nat.lt_trans hq hb) hp'
    (Nat.lt_succ_of_lt hp')

/-! ## From one question to the next -/

/-- The comparison of the first pair asks for that of the second: the types of the second are
parameters that stand at the same place, and all pairs before them have been accepted. -/
def Asks (r : Registry) (m n : TypeId × TypeId) : Prop :=
  ∃ ps qs before after, r.Compared m.1 m.2 ps qs ∧ ps.length = qs.length ∧
    ps.zip qs = before ++ n :: after ∧ ∀ x ∈ before, r.subtype x.1 x.2 = .ok true

/-- The comparison of the first pair comes to that of the second. -/
abbrev ComesTo (r : Registry) : TypeId × TypeId → TypeId × TypeId → Prop :=
  Relation.ReflTransGen r.Asks

theorem Asks.mem {p q : TypeId} (h : r.Asks (a, b) (p, q)) :
    ∃ ps qs, r.Compared a b ps qs ∧ p ∈ ps ∧ q ∈ qs := by
  obtain ⟨ps, qs, before, after, hcompared, -, hpairs, -⟩ := h
  obtain ⟨hp, hq⟩ := List.of_mem_zip (hpairs ▸ List.mem_append_right before List.mem_cons_self)
  exact ⟨ps, qs, hcompared, hp, hq⟩

/-- One step of a refusal. -/
theorem subtype_eq_fail_step (hr : initial.Evolved r) (ha : a < r.size) (hb : b < r.size) :
    r.subtype a b = Query.fail e ↔
      r.Unfit a b e ∨ ∃ p q, r.Asks (a, b) (p, q) ∧ r.subtype p q = Query.fail e := by
  rw [subtype_eq hr ha hb]
  constructor
  · intro h
    rcases subtypeBy_kinds hr ha hb with ⟨e', hunfit⟩ | ⟨ps, qs, hcompared⟩ | ⟨answer, hanswer⟩
    · rw [hunfit.subtypeBy_eq] at h
      cases h
      exact .inl hunfit
    · rw [hcompared.subtypeBy_eq hr] at h
      obtain ⟨hlength, before, p, q, after, hpairs, hbefore, hfail⟩ := pointwise_eq_fail_iff.1 h
      exact .inr ⟨p, q, ⟨ps, qs, before, after, hcompared, hlength, hpairs, hbefore⟩, hfail⟩
    · rw [hanswer] at h
      cases h
  · rintro (hunfit | ⟨p, q, ⟨ps, qs, before, after, hcompared, hlength, hpairs, hbefore⟩, hfail⟩)
    · exact hunfit.subtypeBy_eq
    · rw [hcompared.subtypeBy_eq hr]
      exact pointwise_eq_fail_iff.2 ⟨hlength, before, p, q, after, hpairs, hbefore, hfail⟩

/-- A question is refused exactly if it comes to one about a template. The induction is on the
type on the left. -/
theorem subtype_eq_fail_iff (hr : initial.Evolved r) (ha : a < r.size) (hb : b < r.size) :
    r.subtype a b = Query.fail e ↔ ∃ p q, r.ComesTo (a, b) (p, q) ∧ r.Unfit p q e := by
  induction a using Nat.strongRecOn generalizing b with
  | ind a ih =>
    have hinside : ∀ {p q}, r.Asks (a, b) (p, q) →
        (r.subtype p q = Query.fail e ↔ ∃ p' q', r.ComesTo (p, q) (p', q') ∧ r.Unfit p' q' e) := by
      intro p q hasks
      obtain ⟨ps, qs, hcompared, hp, hq⟩ := hasks.mem
      obtain ⟨hps, hqs⟩ := hcompared.older hr
      exact ih p (hps p hp) (Nat.lt_trans (hps p hp) ha) (Nat.lt_trans (hqs q hq) hb)
    rw [subtype_eq_fail_step hr ha hb]
    constructor
    · rintro (hunfit | ⟨p, q, hasks, hfail⟩)
      · exact ⟨a, b, .refl, hunfit⟩
      · obtain ⟨p', q', hcomes, hunfit⟩ := (hinside hasks).1 hfail
        exact ⟨p', q', .head hasks hcomes, hunfit⟩
    · rintro ⟨p', q', hcomes, hunfit⟩
      rcases hcomes.cases_head with heq | ⟨n, hasks, hcomes'⟩
      · obtain ⟨rfl, rfl⟩ := Prod.mk.inj heq
        exact .inl hunfit
      · exact .inr ⟨n.1, n.2, hasks, (hinside hasks).2 ⟨p', q', hcomes', hunfit⟩⟩

/-- If no type has a template for a parameter, then only the two types themselves can be one. -/
theorem ParamsSpecialized.subtype_eq_fail_iff (hparams : r.ParamsSpecialized)
    (hr : initial.Evolved r) (ha : a < r.size) (hb : b < r.size) :
    r.subtype a b = Query.fail e ↔ r.Unfit a b e := by
  rw [Registry.subtype_eq_fail_iff hr ha hb]
  refine ⟨?_, fun hunfit => ⟨a, b, .refl, hunfit⟩⟩
  rintro ⟨p, q, hcomes, hunfit⟩
  rcases hcomes.cases_tail with heq | ⟨m, -, hasks⟩
  · obtain ⟨rfl, rfl⟩ := Prod.mk.inj heq
    exact hunfit
  · obtain ⟨ps, qs, hcompared, hp, hq⟩ := hasks.mem
    obtain ⟨⟨_, -, u, hu, rfl⟩, v, hv, rfl⟩ := hcompared.owners hr
    exact absurd (hparams v (Array.mem_of_getElem? hv) q hq)
      (hunfit.not_isSpecialized (hparams u (Array.mem_of_getElem? hu) p hp))

/-! ## Where templates come from -/

/-- The types that an operation puts into others: the parameters that it is given, and the types
that a field names. A supertype is not one of them. -/
def Operation.parts : Operation → List TypeId
  | .create _ _ _ => []
  | op => op.given

/-- Some sequence of operations leads from one registry to the other, and none of them puts a
template into another type. -/
abbrev LeadsProperly : Registry → Registry → Prop :=
  Relation.ReflTransGen fun r r' => ∃ op : Operation, r.Has op.given ∧
    (∀ x ∈ op.parts, r.IsSpecialized x) ∧ op.after r = some r'

/-- No type has a template for a parameter or in the type of a field. -/
def Proper (r : Registry) : Prop :=
  ∀ (id : TypeId) (t : Datatype), r.types[id]? = some t →
    ∀ x, (x ∈ t.params ∨ ∃ field ∈ t.fields, x ∈ namedTypes field.ty) → r.IsSpecialized x

theorem IsSpecialized.extends (h : r.IsSpecialized id) (hextends : r.Extends r') :
    r'.IsSpecialized id := by
  obtain ⟨t, ht, hspecialized⟩ := h
  obtain ⟨t', ht', hbecomes⟩ := hextends.type ht
  exact ⟨t', ht', hbecomes.specialized.trans hspecialized⟩

/-- The types that can be used, with those that are still to come. -/
def Usable (r : Registry) (id : TypeId) : Prop :=
  r.size ≤ id ∨ r.IsSpecialized id

theorem Proper.closed (h : r.Proper) (hr : r.WellFormed) : r.Closed (fun _ => True) r.Usable where
  new hid := .inl hid
  self _ ht hspecialized := .inr ⟨_, ht, hspecialized⟩
  listed _ hentry _ p hp := by
    obtain ⟨t, ht, -, -, hspecialized⟩ := hr.instances (entry_eq_ok_iff.1 hentry).2 p hp
    exact .inr ⟨t, ht, hspecialized⟩
  named {g t} _ ht _ field hfield x hx := .inr (h g t ht x (.inr ⟨field, hfield, hx⟩))
  applied _ _ _ _ _ _ _ := trivial

theorem Proper.grown (h : r.Proper) (hgrown : r.Grown r.Usable r') (hr' : r'.WellFormed)
    (hextends : r.Extends r') : r'.Proper := by
  have husable : ∀ x < r'.size, r.Usable x → r'.IsSpecialized x := by
    rintro x hx (hnew | hspecialized)
    · obtain ⟨u, hu⟩ := exists_type hx
      exact ⟨u, hu, (hgrown.made hnew hu).specialized⟩
    · exact hspecialized.extends hextends
  intro id t ht x hx
  by_cases hlt : id < r.size
  · exact (h id t ((hgrown.kept hlt).symm.trans ht) x hx).extends hextends
  · have hmade := hgrown.made (Nat.le_of_not_lt hlt) ht
    rcases hx with hx | ⟨field, hfield, hx⟩
    · exact husable x (Nat.lt_trans (hr'.params_older ht x hx) (lt_size ht)) (hmade.params x hx)
    · have hknown := hr'.fields_known ht field hfield x hx
      obtain ⟨y, hy, hgood⟩ := hmade.fields field hfield
      rw [hy, namedTypes] at hx
      obtain rfl := List.mem_singleton.1 hx
      exact husable x hknown hgood

/-- A new template refers to nothing yet. -/
theorem Proper.declare {d : Declaration} (h : r.Proper) (hextends : r.Extends (r.declare d)) :
    (r.declare d).Proper := by
  intro id t ht x hx
  replace ht := (Array.getElem?_push ▸ ht :)
  split at ht
  · cases ht
    simp at hx
  · exact (h id t ht x hx).extends hextends

theorem Proper.addField {name : String} {ty : FieldTy} (h : r.Proper)
    (hty : ∀ x ∈ namedTypes ty, r.IsSpecialized x)
    (hextends : r.Extends (r.modifyType id fun t =>
      { t with fields := putField name ty t.fields })) :
    (r.modifyType id fun t => { t with fields := putField name ty t.fields }).Proper := by
  intro y u' hu' x hx
  refine IsSpecialized.extends ?_ hextends
  rcases type_of_modifyType hu' with ⟨-, hu⟩ | ⟨rfl, u, hu, rfl⟩
  · exact h y u' hu x hx
  · rcases hx with hx | ⟨field, hfield, hx⟩
    · exact h y u hu x (.inl hx)
    · rcases mem_putField hfield with rfl | hfield
      · exact hty x hx
      · exact h y u hu x (.inr ⟨field, hfield, hx⟩)

theorem Operation.proper {op : Operation} (hr : initial.Evolved r) (hproper : r.Proper)
    (hgiven : r.Has op.given) (hparts : ∀ x ∈ op.parts, r.IsSpecialized x)
    (h : op.after r = some r') : r'.Proper := by
  have hevolved := op.evolved hr hgiven h
  have hclosed := hproper.closed hr.wellFormed
  have hdeclare : ∀ {d : Declaration}, (declareNew d r).state? = some r' → r'.Proper := by
    intro d h
    rcases declareNew_cases h with rfl | rfl
    · exact hproper.declare hevolved.extends
    · exact hproper
  have hmeets : ∀ {x : Register TypeId} {V : TypeId → Registry → Prop},
      (growth r r.Usable).Meets r x V → (x r).state? = some r' → r'.Proper := fun hx h =>
    hproper.grown (growth_state hx h) hevolved.wellFormed hevolved.extends
  have hspecialize : ∀ {generic : TypeId} {params : List TypeId},
      (∀ p ∈ params, r.IsSpecialized p) →
      (Registry.specialize generic params r).state? = some r' → r'.Proper := fun hparams h =>
    hmeets (stays_specialize hclosed (.refl r _) trivial fun p hp => .inr (hparams p hp)) h
  cases op with
  | create | createInteger | createFloat => exact hdeclare h
  | addField id name ty =>
    rcases addField_cases h with ⟨t, f, -, -, -, rfl⟩ | rfl
    · exact hproper.addField hparts hevolved.extends
    · exact hproper
  | specialize | tuple | union | method | slice => exact hspecialize hparts h
  | denote e scope =>
    have hscope : ∀ name id, scope.get? name = some id → r.Usable id := fun name id hname =>
      .inr (hparts id (Assoc.mem_values_of_get? hname))
    have hanswers := growth_answers hclosed hscope trivial trivial fun _ _ _ => trivial
    exact hmeets (Contract.meets_denote hanswers (.refl r _) e) h
  | fields id => exact (keeps_query (P := Proper) (·.fields id)).state hproper h
  | layout id =>
    intro y u' hu' x hx
    obtain ⟨u, hu, heq⟩ := eq_of_unlaid (unlaid_layout h) hu'
    rw [heq] at hx
    exact (hproper y u hu x hx).extends hevolved.extends

/-- As long as no call is given a template to put into another type, there is none in a type. -/
theorem LeadsProperly.proper (h : initial.LeadsProperly r) : initial.Evolved r ∧ r.Proper := by
  induction h with
  | refl =>
    refine ⟨wellFormed_initial.evolved, fun id t ht x hx => ?_⟩
    have hall : ∀ t ∈ initial.types, t.params = [] ∧ t.fields = [] := by decide
    obtain ⟨hparams, hfields⟩ := hall t (Array.mem_of_getElem? ht)
    simp [hparams, hfields] at hx
  | tail _ hop ih =>
    obtain ⟨hevolved, hproper⟩ := ih
    obtain ⟨op, hgiven, hparts, hafter⟩ := hop
    exact ⟨hevolved.trans (op.evolved hevolved hgiven hafter),
      op.proper hevolved hproper hgiven hparts hafter⟩

theorem Proper.paramsSpecialized (h : r.Proper) : r.ParamsSpecialized := by
  intro t ht p hp
  obtain ⟨id, ht⟩ := Array.mem_iff_getElem?.1 ht
  exact h id t ht p (.inl hp)

theorem leadsProperly_of_afterAll {ops : List Operation}
    (h : Operation.afterAll ops r = some r')
    (hops : ∀ i, (hi : i < ops.length) → ∀ r₁ ∈ Operation.afterAll (ops.take i) r,
      ∀ x ∈ (ops.get ⟨i, hi⟩).parts, r₁.IsSpecialized x) : r.LeadsProperly r' :=
  reflTransGen_of_afterAll h fun i hi r₁ hr₁ _ hgiven hafter =>
    ⟨_, hgiven, hops i hi r₁ hr₁, hafter⟩

/-! ## Refusals -/

theorem Tells.answered_or_refused {x : Ask Bool} {P E : Prop} (h : Tells x P E) :
    (∃ answer, x = .ok answer) ∨ ∃ e, x = Query.fail e := by
  cases x with
  | ok answer => exact .inl ⟨answer, rfl⟩
  | error failure =>
    cases failure with
    | error e => exact .inr ⟨e, rfl⟩
    | fault _ => exact h.elim

/-- A question about two types of a registry is refused exactly if it comes to a pair of types of
which one is a template, by way of parameters at the same places of tuples and of objects of one
family; the error names the first template that it comes to. All other questions are answered.
Where no type has a template for a parameter, this is to say that one of the two types is a
template itself; and that is so as long as no call has been given a template as a part of another
type. -/
theorem subtype_refused_iff (hr : r.Reachable) (ha : a < r.size) (hb : b < r.size) :
    (∀ e, r.subtype a b = Query.fail e ↔ ∃ p q, r.ComesTo (a, b) (p, q) ∧ r.Unfit p q e) ∧
      ((∃ answer, r.subtype a b = .ok answer) ∨ ∃ e, r.subtype a b = Query.fail e) ∧
      (r.ParamsSpecialized → ∀ e, r.subtype a b = Query.fail e ↔ r.Unfit a b e) ∧
      (initial.LeadsProperly r → r.ParamsSpecialized) := by
  refine ⟨fun e => subtype_eq_fail_iff hr.evolved ha hb, ?_, fun hparams e => ?_, ?_⟩
  · exact (tells_subtype hr.evolved ha hb).answered_or_refused
  · exact hparams.subtype_eq_fail_iff hr.evolved ha hb
  · exact fun hproperly => (LeadsProperly.proper hproperly).2.paramsSpecialized

/-- `List` is a template, 12, and a `Crate{T}` is a `Box{List}`, 14. The last two types are the
tuples `(Byte, Crate{Int})` and `(Int, Box{List})`. -/
def crates : Registry :=
  Operation.build
    [.create "List" none ["T"], .create "Box" none ["T"], .specialize 13 [12],
     .create "Crate" (some 14) ["T"], .specialize 15 [Builtin.int], .tuple [Builtin.byte, 16],
     .tuple [Builtin.int, 14]]

/-- The supertype of `Crate{T}`, 13, is the template `Box`, and a crate has a slice of boxes. The
last type is the tuple `(Crate{Int}, Int)`. -/
def stacking : List Operation :=
  [.create "Box" none ["T"], .create "Crate" (some 12) ["T"],
   .addField 13 "all" (.apply Builtin.slice [.apply 12 [.param "T"]]), .specialize 13 [Builtin.int],
   .tuple [14, Builtin.int]]

theorem subtype_refused_iff_crates :
    crates.Reachable ∧ crates.IsSpecialized 17 ∧ crates.IsSpecialized 18 ∧
      crates.subtype 17 18 = Query.fail (.unspecializedSubtype "List") ∧
      (∃ p q, crates.ComesTo (17, 18) (p, q) ∧ crates.Unfit p q (.unspecializedSubtype "List")) ∧
      (Operation.build stacking).ParamsSpecialized ∧
      (Operation.build stacking).subtype 17 13 = Query.fail (.unspecializedSubtype "Crate") ∧
      (Operation.build stacking).Unfit 17 13 (.unspecializedSubtype "Crate") := by
  have hcrates : crates.Reachable := reachable_build _
  have hrefused : crates.subtype 17 18 = Query.fail (.unspecializedSubtype "List") := by
    decide +kernel
  have hstacked : (Operation.build stacking).Reachable := reachable_build _
  have hbuild : Operation.afterAll stacking initial = some (Operation.build stacking) := by
    decide +kernel
  have hproperly : initial.LeadsProperly (Operation.build stacking) :=
    leadsProperly_of_afterAll hbuild (by decide +kernel)
  have hrefused' : (Operation.build stacking).subtype 17 13 =
      Query.fail (.unspecializedSubtype "Crate") := by decide +kernel
  obtain ⟨hcomes, -⟩ := subtype_refused_iff hcrates (a := 17) (b := 18) (by decide +kernel)
    (by decide +kernel)
  obtain ⟨-, -, hunfit, hparams⟩ := subtype_refused_iff hstacked (a := 17) (b := 13)
    (by decide +kernel) (by decide +kernel)
  exact ⟨hcrates, by decide +kernel, by decide +kernel, hrefused, (hcomes _).1 hrefused,
    hparams hproperly, hrefused', (hunfit (hparams hproperly) _).1 hrefused'⟩

/-- A template `List`, 12, and the tuple of it. -/
def lists : Registry :=
  Operation.build [.create "List" none ["T"], .tuple [12]]

/-- The tuple of a template can be used, and it cannot be compared with itself. -/
theorem subtype_refused_specialized :
    lists.Reachable ∧ lists.IsSpecialized 13 ∧
      lists.subtype 13 13 = Query.fail (.unspecializedSubtype "List") :=
  ⟨reachable_build _, by decide +kernel, by decide +kernel⟩

end TypeLayer.Registry
