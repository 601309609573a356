import Mathlib.Data.List.Forall2
import TypeLayer.Nominal.Subtype
import TypeLayer.Proofs.Nominal.Families

/-!
# Subtyping

`Below` gives the subtypes by rules: numbers by their width, tuples member by member,
objects along their chains of supertypes, and all other types below themselves only.

A chain of supertypes ends in `Any`, and each family occurs on it at most once, since
the number of the family falls with every step (`Chain.nodup`).  The walk that looks
for a family on a chain therefore finds the one member there is (`ancestor_eq`), within
its bound.  The parameters of that member are older than the type on the left, which is
the measure by which the recursion ends; `tells_subtypeWithin` is proved by induction on
it.
-/

namespace TypeLayer.Registry

variable {r : Registry} {id a b : TypeId} {c : List TypeId} {t : Datatype} {f : Family}

/-! ## Chains of supertypes -/

/-- The chain of supertypes from a type up to `Any`. -/
inductive Chain (r : Registry) : TypeId → List TypeId → Prop
  | any : Chain r Builtin.any [Builtin.any]
  | up {id : TypeId} {t : Datatype} {f : Family} {c : List TypeId} (ne : id ≠ Builtin.any)
      (entry : r.entry id = .ok (t, f)) (rest : Chain r f.supertype c) : Chain r id (id :: c)

theorem Chain.head_mem (h : r.Chain id c) : id ∈ c := by
  cases h <;> exact List.mem_cons_self

theorem Chain.any_getLast? (h : r.Chain id c) : c.getLast? = some Builtin.any := by
  induction h with
  | any => rfl
  | up _ _ rest ih =>
    rw [List.getLast?_cons, ih]
    rfl

/-- Every type has a chain. The induction is on the number of the type. -/
theorem exists_chain (hr : initial.Evolved r) (hid : id < r.size) : ∃ c, r.Chain id c := by
  induction id using Nat.strongRecOn with
  | ind id ih =>
    by_cases hany : id = Builtin.any
    · subst hany
      exact ⟨_, .any⟩
    · obtain ⟨t, f, hentry⟩ := hr.wellFormed.exists_entry hid
      obtain ⟨hlt, hle, -⟩ := hr.supertype hentry hany
      have hlt' := Nat.lt_of_lt_of_le hlt hle
      obtain ⟨c, hc⟩ := ih f.supertype hlt' (Nat.lt_trans hlt' hid)
      exact ⟨id :: c, .up hany hentry hc⟩

theorem Chain.unique {c' : List TypeId} (h : r.Chain id c) (h' : r.Chain id c') : c = c' := by
  induction h generalizing c' with
  | any =>
    cases h' with
    | any => rfl
    | up ne => exact absurd rfl ne
  | up ne entry rest ih =>
    cases h' with
    | any => exact absurd rfl ne
    | up _ entry' rest' =>
      obtain ⟨-, rfl⟩ := eq_of_entry entry entry'
      rw [ih rest']

/-- The members of a chain are no younger than the type it starts from, and neither are
their families. -/
theorem Chain.mem_le (h : r.Chain id c) (hr : initial.Evolved r) (ht : r.types[id]? = some t) :
    ∀ m ∈ c, m ≤ id ∧ ∃ u, r.types[m]? = some u ∧ u.family ≤ t.family := by
  induction h generalizing t with
  | any =>
    intro m hm
    obtain rfl := List.mem_singleton.1 hm
    exact ⟨Nat.le_refl _, t, ht, Nat.le_refl _⟩
  | @up id t' f c ne entry rest ih =>
    obtain rfl := Option.some.inj ((entry_eq_ok_iff.1 entry).1.symm.trans ht)
    obtain ⟨hlt, hle, s, hs, hfamily⟩ := hr.supertype entry ne
    refine List.forall_mem_cons.2 ⟨⟨Nat.le_refl _, t', ht, Nat.le_refl _⟩, fun m hm => ?_⟩
    obtain ⟨hmle, u, hu, hule⟩ := ih hs m hm
    refine ⟨?_, u, hu, Nat.le_trans hule (Nat.le_of_lt hfamily)⟩
    exact Nat.le_trans hmle (Nat.le_of_lt (Nat.lt_of_lt_of_le hlt hle))

theorem Chain.length_le (h : r.Chain id c) (hr : initial.Evolved r)
    (ht : r.types[id]? = some t) : c.length ≤ t.family + 1 := by
  induction h generalizing t with
  | any => exact Nat.succ_le_succ (Nat.zero_le _)
  | @up id t' f c ne entry rest ih =>
    obtain rfl := Option.some.inj ((entry_eq_ok_iff.1 entry).1.symm.trans ht)
    obtain ⟨-, -, s, hs, hfamily⟩ := hr.supertype entry ne
    exact Nat.succ_le_succ (Nat.le_trans (ih hs) hfamily)

/-- On a chain, every family occurs at most once. -/
theorem Chain.nodup (h : r.Chain id c) (hr : initial.Evolved r) :
    (c.map fun m => r.types[m]?.map Datatype.family).Nodup := by
  induction h with
  | any => simp
  | @up id t f c ne entry rest ih =>
    obtain ⟨-, -, s, hs, hfamily⟩ := hr.supertype entry ne
    rw [List.map_cons, List.nodup_cons]
    refine ⟨fun hmem => ?_, ih⟩
    obtain ⟨m, hm, heq⟩ := List.mem_map.1 hmem
    obtain ⟨-, u, hu, hule⟩ := rest.mem_le hr hs m hm
    rw [(entry_eq_ok_iff.1 entry).1, hu] at heq
    have heq : u.family = t.family := Option.some.inj heq
    exact Nat.not_le_of_lt hfamily (heq ▸ hule)

/-! ## The walk up a chain -/

/-- The member of a chain of some family, `Any` excluded, with its parameters. -/
def Holds (r : Registry) (c : List TypeId) (target : FamilyId) (params : List TypeId) : Prop :=
  ∃ m ∈ c, m ≠ Builtin.any ∧ ∃ u, r.types[m]? = some u ∧ u.family = target ∧ u.params = params

theorem ancestorWithin_eq {target : FamilyId} {length : Nat} (h : r.Chain id c)
    (hr : initial.Evolved r) (hlength : c.length ≤ length) :
    ∃ found, r.ancestorWithin target length id = .ok found ∧
      ∀ params, found = some params ↔ r.Holds c target params := by
  induction h generalizing length with
  | any =>
    obtain ⟨length, rfl⟩ := Nat.exists_eq_add_one_of_ne_zero (Nat.ne_of_gt hlength)
    refine ⟨none, by rw [ancestorWithin, if_pos rfl], fun params => ⟨nofun, ?_⟩⟩
    rintro ⟨m, hm, hne, -⟩
    exact absurd (List.mem_singleton.1 hm) hne
  | @up id t f c ne entry rest ih =>
    obtain ⟨length, rfl⟩ := Nat.exists_eq_add_one_of_ne_zero (Nat.ne_zero_of_lt hlength)
    rw [ancestorWithin, if_neg ne, entry]
    have ht := (entry_eq_ok_iff.1 entry).1
    by_cases hfamily : t.family = target
    · -- No later member of the chain belongs to the family.
      refine ⟨some t.params, if_pos hfamily, fun params => ⟨?_, ?_⟩⟩
      · rintro ⟨⟩
        exact ⟨id, List.mem_cons_self, ne, t, ht, hfamily, rfl⟩
      · rintro ⟨m, hm, -, u, hu, hfamily', rfl⟩
        rcases List.mem_cons.1 hm with rfl | hm
        · rw [Option.some.inj (ht.symm.trans hu)]
        · obtain ⟨-, -, s, hs, hlt⟩ := hr.supertype entry ne
          obtain ⟨-, u', hu', hle⟩ := rest.mem_le hr hs m hm
          obtain rfl := Option.some.inj (hu.symm.trans hu')
          rw [hfamily, ← hfamily'] at hlt
          exact absurd hle (Nat.not_le_of_lt hlt)
    · obtain ⟨found, hfound, hholds⟩ := ih (Nat.le_of_succ_le_succ hlength)
      refine ⟨found, (if_neg hfamily).trans hfound, fun params => (hholds params).trans ⟨?_, ?_⟩⟩
      · rintro ⟨m, hm, hmember⟩
        exact ⟨m, List.mem_cons_of_mem _ hm, hmember⟩
      · rintro ⟨m, hm, hne, u, hu, hfamily', hparams⟩
        rcases List.mem_cons.1 hm with rfl | hm
        · obtain rfl := Option.some.inj (ht.symm.trans hu)
          exact absurd hfamily' hfamily
        · exact ⟨m, hm, hne, u, hu, hfamily', hparams⟩

theorem ancestor_eq {target : FamilyId} (h : r.Chain id c) (hr : initial.Evolved r)
    (hid : id < r.size) :
    ∃ found, r.ancestor target id = .ok found ∧
      ∀ params, found = some params ↔ r.Holds c target params := by
  obtain ⟨t, ht⟩ := exists_type hid
  refine ancestorWithin_eq h hr (Nat.le_trans (h.length_le hr ht) ?_)
  exact Nat.le_succ_of_le (hr.wellFormed.family_known ht)

/-! ## The relation -/

/-- The subtypes. `upper` tells which types an object may be below, by their style,
when a member of its chain is of their family. -/
inductive Below (r : Registry) (upper : Style → Prop) : TypeId → TypeId → Prop
  | number {a b : TypeId} {ta tb : Datatype} {fa fb : Family} (left : r.entry a = .ok (ta, fa))
      (right : r.entry b = .ok (tb, fb)) (numeric : fa.style = .integer ∨ fa.style = .floating)
      (style : fb.style = fa.style) (bits : fa.bits ≤ fb.bits) : Below r upper a b
  | tuple {a b : TypeId} {ta tb : Datatype} {fa fb : Family} (left : r.entry a = .ok (ta, fa))
      (right : r.entry b = .ok (tb, fb)) (style : fa.style = .tuple) (style' : fb.style = .tuple)
      (params : List.Forall₂ (Below r upper) ta.params tb.params) : Below r upper a b
  | any {a : TypeId} {ta : Datatype} {fa : Family} (left : r.entry a = .ok (ta, fa))
      (style : fa.style = .object) : Below r upper a Builtin.any
  | object {a b : TypeId} {ta tb : Datatype} {fa fb : Family} {c : List TypeId}
      {params : List TypeId} (left : r.entry a = .ok (ta, fa)) (right : r.entry b = .ok (tb, fb))
      (style : fa.style = .object) (style' : upper fb.style) (chain : r.Chain a c)
      (member : r.Holds c tb.family params)
      (below : List.Forall₂ (Below r upper) params tb.params) : Below r upper a b
  | same {a : TypeId} {ta : Datatype} {fa : Family} (left : r.entry a = .ok (ta, fa))
      (style : fa.style = .method ∨ fa.style = .slice ∨ fa.style = .union) : Below r upper a a

section Relation

variable {upper : Style → Prop} {ta tb : Datatype} {fa fb : Family}

/-- The relation one step at a time: which rule applies is told by the style on the
left. -/
theorem below_iff (ha : r.entry a = .ok (ta, fa)) (hb : r.entry b = .ok (tb, fb)) :
    r.Below upper a b ↔
      (fa.style = .integer ∨ fa.style = .floating) ∧ fb.style = fa.style ∧ fa.bits ≤ fb.bits ∨
      fa.style = .tuple ∧ fb.style = .tuple ∧
        List.Forall₂ (r.Below upper) ta.params tb.params ∨
      fa.style = .object ∧ (b = Builtin.any ∨ upper fb.style ∧ ∃ c params, r.Chain a c ∧
        r.Holds c tb.family params ∧ List.Forall₂ (r.Below upper) params tb.params) ∨
      (fa.style = .method ∨ fa.style = .slice ∨ fa.style = .union) ∧ a = b := by
  constructor
  · intro h
    cases h with
    | number left right numeric style bits =>
      obtain ⟨rfl, rfl⟩ := eq_of_entry ha left
      obtain ⟨rfl, rfl⟩ := eq_of_entry hb right
      exact .inl ⟨numeric, style, bits⟩
    | tuple left right style style' params =>
      obtain ⟨rfl, rfl⟩ := eq_of_entry ha left
      obtain ⟨rfl, rfl⟩ := eq_of_entry hb right
      exact .inr (.inl ⟨style, style', params⟩)
    | any left style =>
      obtain ⟨rfl, rfl⟩ := eq_of_entry ha left
      exact .inr (.inr (.inl ⟨style, .inl rfl⟩))
    | object left right style style' chain member below =>
      obtain ⟨rfl, rfl⟩ := eq_of_entry ha left
      obtain ⟨rfl, rfl⟩ := eq_of_entry hb right
      exact .inr (.inr (.inl ⟨style, .inr ⟨style', _, _, chain, member, below⟩⟩))
    | same left style =>
      obtain ⟨rfl, rfl⟩ := eq_of_entry ha left
      exact .inr (.inr (.inr ⟨style, rfl⟩))
  · rintro (⟨numeric, style, bits⟩ | ⟨style, style', params⟩ |
      ⟨style, rfl | ⟨style', c, params, chain, member, below⟩⟩ | ⟨style, rfl⟩)
    · exact .number ha hb numeric style bits
    · exact .tuple ha hb style style' params
    · exact .any ha style
    · exact .object ha hb style style' chain member below
    · exact .same ha style

theorem Evolved.any_style (hr : initial.Evolved r) (hentry : r.entry Builtin.any = .ok (t, f)) :
    f.style = .object := by
  obtain ⟨t₀, f₀, hentry₀, hstyle⟩ : ∃ t₀ f₀, initial.entry Builtin.any = .ok (t₀, f₀) ∧
      f₀.style = .object := ⟨_, _, rfl, rfl⟩
  obtain ⟨t', f', hentry', -, hbecomes⟩ := hr.extends.entry hentry₀
  obtain ⟨rfl, rfl⟩ := eq_of_entry hentry hentry'
  exact hbecomes.style.trans hstyle

/-- If objects are below objects only, the relation stays within a style. -/
theorem Below.style_eq (h : r.Below (· = .object) a b) (hr : initial.Evolved r)
    (ha : r.entry a = .ok (ta, fa)) (hb : r.entry b = .ok (tb, fb)) : fa.style = fb.style := by
  rcases (below_iff ha hb).1 h with
    ⟨-, hstyle, -⟩ | ⟨hstyle, hstyle', -⟩ | ⟨hstyle, rfl | ⟨hstyle', -⟩⟩ | ⟨-, rfl⟩
  · exact hstyle.symm
  · exact hstyle.trans hstyle'.symm
  · exact hstyle.trans (hr.any_style hb).symm
  · exact hstyle.trans hstyle'.symm
  · rw [(eq_of_entry ha hb).2]

/-- Every type is below itself. The induction is on its number. -/
theorem below_refl (hr : initial.Evolved r) (hupper : upper .object) (ha : a < r.size) :
    r.Below upper a a := by
  induction a using Nat.strongRecOn with
  | ind a ih =>
    obtain ⟨ta, fa, hentry⟩ := hr.wellFormed.exists_entry ha
    have hta := (entry_eq_ok_iff.1 hentry).1
    have hparams : List.Forall₂ (r.Below upper) ta.params ta.params := by
      rw [List.forall₂_same]
      intro p hp
      have hlt := hr.wellFormed.params_older hta p hp
      exact ih p hlt (Nat.lt_trans hlt ha)
    rw [below_iff hentry hentry]
    cases hstyle : fa.style with
    | integer | floating => simp
    | tuple => simpa using hparams
    | method | slice | union => simp
    | object =>
      by_cases hany : a = Builtin.any
      · simp [hany]
      · obtain ⟨c, hc⟩ := exists_chain hr ha
        have hholds : r.Holds c ta.family ta.params :=
          ⟨a, hc.head_mem, hany, ta, hta, rfl, rfl⟩
        exact .inr (.inr (.inl ⟨rfl, .inr ⟨hupper, c, _, hc, hholds, hparams⟩⟩))

end Relation

/-! ## The decision -/

/-- The question is not at fault: its answer tells whether the statement holds, and it
is refused for the given reason only. -/
def Tells (x : Ask Bool) (statement refusal : Prop) : Prop :=
  match x with
  | .ok answer => answer = true ↔ statement
  | .error (.error _) => refusal
  | .error (.fault _) => False

section Tells

variable {x : Ask Bool} {P P' E E' : Prop} {related : TypeId → TypeId → Ask Bool}
  {below : TypeId → TypeId → Prop}

theorem Tells.congr (h : Tells x P E) (hP : P ↔ P') : Tells x P' E := by
  rwa [← hP]

theorem Tells.mono (h : Tells x P E) (hE : E → E') : Tells x P E' := by
  cases x with
  | ok answer => exact h
  | error e =>
    cases e with
    | error _ => exact hE h
    | fault _ => exact h

/-- A question that is not refused has an answer. -/
theorem Tells.exists_answer (h : Tells x P E) (hE : ¬ E) :
    ∃ answer, x = .ok answer ∧ (answer = true ↔ P) := by
  cases x with
  | ok answer => exact ⟨answer, rfl, h⟩
  | error e =>
    cases e with
    | error _ => exact absurd h hE
    | fault _ => exact h.elim

theorem tells_allRelated {pairs : List (TypeId × TypeId)}
    (h : ∀ p ∈ pairs, Tells (related p.1 p.2) (below p.1 p.2) E) :
    Tells (allRelated related pairs) (∀ p ∈ pairs, below p.1 p.2) E := by
  induction pairs with
  | nil => simp [allRelated, Tells]
  | cons p rest ih =>
    rw [List.forall_mem_cons] at h
    obtain ⟨a, b⟩ := p
    have hab := h.1
    rw [allRelated]
    cases hrelated : related a b with
    | ok answer =>
      rw [hrelated] at hab
      cases answer with
      | true =>
        have hbelow : below a b := hab.1 rfl
        exact (ih h.2).congr (by simp [hbelow])
      | false =>
        have hnot : ¬ below a b := fun hbelow => nomatch hab.2 hbelow
        simp [Tells, hnot]
    | error e =>
      rw [hrelated] at hab
      cases e with
      | error _ => exact hab
      | fault _ => exact hab.elim

theorem tells_pointwise {as bs : List TypeId}
    (h : ∀ a ∈ as, ∀ b ∈ bs, Tells (related a b) (below a b) E) :
    Tells (pointwise related as bs) (List.Forall₂ below as bs) E := by
  unfold pointwise
  split
  · next hlength =>
    have hpairs : ∀ p ∈ as.zip bs, Tells (related p.1 p.2) (below p.1 p.2) E := by
      intro p hp
      obtain ⟨ha, hb⟩ := List.of_mem_zip hp
      exact h p.1 ha p.2 hb
    exact (tells_allRelated hpairs).congr (by simp [List.forall₂_iff_zip, hlength])
  · next hlength =>
    have hnot : ¬ List.Forall₂ below as bs := fun hbelow => hlength hbelow.length_eq
    simp [Tells, hnot]

end Tells

/-! ## Subtyping -/

/-- The type can be used, and is no template. -/
def IsSpecialized (r : Registry) (id : TypeId) : Prop :=
  ∃ t, r.types[id]? = some t ∧ t.specialized = true

theorem IsSpecialized.lt_size (h : r.IsSpecialized id) : id < r.size := by
  obtain ⟨t, ht, -⟩ := h
  exact Registry.lt_size ht

instance (r : Registry) (id : TypeId) : Decidable (r.IsSpecialized id) :=
  decidable_of_iff (r.types[id]?.any Datatype.specialized = true) (by
    simp [IsSpecialized, Option.any_eq_true])

/-- No template is among the parameters of any type. -/
def ParamsSpecialized (r : Registry) : Prop :=
  ∀ t ∈ r.types, ∀ p ∈ t.params, r.IsSpecialized p

instance (r : Registry) : Decidable r.ParamsSpecialized :=
  inferInstanceAs (Decidable (∀ t ∈ r.types, ∀ p ∈ t.params, r.IsSpecialized p))

/-- Why a question about subtyping is refused: there is a template where none may be. -/
def Unusable (r : Registry) (a b : TypeId) : Prop :=
  r.ParamsSpecialized → r.IsSpecialized a → ¬ r.IsSpecialized b

theorem not_isSpecialized (ht : r.types[id]? = some t) (h : t.specialized ≠ true) :
    ¬ r.IsSpecialized id := by
  rintro ⟨u, hu, hspecialized⟩
  obtain rfl := Option.some.inj (ht.symm.trans hu)
  exact h hspecialized

section Decision

variable {depth : Nat} {ta tb : Datatype} {fa fb : Family}
  {related : TypeId → TypeId → Ask Bool}

theorem tells_ok {answer : Bool} {P E : Prop} (h : answer = true ↔ P) :
    Tells (.ok answer) P E :=
  h

/-- The parameters of two types are compared if older types are. -/
theorem tells_params {m : TypeId} {u : Datatype} (hr : initial.Evolved r)
    (hu : r.types[m]? = some u) (htb : r.types[b]? = some tb)
    (hrelated : ∀ p q, p < m → q < b →
      Tells (related p q) (r.Below (· = .object) p q) (r.Unusable p q)) :
    Tells (pointwise related u.params tb.params)
      (List.Forall₂ (r.Below (· = .object)) u.params tb.params) (r.Unusable a b) := by
  refine tells_pointwise fun p hp q hq => ?_
  have hpm := hr.wellFormed.params_older hu p hp
  have hqb := hr.wellFormed.params_older htb q hq
  refine (hrelated p q hpm hqb).mono fun hunusable hspecialized => ?_
  have hleft := hspecialized u (Array.mem_of_getElem? hu) p hp
  have hright := hspecialized tb (Array.mem_of_getElem? htb) q hq
  exact absurd hright (hunusable hspecialized hleft)

/-- An object is below another if the member of its chain that is found for the family
of the other has smaller parameters. -/
theorem below_object_iff {found : Option (List TypeId)} (hleft : r.entry a = .ok (ta, fa))
    (hright : r.entry b = .ok (tb, fb)) (hobject : fa.style = .object)
    (hstyle : fb.style = .object) (hany : b ≠ Builtin.any) (hc : r.Chain a c)
    (hfound : ∀ params, found = some params ↔ r.Holds c tb.family params) :
    r.Below (· = .object) a b ↔ ∃ params, found = some params ∧
      List.Forall₂ (r.Below (· = .object)) params tb.params := by
  constructor
  · intro h
    cases h with
    | any => exact absurd rfl hany
    | object left right _ _ chain member below =>
      obtain ⟨rfl, rfl⟩ := eq_of_entry hright right
      obtain rfl := hc.unique chain
      exact ⟨_, (hfound _).2 member, below⟩
    | number left _ style | tuple left _ style | same left style =>
      obtain ⟨rfl, rfl⟩ := eq_of_entry hleft left
      simp [hobject] at style
  · rintro ⟨params, hparams, below⟩
    exact .object hleft hright hobject hstyle hc ((hfound params).1 hparams) below

theorem tells_subtypeWithin (hr : initial.Evolved r) (ha : a < r.size) (hb : b < r.size)
    (hdepth : a < depth) :
    Tells (r.subtypeWithin depth a b) (r.Below (· = .object) a b) (r.Unusable a b) := by
  induction depth generalizing a b with
  | zero => exact absurd hdepth (Nat.not_lt_zero _)
  | succ depth ih =>
    obtain ⟨ta, fa, hleft⟩ := hr.wellFormed.exists_entry ha
    obtain ⟨tb, fb, hright⟩ := hr.wellFormed.exists_entry hb
    have hta := (entry_eq_ok_iff.1 hleft).1
    have htb := (entry_eq_ok_iff.1 hright).1
    have hrelated : ∀ p q, p < a → q < b → Tells (r.subtypeWithin depth p q)
        (r.Below (· = .object) p q) (r.Unusable p q) := by
      intro p q hp hq
      exact ih (Nat.lt_trans hp ha) (Nat.lt_trans hq hb)
        (Nat.lt_of_lt_of_le hp (Nat.le_of_lt_succ hdepth))
    obtain ⟨c, hc⟩ := exists_chain hr ha
    obtain ⟨found, hancestor, hfound⟩ : ∃ found, r.ancestor tb.family a = .ok found ∧ _ :=
      ancestor_eq hc hr ha
    rw [subtypeWithin, subtypeBy, hleft, hright]
    simp only [compareBy, Query.ofExcept, hancestor, Except.mapError, bind, Except.bind]
    by_cases hsa : ta.specialized = true
    swap
    · rw [if_pos (by simpa using hsa)]
      exact fun _ hspecialized => absurd hspecialized (not_isSpecialized hta hsa)
    by_cases hsb : tb.specialized = true
    swap
    · rw [if_neg (by simpa using hsa), if_pos (by simpa using hsb)]
      exact fun _ _ => not_isSpecialized htb hsb
    rw [if_neg (by simpa using hsa), if_neg (by simpa using hsb)]
    by_cases hstyle : fa.style = fb.style
    swap
    · rw [if_pos hstyle]
      have hnot : ¬ r.Below (· = .object) a b := fun h => hstyle (h.style_eq hr hleft hright)
      exact tells_ok (by simp [hnot])
    rw [if_neg (not_not_intro hstyle)]
    have hbelow : r.Below (· = .object) a b ↔ _ := below_iff hleft hright
    rw [← hstyle] at hbelow
    cases hkind : fa.style with
    | integer | floating => exact tells_ok (by simp [hbelow, hkind])
    | tuple => exact (tells_params hr hta htb hrelated).congr (by simp [hbelow, hkind])
    | method | slice | union => exact tells_ok (by simp [hbelow, hkind])
    | object =>
      by_cases hany : b = Builtin.any
      · rw [if_pos hany]
        have hobject := hbelow.2 (.inr (.inr (.inl ⟨hkind, .inl hany⟩)))
        exact tells_ok (by simp [hobject])
      · rw [if_neg hany]
        have hobject := below_object_iff hleft hright hkind (hstyle ▸ hkind) hany hc hfound
        cases found with
        | none => exact tells_ok (by simp [hobject])
        | some params =>
          obtain ⟨m, hm, -, u, hu, -, rfl⟩ := (hfound params).1 rfl
          have hle := (hc.mem_le hr hta m hm).1
          refine (tells_params hr hu htb fun p q hp hq => ?_).congr (by simp [hobject])
          exact hrelated p q (Nat.lt_of_lt_of_le hp hle) hq

theorem tells_subtype (hr : initial.Evolved r) (ha : a < r.size) (hb : b < r.size) :
    Tells (r.subtype a b) (r.Below (· = .object) a b) (r.Unusable a b) := by
  refine tells_subtypeWithin hr ha hb (Nat.lt_succ_of_le ?_)
  exact Nat.le_trans (Nat.le_of_lt ha) (Nat.le_mul_self _)

end Decision

/-- Where no template is in the way, subtyping has an answer for all types that can be
used, which is that of the relation; and every such type is a subtype of itself. -/
theorem subtype_iff_below (hr : r.Reachable) (hparams : r.ParamsSpecialized)
    (ha : r.IsSpecialized a) (hb : r.IsSpecialized b) :
    (∃ answer, r.subtype a b = .ok answer ∧ (answer = true ↔ r.Below (· = .object) a b)) ∧
      r.subtype a a = .ok true := by
  have hanswers : ∀ b, r.IsSpecialized b → ∃ answer, r.subtype a b = .ok answer ∧
      (answer = true ↔ r.Below (· = .object) a b) := by
    intro b hb
    refine (tells_subtype hr.evolved ha.lt_size hb.lt_size).exists_answer fun hunusable => ?_
    exact hunusable hparams ha hb
  refine ⟨hanswers b hb, ?_⟩
  obtain ⟨answer, hanswer, hbelow⟩ := hanswers a ha
  rw [hanswer, hbelow.2 (below_refl hr.evolved rfl ha.lt_size)]

/-- A `Kennel` is a `Box` of dogs, and dogs are animals. The last two types are the
tuples `(Kennel, Short)` and `(Box{Animal}, Int)`. -/
def kennels : Registry :=
  Operation.build
    [.create "Animal" none [], .create "Dog" (some 12) [], .create "Box" none ["T"],
     .specialize 14 [13], .specialize 14 [12], .create "Kennel" (some 15) [],
     .tuple [17, Builtin.short], .tuple [16, Builtin.int]]

theorem subtype_iff_below_kennels :
    kennels.Reachable ∧ kennels.ParamsSpecialized ∧ kennels.IsSpecialized 18 ∧
      kennels.IsSpecialized 19 ∧ kennels.subtype 18 19 = .ok true ∧
      kennels.Below (· = .object) 18 19 ∧ ¬ kennels.Below (· = .object) 19 18 := by
  have hreachable : kennels.Reachable := reachable_build _
  have hparams : kennels.ParamsSpecialized := by decide +kernel
  have h18 : kennels.IsSpecialized 18 := by decide +kernel
  have h19 : kennels.IsSpecialized 19 := by decide +kernel
  have hsubtype : kennels.subtype 18 19 = .ok true := by decide +kernel
  have hnot : kennels.subtype 19 18 = .ok false := by decide +kernel
  obtain ⟨⟨answer, hanswer, hbelow⟩, -⟩ := subtype_iff_below hreachable hparams h18 h19
  obtain ⟨⟨answer', hanswer', hbelow'⟩, -⟩ := subtype_iff_below hreachable hparams h19 h18
  obtain rfl : true = answer := Except.ok.inj (hsubtype.symm.trans hanswer)
  obtain rfl : false = answer' := Except.ok.inj (hnot.symm.trans hanswer')
  exact ⟨hreachable, hparams, h18, h19, hsubtype, hbelow.1 rfl, fun h => nomatch hbelow'.2 h⟩

/-- A registry with an object type `Meters` under `Int`. -/
def metric : Registry :=
  Operation.build [.create "Meters" (some Builtin.int) []]

/-- A chain of supertypes can leave the objects, and a number on it is no supertype as
far as subtyping goes. -/
theorem meters_not_subtype_int :
    metric.Reachable ∧ metric.ParamsSpecialized ∧ metric.IsSpecialized 12 ∧
      metric.IsSpecialized Builtin.int ∧ metric.Below (fun _ => True) 12 Builtin.int ∧
      metric.subtype 12 Builtin.int = .ok false := by
  have hreachable : metric.Reachable := reachable_build _
  have hint : metric.IsSpecialized Builtin.int := by decide +kernel
  obtain ⟨t, f, hleft, hstyle, hsupertype⟩ : ∃ t f, metric.entry 12 = .ok (t, f) ∧
      f.style = .object ∧ f.supertype = Builtin.int := ⟨_, _, rfl, rfl, rfl⟩
  obtain ⟨t', f', hright, hparams⟩ : ∃ t f, metric.entry Builtin.int = .ok (t, f) ∧
      t.params = [] := ⟨_, _, rfl, rfl⟩
  obtain ⟨c, hc⟩ := exists_chain hreachable.evolved hint.lt_size
  have hchain : metric.Chain 12 (12 :: c) := .up (by decide) hleft (hsupertype ▸ hc)
  have hholds : metric.Holds (12 :: c) t'.family [] :=
    ⟨Builtin.int, List.mem_cons_of_mem _ hc.head_mem, by decide, t', (entry_eq_ok_iff.1 hright).1,
      rfl, hparams⟩
  refine ⟨hreachable, by decide +kernel, by decide +kernel, hint, ?_, by decide +kernel⟩
  exact .object hleft hright hstyle trivial hchain hholds (by rw [hparams]; exact .nil)

end TypeLayer.Registry
