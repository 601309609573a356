import TypeLayer.Proofs.Nominal.Subtyping

/-!
# Subtyping is transitive

`Matches` is one step of the comparison of two types, with any relation in the place of
the comparison of their parameters.  It is what a comparison accepts
(`subtypeWithin_eq_true_iff`), whatever templates there are among the parameters of other
types: where two types are accepted, every pair that was compared on the way was accepted
too, so that nothing was refused.

Steps compose (`Matches.trans`).  For objects, the type in the middle and the member of
its family on the chain of the type on the left have the same supertype, so that from
there on their chains are the same.  What the right type is matched with is on that common
part, or it is the type in the middle itself; only then parameters are compared twice.
-/

namespace TypeLayer.Registry

variable {r : Registry} {id a b c : TypeId} {depth : Nat} {t ta tb : Datatype}
  {f fa fb : Family}

/-! ## One step of the comparison -/

/-- The type can be compared: it is no template. -/
structure Operand (r : Registry) (id : TypeId) (t : Datatype) (f : Family) : Prop where
  entry : r.entry id = .ok (t, f)
  specialized : t.specialized = true

theorem Operand.unique {t' : Datatype} {f' : Family} (h : r.Operand id t f)
    (h' : r.Operand id t' f') : t = t' ∧ f = f' :=
  eq_of_entry h.entry h'.entry

theorem Operand.lt_size (h : r.Operand id t f) : id < r.size :=
  Registry.lt_size (entry_eq_ok_iff.1 h.entry).1

/-- The rule of each style. The relation is that of the parameters. -/
def Rule (r : Registry) (related : TypeId → TypeId → Prop) (a b : TypeId) (ta tb : Datatype)
    (fa fb : Family) : Style → Prop
  | .integer | .floating => fa.bits ≤ fb.bits
  | .tuple => List.Forall₂ related ta.params tb.params
  | .object => b = Builtin.any ∨ b ≠ Builtin.any ∧ ∃ chain params, r.Chain a chain ∧
      r.Holds chain tb.family params ∧ List.Forall₂ related params tb.params
  | .method | .slice | .union => a = b

/-- One step of the comparison: both types can be used and have the same style, and its
rule holds. -/
inductive Matches (r : Registry) (related : TypeId → TypeId → Prop) (a b : TypeId) : Prop
  | intro {ta tb : Datatype} {fa fb : Family} (left : r.Operand a ta fa)
      (right : r.Operand b tb fb) (style : fa.style = fb.style)
      (rule : r.Rule related a b ta tb fa fb fa.style) : Matches r related a b

section Accepted

variable {related : TypeId → TypeId → Ask Bool}

theorem allRelated_eq_true_iff {pairs : List (TypeId × TypeId)} :
    allRelated related pairs = .ok true ↔ ∀ p ∈ pairs, related p.1 p.2 = .ok true := by
  induction pairs with
  | nil => simp [allRelated]
  | cons p rest ih =>
    rw [allRelated, List.forall_mem_cons, ← ih]
    split
    · next hab => simp [hab]
    · next hab => exact ⟨fun h => absurd h hab, fun h => absurd h.1 hab⟩

theorem pointwise_eq_true_iff {as bs : List TypeId} :
    pointwise related as bs = .ok true ↔
      List.Forall₂ (fun a b => related a b = .ok true) as bs := by
  unfold pointwise
  split
  · next hlength => simp [allRelated_eq_true_iff, List.forall₂_iff_zip, hlength]
  · next hlength => simpa using fun h => hlength h.length_eq

end Accepted

/-- Only types that can be used are compared. -/
theorem operands_of_subtypeWithin {answer : Bool}
    (h : r.subtypeWithin (depth + 1) a b = .ok answer) :
    ∃ ta fa tb fb, r.Operand a ta fa ∧ r.Operand b tb fb := by
  rw [subtypeWithin, subtypeBy] at h
  cases hleft : r.entry a with
  | error => simp [hleft, Query.ofExcept, Except.mapError, bind, Except.bind] at h
  | ok left =>
    cases hright : r.entry b with
    | error => simp [hleft, hright, Query.ofExcept, Except.mapError, bind, Except.bind] at h
    | ok right =>
      rw [hleft, hright] at h
      simp only [Query.ofExcept, Except.mapError, bind, Except.bind] at h
      split at h
      · cases h
      · next hsa =>
        split at h
        · cases h
        · next hsb =>
          exact ⟨_, _, _, _, ⟨hleft, by simpa using hsa⟩, ⟨hright, by simpa using hsb⟩⟩

theorem Operand.subtypeBy_eq {related : TypeId → TypeId → Ask Bool} (left : r.Operand a ta fa)
    (right : r.Operand b tb fb) :
    r.subtypeBy related a b = r.compareBy related a b ta tb fa fb := by
  simp [subtypeBy, left.entry, left.specialized, right.entry, right.specialized, Query.ofExcept,
    Except.mapError, bind, Except.bind]

/-- Of two types that can be used, the comparison asks for the same style and its rule. -/
theorem Operand.subtypeWithin_eq_true_iff (hleft : r.Operand a ta fa) (hright : r.Operand b tb fb)
    (hr : initial.Evolved r) :
    r.subtypeWithin (depth + 1) a b = .ok true ↔ fa.style = fb.style ∧
      r.Rule (fun p q => r.subtypeWithin depth p q = .ok true) a b ta tb fa fb fa.style := by
  obtain ⟨chain, hchain⟩ := exists_chain hr hleft.lt_size
  obtain ⟨found, hancestor, hfound⟩ : ∃ found, r.ancestor tb.family a = .ok found ∧ _ :=
    ancestor_eq hchain hr hleft.lt_size
  have hobject : (∃ params, found = some params ∧
        pointwise (r.subtypeWithin depth) params tb.params = .ok true) ↔
      ∃ chain params, r.Chain a chain ∧ r.Holds chain tb.family params ∧
        List.Forall₂ (fun p q => r.subtypeWithin depth p q = .ok true) params tb.params := by
    constructor
    · rintro ⟨params, hparams, hbelow⟩
      exact ⟨chain, params, hchain, (hfound params).1 hparams, pointwise_eq_true_iff.1 hbelow⟩
    · rintro ⟨chain', params, hchain', hholds, hbelow⟩
      obtain rfl := hchain.unique hchain'
      exact ⟨params, (hfound params).2 hholds, pointwise_eq_true_iff.2 hbelow⟩
  rw [subtypeWithin, hleft.subtypeBy_eq hright, compareBy]
  simp only [Query.ofExcept, Except.mapError, bind, Except.bind, pure, Except.pure, hancestor]
  by_cases hstyle : fa.style = fb.style
  swap
  · simp [hstyle]
  rw [← hstyle]
  cases fa.style with
  | integer | floating | method | slice | union => simp [Rule]
  | tuple => simp [Rule, pointwise_eq_true_iff]
  | object =>
    simp only [Rule, ← hobject]
    by_cases hany : b = Builtin.any
    · simp [hany]
    · cases found <;> simp [hany]

/-- A comparison accepts what matches. -/
theorem subtypeWithin_eq_true_iff (hr : initial.Evolved r) :
    r.subtypeWithin (depth + 1) a b = .ok true ↔
      r.Matches (fun p q => r.subtypeWithin depth p q = .ok true) a b := by
  constructor
  · intro h
    obtain ⟨ta, fa, tb, fb, hleft, hright⟩ := operands_of_subtypeWithin h
    obtain ⟨hstyle, hrule⟩ := (hleft.subtypeWithin_eq_true_iff hright hr).1 h
    exact ⟨hleft, hright, hstyle, hrule⟩
  · rintro ⟨hleft, hright, hstyle, hrule⟩
    exact (hleft.subtypeWithin_eq_true_iff hright hr).2 ⟨hstyle, hrule⟩

/-! ## Steps compose -/

/-- The chain from a member of a chain is a part of it. -/
theorem Chain.exists_of_mem {chain : List TypeId} {m : TypeId} (h : r.Chain id chain)
    (hm : m ∈ chain) : ∃ rest, r.Chain m rest ∧ rest ⊆ chain := by
  induction h with
  | any =>
    obtain rfl := List.mem_singleton.1 hm
    exact ⟨_, .any, List.Subset.refl _⟩
  | @up id t f chain ne entry rest ih =>
    rcases List.mem_cons.1 hm with rfl | hm
    · exact ⟨_, .up ne entry rest, List.Subset.refl _⟩
    · obtain ⟨tail, htail, hsubset⟩ := ih hm
      exact ⟨tail, htail, List.Subset.trans hsubset (List.subset_cons_self _ _)⟩

/-- If a chain has a member of the family of another type, then all that is above the other
type is on that chain too. -/
theorem Holds.trans {k : FamilyId} {chain chain' params params' : List TypeId}
    (hchain : r.Chain a chain) (hb : r.entry b = .ok (tb, fb))
    (h : r.Holds chain tb.family params) (hchain' : r.Chain b chain')
    (h' : r.Holds chain' k params') :
    tb.family = k ∧ tb.params = params' ∨ r.Holds chain k params' := by
  obtain ⟨m, hm, hne, u, hu, hfamily, -⟩ := h
  obtain ⟨m', hm', hne', u', hu', rfl, rfl⟩ := h'
  obtain ⟨htb, hfb⟩ := entry_eq_ok_iff.1 hb
  cases hchain' with
  | any => exact absurd (List.mem_singleton.1 hm') hne'
  | up ne entry rest =>
    obtain ⟨rfl, rfl⟩ := eq_of_entry hb entry
    rcases List.mem_cons.1 hm' with rfl | hm'
    · obtain rfl := Option.some.inj (htb.symm.trans hu')
      exact .inl ⟨rfl, rfl⟩
    · -- Both types are of one family, and the supertype is that of the family.
      obtain ⟨tail, htail, hsubset⟩ := hchain.exists_of_mem hm
      cases htail with
      | any => exact absurd rfl hne
      | up _ entry' rest' =>
        have hentry : r.entry m = .ok (u, fb) := entry_eq_ok_iff.2 ⟨hu, hfamily ▸ hfb⟩
        obtain ⟨rfl, rfl⟩ := eq_of_entry hentry entry'
        obtain rfl := rest.unique rest'
        exact .inr ⟨m', hsubset (List.mem_cons_of_mem _ hm'), hne', u', hu', rfl, rfl⟩

theorem not_holds_any {k : FamilyId} {chain params : List TypeId}
    (hchain : r.Chain Builtin.any chain) : ¬ r.Holds chain k params := by
  rintro ⟨m, hm, hne, -⟩
  cases hchain with
  | any => exact hne (List.mem_singleton.1 hm)
  | up ne => exact ne rfl

section Composition

variable {R : TypeId → TypeId → Prop} (hR : ∀ p q s, R p q → R q s → R p s)

include hR

theorem forall₂_trans {as bs cs : List TypeId} (h : List.Forall₂ R as bs)
    (h' : List.Forall₂ R bs cs) : List.Forall₂ R as cs := by
  induction h generalizing cs with
  | nil =>
    cases h'
    exact .nil
  | cons hab _ ih =>
    cases h' with
    | cons hbc hrest => exact .cons (hR _ _ _ hab hbc) (ih hrest)

theorem Rule.trans {tc : Datatype} {fc : Family} {style : Style} (hb : r.entry b = .ok (tb, fb))
    (h : r.Rule R a b ta tb fa fb style) (h' : r.Rule R b c tb tc fb fc style) :
    r.Rule R a c ta tc fa fc style := by
  cases style with
  | integer | floating => exact Nat.le_trans h h'
  | tuple => exact forall₂_trans hR h h'
  | method | slice | union => exact Eq.trans h h'
  | object =>
    rcases h' with rfl | ⟨hany, chain', params', hchain', hholds', hbelow'⟩
    · exact .inl rfl
    · right
      rcases h with rfl | ⟨-, chain, params, hchain, hholds, hbelow⟩
      · exact absurd hholds' (not_holds_any hchain')
      · rcases Holds.trans hchain hb hholds hchain' hholds' with ⟨hfamily, rfl⟩ | hholds'
        · rw [hfamily] at hholds
          exact ⟨hany, chain, params, hchain, hholds, forall₂_trans hR hbelow hbelow'⟩
        · exact ⟨hany, chain, params', hchain, hholds', hbelow'⟩

/-- Two steps make one, if the comparisons of parameters do. -/
theorem Matches.trans (hab : r.Matches R a b) (hbc : r.Matches R b c) : r.Matches R a c := by
  obtain ⟨hleft, hmiddle, hstyle, hrule⟩ := hab
  obtain ⟨hmiddle', hright, hstyle', hrule'⟩ := hbc
  obtain ⟨rfl, rfl⟩ := hmiddle.unique hmiddle'
  rw [← hstyle] at hrule'
  exact ⟨hleft, hright, hstyle.trans hstyle', Rule.trans hR hmiddle.entry hrule hrule'⟩

end Composition

/-! ## Transitivity -/

theorem subtypeWithin_trans (hr : initial.Evolved r) (hab : r.subtypeWithin depth a b = .ok true)
    (hbc : r.subtypeWithin depth b c = .ok true) : r.subtypeWithin depth a c = .ok true := by
  induction depth generalizing a b c with
  | zero => cases hab
  | succ depth ih =>
    rw [subtypeWithin_eq_true_iff hr] at hab hbc ⊢
    exact hab.trans (fun _ _ _ => ih) hbc

/-- Subtyping is transitive. In particular, the last question is not refused: no template
is met between the first type and the third that was not met on the way over the second. -/
theorem subtype_trans (hr : r.Reachable) (hab : r.subtype a b = .ok true)
    (hbc : r.subtype b c = .ok true) : r.subtype a c = .ok true :=
  subtypeWithin_trans hr.evolved hab hbc

/-- Dogs are animals, and puppies are dogs. A `Kennel{T}` is a `Box` of dogs, whatever its
parameter; the supertype of `Crate{T}` is the template `Box` itself. The last three types are
the tuples `(Kennel{Puppy}, Byte)`, `(Kennel{Dog}, Short)` and `(Box{Animal}, Int)`. -/
def boxes : Registry :=
  Operation.build
    [.create "Animal" none [], .create "Dog" (some 12) [], .create "Puppy" (some 13) [],
     .create "Box" none ["T"], .specialize 15 [13], .specialize 15 [12],
     .create "Kennel" (some 16) ["T"], .specialize 18 [14], .specialize 18 [13],
     .create "Crate" (some 15) ["T"], .specialize 21 [15],
     .tuple [19, Builtin.byte], .tuple [20, Builtin.short], .tuple [17, Builtin.int]]

/-- The tuples form a chain, and none of them is a subtype of one before it. -/
theorem subtype_trans_boxes :
    boxes.Reachable ∧ ¬ boxes.ParamsSpecialized ∧ boxes.subtype 23 24 = .ok true ∧
      boxes.subtype 24 25 = .ok true ∧ boxes.subtype 23 25 = .ok true ∧
      boxes.subtype 24 23 = .ok false ∧ boxes.subtype 25 24 = .ok false ∧
      boxes.subtype 25 23 = .ok false := by
  have hreachable : boxes.Reachable := reachable_build _
  have hab : boxes.subtype 23 24 = .ok true := by decide +kernel
  have hbc : boxes.subtype 24 25 = .ok true := by decide +kernel
  exact ⟨hreachable, by decide +kernel, hab, hbc, subtype_trans hreachable hab hbc,
    by decide +kernel, by decide +kernel, by decide +kernel⟩

end TypeLayer.Registry
