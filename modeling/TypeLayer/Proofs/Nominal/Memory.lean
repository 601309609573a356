import TypeLayer.Proofs.Nominal.Lowering

/-!
# Kept layouts

The layout of a type is worked out once, and kept from then on.  It does not depend on when it
is asked for, nor on what else is, for two reasons:

* what is kept for a type that is stored in place never goes out of date, since it comes from
  parameters alone (`Reachable.remembers`);
* the layout of an object is kept only where the object itself is asked for, since objects are
  members by reference (`keeps_layoutWithin_object`).

So the fields of an object matter for no layout but its own, and for that one only until it is
given (`layout_lasting`).
-/

namespace TypeLayer.Registry

open TypeLayer.Action TypeLayer.Outcome

variable {r r' : Registry} {id x : TypeId} {t : Datatype} {f : Family} {l : Layout}
  {op : Operation} {depth : Nat}

/-! ## Layouts stay -/

/-- The registry keeps the layout for the type. -/
def LaidOut (r : Registry) (id : TypeId) (l : Layout) : Prop :=
  ∃ t, r.types[id]? = some t ∧ t.layout = some l

theorem not_laidOut (ht : r.types[id]? = some t) (hnone : t.layout = none) (l : Layout) :
    ¬ r.LaidOut id l := by
  rintro ⟨u, hu, hkept⟩
  obtain rfl := Option.some.inj (ht.symm.trans hu)
  cases hnone.symm.trans hkept

/-- A layout that is kept is given, and nothing changes. -/
theorem LaidOut.layout_eq (h : r.LaidOut id l) (hr : r.WellFormed) : layout id r = .ok l r := by
  obtain ⟨t, ht, hkept⟩ := h
  obtain ⟨u, f, hentry⟩ := hr.exists_entry (lt_size ht)
  obtain rfl := Option.some.inj (ht.symm.trans (entry_eq_ok_iff.1 hentry).1)
  exact layoutWithin_kept hentry hkept

/-- Working out a layout replaces none that is kept. -/
theorem keeps_laidOut (depth : Nat) (hr : r.LaidOut x l) (id : TypeId) :
    (keeping fun r => r.LaidOut x l).Meets r (layoutWithin depth id) fun _ _ => True := by
  induction depth generalizing r id with
  | zero => exact Contract.meets_layoutWithin_zero trivial
  | succ depth ih =>
    refine keeps_layoutWithin_succ (fun r id _ _ hr _ _ => ih hr id) hr ?_
    intro u g _ r' hentry hnone hr'
    have hne : id ≠ x := by
      rintro rfl
      exact not_laidOut (entry_eq_ok_iff.1 hentry).1 hnone l hr
    obtain ⟨t, ht, hlayout⟩ := hr'
    exact ⟨t, (types_modifyType ..).trans ((if_neg hne).trans ht), hlayout⟩

/-- A layout that is given is kept. -/
theorem laidOut_of_layout (h : layout id r = .ok l r') : r'.LaidOut id l := by
  have hgiven : (keeping fun _ => True).Meets r (layoutWithin (r.size + 1) id)
      fun l r' => ∀ t, r'.types[id]? = some t → t.layout = some l := by
    refine Contract.meets_layoutWithin_succ trivial (fun _ _ => trivial) ?_
      (fun _ _ _ _ _ => trivial) (fun _ _ _ _ => trivial) fun t f _ _ _ => ?_
    · intro t f l hentry hkept u hu
      rw [Option.some.inj (hu.symm.trans (entry_eq_ok_iff.1 hentry).1), hkept]
    · refine Contract.meets_iff.2
        ⟨fun l r₁ _ => ⟨trivial, trivial, fun u hu => ?_⟩, fun _ _ _ => trivial, fun _ _ => trivial⟩
      rcases type_of_modifyType hu with ⟨hne, -⟩ | ⟨-, u, -, rfl⟩
      · exact absurd rfl hne
      · rfl
  have hunlaid : r'.unlaid = r.unlaid := unlaid_layout (by rw [h, state?_ok])
  cases hentry : r.entry id with
  | error fault =>
    rw [layout, layoutWithin, bind_apply, Action.read, hentry] at h
    cases h
  | ok entry =>
    obtain ⟨t, f⟩ := entry
    obtain ⟨t', hentry', -⟩ := entry_of_unlaid hunlaid.symm hentry
    have ht' := (entry_eq_ok_iff.1 hentry').1
    exact ⟨t', ht', (hgiven.ok h).2 t' ht'⟩

/-! ## What operations do to layouts -/

theorem laidOut_declare {d : Declaration} : (r.declare d).LaidOut x l ↔ r.LaidOut x l := by
  unfold LaidOut Registry.declare
  rw [Array.getElem?_push]
  split
  · next hx =>
    rw [hx, Array.getElem?_size]
    simp
  · exact Iff.rfl

theorem laidOut_modifyType {change : Datatype → Datatype}
    (hchange : ∀ t : Datatype, (change t).layout = t.layout) :
    (r.modifyType id change).LaidOut x l ↔ r.LaidOut x l := by
  unfold LaidOut
  rw [types_modifyType]
  split
  · cases r.types[x]? <;> simp [hchange]
  · exact Iff.rfl

theorem Grown.laidOut_iff {good : TypeId → Prop} (h : r.Grown good r') :
    r'.LaidOut x l ↔ r.LaidOut x l := by
  by_cases hlt : x < r.size
  · rw [LaidOut, LaidOut, h.kept hlt]
  · constructor
    · rintro ⟨t, ht, hkept⟩
      cases (h.made (Nat.le_of_not_lt hlt) ht).layout.symm.trans hkept
    · rintro ⟨t, ht, -⟩
      exact absurd (lt_size ht) hlt

/-- Only a call that asks for layouts changes which of them are kept. -/
theorem Operation.laidOut_iff (hop : ∀ id, op ≠ .layout id) (h : op.after r = some r') :
    r'.LaidOut x l ↔ r.LaidOut x l := by
  have hdeclare : ∀ {d : Declaration}, (declareNew d r).state? = some r' →
      (r'.LaidOut x l ↔ r.LaidOut x l) := by
    intro d h
    rcases declareNew_cases h with rfl | rfl
    · exact laidOut_declare
    · exact Iff.rfl
  cases op with
  | create | createInteger | createFloat => exact hdeclare h
  | addField =>
    rcases addField_cases h with ⟨t, f, -, -, -, rfl⟩ | rfl
    · exact laidOut_modifyType fun _ => rfl
    · exact Iff.rfl
  | specialize | tuple | union | method | slice => exact (grown_specialize h).laidOut_iff
  | denote => exact (grown_denote h).laidOut_iff
  | fields i =>
    obtain rfl := (keeps_query (P := fun r₁ => r₁ = r) (·.fields i)).state rfl h
    exact Iff.rfl
  | layout i => exact absurd rfl (hop i)

theorem Operation.laidOut (h : op.after r = some r') (hx : r.LaidOut x l) : r'.LaidOut x l := by
  by_cases hop : ∃ id, op = .layout id
  · obtain ⟨id, rfl⟩ := hop
    exact (keeps_laidOut (r.size + 1) hx id).state (fun _ h => h) (fun _ _ h => h) h
  · exact (Operation.laidOut_iff (fun id heq => hop ⟨id, heq⟩) h).2 hx

theorem Leads.laidOut (h : r.Leads r') (hx : r.LaidOut x l) : r'.LaidOut x l := by
  induction h with
  | refl => exact hx
  | tail _ hop ih =>
    obtain ⟨op, -, hafter⟩ := hop
    exact op.laidOut hafter ih

/-! ## Types that are stored in place -/

/-- The types of the family are stored in place. -/
def InPlace (f : Family) : Prop :=
  f.style ≠ .object

/-- What is kept for types that are stored in place is what lowering without kept layouts
gives, at any time. -/
theorem Reachable.remembers (hr : r.Reachable) : Remembers InPlace r r := by
  induction hr with
  | refl =>
    intro id t f l hentry _ hkept
    have hnone : ∀ t ∈ initial.types, t.layout = none := by decide
    cases (hnone t (Array.mem_of_getElem? (entry_eq_ok_iff.1 hentry).1)).symm.trans hkept
  | @tail r₁ r₂ hr₁ hop ih =>
    obtain ⟨op, hgiven, hafter⟩ := hop
    have hr₁ := Reachable.evolved hr₁
    have hextends := (op.evolved hr₁ hgiven hafter).extends
    have hlayouts : Remembers InPlace r₁ r₂ := by
      by_cases hop : ∃ id, op = .layout id
      · obtain ⟨id, rfl⟩ := hop
        exact ih.layout (fun _ hplaced => hplaced) hr₁ hafter
      · refine ih.carried (fun f f' hf hplaced => ?_) hr₁ hextends fun hentry' _ hkept => ?_
        · rwa [InPlace, hf.style] at hplaced
        · exact (op.laidOut_iff (fun id heq => hop ⟨id, heq⟩) hafter).1
            ⟨_, (entry_eq_ok_iff.1 hentry').1, hkept⟩
    refine hlayouts.extends hr₁ hextends fun {x t' f' l} hentry' hplaced hkept => ?_
    obtain ⟨t, f, hentry, -⟩ := usable_of_plainWithin
      (hlayouts x t' f' l hentry' hplaced hkept (x + 1) (Nat.lt_succ_self x)
        fun hobject => absurd hobject hplaced)
    exact ⟨t, (entry_eq_ok_iff.1 hentry).1, fun hobject => absurd hobject hplaced⟩

/-- Lowering with kept layouts gives what lowering without them does, for a type that is stored
in place and for one that has no layout yet. -/
theorem Reachable.layout_plain (hr : r.Reachable) (hentry : r.entry id = .ok (t, f))
    (h : InPlace f ∨ t.layout = none) (hdepth : r.size < depth) :
    (layout id r).result? = (plainWithin depth id r).result? := by
  have hid := lt_size (entry_eq_ok_iff.1 hentry).1
  have hplain := plainWithin_extends hr.evolved (.refl r) hentry
    (fun _ t' ht' => by rw [Option.some.inj (ht'.symm.trans (entry_eq_ok_iff.1 hentry).1)])
    (Nat.lt_trans hid hdepth) (Nat.lt_succ_of_lt hid) fun _ => ⟨hdepth, Nat.lt_succ_self _⟩
  have halong := hr.remembers.alongside (fun _ hplaced => hplaced) hr.evolved hentry h
  rw [halong.result?_eq fun _ _ => same_iff.1, hplain.result?_eq fun _ _ => same_iff.1]

/-! ## Objects -/

/-- The registry differs in layouts only, and the type is as it was. -/
def Untouched (r : Registry) (x : TypeId) (r₁ : Registry) : Prop :=
  r₁.unlaid = r.unlaid ∧ r₁.types[x]? = r.types[x]?

/-- The members of any type are lowered without touching an object. -/
theorem keepsPlaced_object {layoutOf : TypeId → Register Layout} (hx : r.entry x = .ok (t, f))
    (hobject : f.style = .object)
    (h : ∀ {r₁ id}, r.Untouched x r₁ → id ≠ x →
      (keeping (r.Untouched x)).Meets r₁ (layoutOf id) fun _ _ => True) :
    KeepsPlaced (r.Untouched x) layoutOf := by
  intro r₁ id u g hr₁ hentry hstyle
  refine h hr₁ ?_
  rintro rfl
  obtain ⟨u₀, hentry₀, -⟩ := entry_of_unlaid hr₁.1 hentry
  obtain ⟨-, rfl⟩ := eq_of_entry hx hentry₀
  exact hstyle hobject

theorem keeps_layoutWithin_object {r₁ : Registry} (hx : r.entry x = .ok (t, f))
    (hobject : f.style = .object) (depth : Nat) (hr₁ : r.Untouched x r₁) (hne : id ≠ x) :
    (keeping (r.Untouched x)).Meets r₁ (layoutWithin depth id) fun _ _ => True := by
  induction depth generalizing r₁ id with
  | zero => exact Contract.meets_layoutWithin_zero trivial
  | succ depth ih =>
    refine keeps_layoutWithin_succ (keepsPlaced_object hx hobject ih) hr₁ ?_
    intro _ _ layout r₂ _ _ hr₂
    refine ⟨(r₂.unlaid_modifyType id (some layout)).trans hr₂.1, ?_⟩
    rw [types_modifyType, if_neg hne]
    exact hr₂.2

/-- A layout that is refused is not kept. -/
theorem Reachable.untouched_of_refused {e : DatatypeError} (hr : r.Reachable)
    (h : layout id r = .error e r') : r'.types[id]? = r.types[id]? ∧ ∀ l, ¬ r'.LaidOut id l := by
  cases hentry : r.entry id with
  | error fault =>
    rw [layout, layoutWithin, bind_apply, Action.read, hentry] at h
    cases h
  | ok entry =>
    obtain ⟨t, f⟩ := entry
    have ht := (entry_eq_ok_iff.1 hentry).1
    have hnone : t.layout = none := by
      cases hkept : t.layout with
      | none => rfl
      | some l =>
        rw [LaidOut.layout_eq ⟨t, ht, hkept⟩ hr.evolved.wellFormed] at h
        cases h
    have hunlaid : r'.unlaid = r.unlaid := unlaid_layout (by rw [h, state?_error])
    suffices hsame : r'.types[id]? = r.types[id]? from
      ⟨hsame, not_laidOut (hsame.trans ht) hnone⟩
    by_cases hobject : f.style = .object
    · have hkeeps : (layout id r).Meets (fun _ _ => True) fun _ => r.Untouched id := by
        rw [layout]
        obtain ⟨answer, husable⟩ := hr.evolved.exists_usable ht
        cases answer with
        | false =>
          rw [layoutWithin_unusable hentry hnone husable]
          exact ⟨rfl, rfl⟩
        | true =>
          rw [layoutWithin_usable hentry hnone husable]
          have hlower := keeps_lower (keepsPlaced_object hentry hobject
            (keeps_layoutWithin_object hentry hobject r.size)) ⟨rfl, rfl⟩ id t f
          exact meets_bind (hlower.outcome.mono (fun _ _ _ => trivial) fun _ _ h => h)
            fun _ _ _ => trivial
      rw [h] at hkeeps
      exact hkeeps.2
    · -- A layout that was kept would be that of lowering, which is refused as well.
      have hremembers := hr.remembers.layout (fun _ hplaced => hplaced) hr.evolved
        (by rw [h, state?_error])
      have hplain := hr.layout_plain hentry (.inl hobject) (Nat.lt_succ_self r.size)
      obtain ⟨t', hentry', heq⟩ := entry_of_unlaid hunlaid.symm hentry
      have ht' := (entry_eq_ok_iff.1 hentry').1
      have hnone' : t'.layout = none := by
        cases hkept : t'.layout with
        | none => rfl
        | some l =>
          rw [h, hremembers id t' f l hentry' hobject hkept _
            (Nat.lt_succ_of_lt (lt_size ht)) fun _ => Nat.lt_succ_self _] at hplain
          cases hplain
      rw [ht, heq, hnone, ← hnone', ht']

/-! ## Layouts over time -/

/-- Some sequence of operations leads from one registry to the other, in which the layout of the
type is not given: it is not asked for, or refused. -/
abbrev LeadsUnlaid (id : TypeId) : Registry → Registry → Prop :=
  Relation.ReflTransGen fun r r' => ∃ op : Operation, r.Has op.given ∧ op.after r = some r' ∧
    (op = .layout id → ∀ l, layout id r ≠ .ok l r')

theorem LeadsUnlaid.leads (h : LeadsUnlaid id r r') : r.Leads r' := by
  refine Relation.ReflTransGen.mono (fun r₁ r₂ hop => ?_) r r' h
  obtain ⟨op, hgiven, hafter, -⟩ := hop
  exact ⟨op, hgiven, hafter⟩

/-- As long as the layout of an object is not given, none is kept for it. -/
theorem LeadsUnlaid.layout_none (h : initial.LeadsUnlaid id r) (hentry : r.entry id = .ok (t, f))
    (hobject : f.style = .object) : t.layout = none := by
  induction h generalizing t f with
  | refl =>
    have hnone : ∀ t ∈ initial.types, t.layout = none := by decide
    exact hnone t (Array.mem_of_getElem? (entry_eq_ok_iff.1 hentry).1)
  | @tail r₁ r₂ hleads hop ih =>
    obtain ⟨op, hgiven, hafter, hrefused⟩ := hop
    have hr₁ : r₁.Reachable := LeadsUnlaid.leads hleads
    by_contra hkept
    obtain ⟨l, hkept⟩ := Option.ne_none_iff_exists'.1 hkept
    have hlaidOut : r₂.LaidOut id l := ⟨t, (entry_eq_ok_iff.1 hentry).1, hkept⟩
    -- Whatever kept it before, the object was the same.
    have hbefore : r₁.LaidOut id l → False := by
      rintro ⟨u, hu, hlayout⟩
      obtain ⟨v, g, hentry₁⟩ := hr₁.evolved.wellFormed.exists_entry (lt_size hu)
      obtain rfl := Option.some.inj (hu.symm.trans (entry_eq_ok_iff.1 hentry₁).1)
      obtain ⟨t', f', hentry', -, hf⟩ :=
        (op.evolved hr₁.evolved hgiven hafter).extends.entry hentry₁
      obtain ⟨-, rfl⟩ := eq_of_entry hentry hentry'
      cases (ih hentry₁ (hf.style.symm.trans hobject)).symm.trans hlayout
    by_cases hop : ∃ i, op = .layout i
    · obtain ⟨i, rfl⟩ := hop
      by_cases hi : i = id
      · subst hi
        rw [Operation.after] at hafter
        cases hrun : layout i r₁ with
        | ok l' r' =>
          rw [hrun] at hafter
          obtain rfl := Option.some.inj hafter
          exact hrefused rfl l' hrun
        | error e r' =>
          rw [hrun] at hafter
          obtain rfl := Option.some.inj hafter
          exact (hr₁.untouched_of_refused hrun).2 l hlaidOut
        | fault fault =>
          rw [hrun] at hafter
          cases hafter
      · obtain ⟨u, hentry₁, -⟩ := entry_of_unlaid (unlaid_layout hafter) hentry
        have huntouched := (keeps_layoutWithin_object hentry₁ hobject (r₁.size + 1) ⟨rfl, rfl⟩
          hi).state (fun _ h => h) (fun _ _ h => h) hafter
        rw [LaidOut, huntouched.2] at hlaidOut
        exact hbefore hlaidOut
    · exact hbefore ((op.laidOut_iff (fun i heq => hop ⟨i, heq⟩) hafter).1 hlaidOut)

/-- A field that is added to an object changes the layout of no other type that there is, and its
own only if that has not been given yet. -/
theorem Reachable.layout_fieldAdded {name : String} {ty : FieldTy} (hr : r.Reachable)
    (hty : r.Has (namedTypes ty)) (h : (addField x name ty r).state? = some r')
    (hid : id < r.size) (hx : id = x → ∃ l, r.LaidOut x l) :
    (layout id r').result? = (layout id r).result? := by
  have hr' : r'.Reachable := hr.tail ⟨.addField x name ty, hty, h⟩
  have hextends := ((Operation.addField x name ty).evolved hr.evolved hty h).extends
  obtain ⟨t, f, hentry⟩ := hr.evolved.wellFormed.exists_entry hid
  have ht := (entry_eq_ok_iff.1 hentry).1
  obtain ⟨t', f', hentry', -⟩ := hextends.entry hentry
  have ht' := (entry_eq_ok_iff.1 hentry').1
  cases hkept : t.layout with
  | some l =>
    have hlaidOut : r.LaidOut id l := ⟨t, ht, hkept⟩
    rw [hlaidOut.layout_eq hr.evolved.wellFormed,
      ((Operation.addField x name ty).laidOut h hlaidOut).layout_eq hr'.evolved.wellFormed]
    rfl
  | none =>
    have hne : id ≠ x := by
      intro heq
      obtain ⟨l, hlaidOut⟩ := hx heq
      exact not_laidOut ht hkept l (heq ▸ hlaidOut)
    have hsame : t' = t := by
      rcases addField_cases h with ⟨u, g, -, -, -, rfl⟩ | rfl
      · rw [types_modifyType, if_neg (Ne.symm hne)] at ht'
        exact Option.some.inj (ht'.symm.trans ht)
      · exact Option.some.inj (ht'.symm.trans ht)
    have hlt : r.size < max r.size r'.size + 1 := Nat.lt_succ_of_le (Nat.le_max_left _ _)
    have hplain := plainWithin_extends hr.evolved hextends hentry
      (fun _ u hu => by rw [Option.some.inj (hu.symm.trans ht'), hsame]) (Nat.lt_trans hid hlt)
      (Nat.lt_trans hid hlt) fun _ => ⟨hlt, hlt⟩
    rw [hr.layout_plain hentry (.inr hkept) hlt,
      hr'.layout_plain hentry' (.inr (hsame ▸ hkept)) (Nat.lt_succ_of_le (Nat.le_max_right _ _)),
      hplain.result?_eq fun _ _ => same_iff.1]

/-- Layouts last, and do not depend on the order in which they are asked for. A layout that was
given is given from then on, whatever else is called. The first one that is given for a type is
that of lowering without any kept layouts, and it is refused where that is, whatever other layouts
were given or refused before. A layout that is refused is not kept. A field that is added to an
object changes the layout of no other type that there is, and its own only if that has not been
given yet. -/
theorem layout_lasting (hr : r.Reachable) :
    (∀ id l r' r'', layout id r = .ok l r' → r'.Leads r'' → layout id r'' = .ok l r'') ∧
    (∀ id depth, initial.LeadsUnlaid id r → id < r.size → r.size < depth →
      ∃ result, (layout id r).result? = some result ∧
        (plainWithin depth id r).result? = some result) ∧
    (∀ id e r', layout id r = .error e r' →
      r'.types[id]? = r.types[id]? ∧ ∀ l, ¬ r'.LaidOut id l) ∧
    ∀ x name ty r', r.Has (namedTypes ty) → (addField x name ty r).state? = some r' →
      ∀ id < r.size, (id = x → ∃ l, r.LaidOut x l) →
        (layout id r').result? = (layout id r).result? := by
  refine ⟨fun id l r' r'' h hleads => ?_, fun id depth hunlaid hid hdepth => ?_, ?_, ?_⟩
  · have hr' := (evolves_layout hr.evolved.wellFormed id).evolved (by rw [h, state?_ok])
    have hr'' := hr'.trans (Leads.evolved hleads (hr.evolved.trans hr'))
    exact (Leads.laidOut hleads (laidOut_of_layout h)).layout_eq hr''.wellFormed
  · obtain ⟨t, f, hentry⟩ := hr.evolved.wellFormed.exists_entry hid
    obtain ⟨result, hresult⟩ := (returns_layout hr.evolved hid).exists_result
    have hnew : InPlace f ∨ t.layout = none := by
      by_cases hobject : f.style = .object
      · exact .inr (hunlaid.layout_none hentry hobject)
      · exact .inl hobject
    exact ⟨result, hresult, (hr.layout_plain hentry hnew hdepth).symm.trans hresult⟩
  · exact fun id e r' => hr.untouched_of_refused
  · exact fun x name ty r' hty h id hid hx => hr.layout_fieldAdded hty h hid hx

theorem leadsUnlaid_of_afterAll {ops : List Operation} (h : Operation.afterAll ops r = some r')
    (hops : ∀ op ∈ ops, op ≠ .layout id) : LeadsUnlaid id r r' :=
  reflTransGen_of_afterAll h fun _ hi _ _ _ hgiven hafter =>
    ⟨_, hgiven, hafter, fun heq => absurd heq (hops _ (List.get_mem _ ⟨_, hi⟩))⟩

def sketching : List Operation :=
  [.create "Point" none [], .tuple [Builtin.int, Builtin.double], .addField 12 "at" (.concrete 13),
   .createFloat "Half" 16, .tuple [13, 14], .layout 13, .layout 15]

/-- A point, 12, has a pair, 13, in place. The pair has been laid out; the layout of 15, a pair of
that pair and a number of 16 bits, has been refused. -/
def sketched : Registry :=
  Operation.build sketching

/-- The point is given a field after its layout, and 15 is asked for once more. -/
def redrawn : Registry :=
  ((layout 12 sketched).state?.bind (Operation.afterAll
    [.addField 12 "size" (.concrete Builtin.int), .layout 15])).getD initial

theorem layout_lasting_sketched :
    sketched.Reachable ∧ initial.LeadsUnlaid 12 sketched ∧
      (∃ l r', layout 12 sketched = .ok l r' ∧ (plainWithin 17 12 sketched).result? = some (.ok l) ∧
        r'.Leads redrawn ∧ layout 12 redrawn = .ok l redrawn) ∧
      (∃ e r', layout 15 sketched = .error e r' ∧ r'.types[15]? = sketched.types[15]?) ∧
      ∃ r', (addField 12 "size" (.concrete Builtin.int) sketched).state? = some r' ∧
        (layout 12 r').value? ≠ (layout 12 sketched).value? ∧
        (layout 13 r').result? = (layout 13 sketched).result? := by
  have hafter : Operation.afterAll sketching initial = some sketched := by decide +kernel
  have hunlaid : initial.LeadsUnlaid 12 sketched :=
    leadsUnlaid_of_afterAll hafter (by simp [sketching])
  have hr : sketched.Reachable := hunlaid.leads
  have hlasting := layout_lasting hr
  refine ⟨hr, hunlaid, ?_, ?_, ?_⟩
  · obtain ⟨l, r', hrun⟩ : ∃ l r', layout 12 sketched = .ok l r' := by
      have hreturned : (layout 12 sketched).value?.isSome = true := by decide +kernel
      obtain ⟨l, hl⟩ := Option.isSome_iff_exists.1 hreturned
      exact ⟨l, Outcome.exists_ok hl⟩
    have hredrawn : (layout 12 sketched).state?.bind (Operation.afterAll
        [.addField 12 "size" (.concrete Builtin.int), .layout 15]) = some redrawn := by
      decide +kernel
    rw [hrun, state?_ok, Option.bind_some] at hredrawn
    have hleads : r'.Leads redrawn := leads_of_afterAll hredrawn
    obtain ⟨result, hresult, hplain⟩ :=
      hlasting.2.1 12 17 hunlaid (by decide +kernel) (by decide +kernel)
    rw [hrun] at hresult
    obtain rfl := Option.some.inj hresult
    exact ⟨l, r', hrun, hplain, hleads, hlasting.1 12 l r' redrawn hrun hleads⟩
  · obtain ⟨e, r', hrun⟩ : ∃ e r', layout 15 sketched = .error e r' := by
      have hrefused : (layout 15 sketched).result? =
          some (.error (.invalidFloatWidth "Half" 16)) := by decide +kernel
      cases hrun : layout 15 sketched with
      | ok l r' =>
        rw [hrun] at hrefused
        cases hrefused
      | error e r' => exact ⟨e, r', rfl⟩
      | fault fault =>
        rw [hrun] at hrefused
        cases hrefused
    exact ⟨e, r', hrun, (hlasting.2.2.1 15 e r' hrun).1⟩
  · have hadded : (addField 12 "size" (.concrete Builtin.int) sketched).state?.isSome = true := by
      decide +kernel
    have hchanged : ∀ r' ∈ (addField 12 "size" (.concrete Builtin.int) sketched).state?,
        (layout 12 r').value? ≠ (layout 12 sketched).value? := by decide +kernel
    obtain ⟨r', hr'⟩ := Option.isSome_iff_exists.1 hadded
    refine ⟨r', hr', hchanged r' hr', ?_⟩
    exact hlasting.2.2.2 12 "size" _ r' (by decide +kernel) hr' 13 (by decide +kernel)
      fun heq => absurd heq (by decide)

end TypeLayer.Registry
