import TypeLayer.Proofs.Nominal.Fields

/-!
# Layouts without memory

A registry keeps the layouts that were worked out, and works out others with them.
`plainWithin` is lowering without that: it leaves the registry as it is, and depends on
nothing but the families, parameters and fields of types.

Both are compared with one walk (`alongside_lower`): two calls that lower types of the same
kind, with members that match, end in the same way.  It is used three times, here for a type
at two times (`plainWithin_extends`) and for lowering with and without kept layouts
(`alongside_layoutWithin`), and elsewhere for two types of one registry.
-/

namespace TypeLayer

/-! ## Names and references in layouts -/

def Word.relabel (type : TypeId → TypeId) : Word → Word
  | .ref id => .ref (type id)
  | .elements id => .elements (type id)
  | .header => .header
  | .supertype id => .supertype id
  | .length => .length
  | .capacity => .capacity

mutual
/-- The layout with other names for its records, and other types in its references. -/
def Layout.relabel (name : String → String) (type : TypeId → TypeId) : Layout → Layout
  | .int bits => .int bits
  | .float bits => .float bits
  | .pointer => .pointer
  | .record n slots => .record (name n) (Slot.relabelAll name type slots)
def Slot.relabel (name : String → String) (type : TypeId → TypeId) : Slot → Slot
  | .word n word => .word n (word.relabel type)
  | .inline n layout => .inline n (layout.relabel name type)
def Slot.relabelAll (name : String → String) (type : TypeId → TypeId) : List Slot → List Slot
  | [] => []
  | slot :: rest => slot.relabel name type :: Slot.relabelAll name type rest
end

/-- What is left of a layout without the names of records and the types that are referred
to: the kinds, the widths, the names of slots and how they nest. -/
def Layout.skeleton (l : Layout) : Layout :=
  l.relabel (fun _ => "") fun _ => 0

/-- To prove something of all layouts, prove it of slots and lists of slots as well. -/
theorem Layout.induction_on {motive : Layout → Prop} {S : Slot → Prop} {L : List Slot → Prop}
    (int : ∀ bits, motive (.int bits)) (float : ∀ bits, motive (.float bits))
    (pointer : motive .pointer) (record : ∀ name slots, L slots → motive (.record name slots))
    (word : ∀ name w, S (.word name w)) (inline : ∀ name l, motive l → S (.inline name l))
    (nil : L []) (cons : ∀ slot rest, S slot → L rest → L (slot :: rest)) (l : Layout) :
    motive l :=
  @Layout.rec motive S L int float pointer record word inline nil cons l

theorem Word.size_relabel (type : TypeId → TypeId) (w : Word) : (w.relabel type).size = w.size := by
  cases w <;> rfl

theorem Layout.bytes_relabel (name : String → String) (type : TypeId → TypeId) (l : Layout) :
    (l.relabel name type).bytes = l.bytes := by
  induction l using Layout.induction_on
    (S := fun slot => (slot.relabel name type).bytes = slot.bytes)
    (L := fun slots => Slot.bytesAll (Slot.relabelAll name type slots) = Slot.bytesAll slots) with
  | int bits => rfl
  | float bits => rfl
  | pointer => rfl
  | record n slots ih => rw [relabel, bytes, bytes, ih]
  | word n w => rw [Slot.relabel, Slot.bytes, Slot.bytes, w.size_relabel]
  | inline n l ih => rw [Slot.relabel, Slot.bytes, Slot.bytes, ih]
  | nil => rfl
  | cons slot rest ih ih' => rw [Slot.relabelAll, Slot.bytesAll, Slot.bytesAll, ih, ih']

theorem Layout.relabel_self (l : Layout) : l.relabel (fun n => n) (fun id => id) = l := by
  induction l using Layout.induction_on
    (S := fun slot => slot.relabel (fun n => n) (fun id => id) = slot)
    (L := fun slots => Slot.relabelAll (fun n => n) (fun id => id) slots = slots) with
  | int bits => rfl
  | float bits => rfl
  | pointer => rfl
  | record n slots ih => rw [relabel, ih]
  | word n w => cases w <;> rfl
  | inline n l ih => rw [Slot.relabel, ih]
  | nil => rfl
  | cons slot rest ih ih' => rw [Slot.relabelAll, ih, ih']

theorem Layout.bytes_eq_of_skeleton {l l' : Layout} (h : l.skeleton = l'.skeleton) :
    l.bytes = l'.bytes := by
  rw [← l.bytes_relabel (fun _ => "") fun _ => 0, ← l'.bytes_relabel (fun _ => "") fun _ => 0]
  exact congrArg Layout.bytes h

namespace Registry

open TypeLayer.Action TypeLayer.Outcome

variable {r r' r₁ s : Registry} {id id' : TypeId} {t t' : Datatype} {f f' : Family}

/-! ## Two walks side by side -/

section Walk

variable {S : Registry → Registry → Prop} {E : DatatypeError → DatatypeError → Prop}
  {name : String → String} {type : TypeId → TypeId} {M : TypeId → TypeId → Prop}
  {layoutOf layoutOf' : TypeId → Register Layout}

/-- The layouts are the same but for names and references. -/
def SameBut (name : String → String) (type : TypeId → TypeId) (l l' : Layout) : Prop :=
  l.relabel name type = l'.relabel name type

/-- The layouts are the same. -/
abbrev Same : Layout → Layout → Prop :=
  SameBut (fun n => n) fun id => id

theorem same_iff {l l' : Layout} : Same l l' ↔ l = l' := by
  rw [Same, SameBut, l.relabel_self, l'.relabel_self]

/-- Members that match have slots that match: they are both objects, or the layouts that they
have in place match. -/
def Pairs (S : Registry → Registry → Prop) (E : DatatypeError → DatatypeError → Prop)
    (name : String → String) (type : TypeId → TypeId)
    (layoutOf layoutOf' : TypeId → Register Layout) (M : TypeId → TypeId → Prop) : Prop :=
  ∀ (r s : Registry) (x y : TypeId), S r s → M x y → type x = type y ∧
    ∃ f g, r.family x = .ok f ∧ s.family y = .ok g ∧ g.style = f.style ∧ (f.style ≠ .object →
      Alongside S E (SameBut name type) (layoutOf x r) (layoutOf' y s))

/-- Two types of the same kind, whose members match. -/
structure Comparable (S : Registry → Registry → Prop) (E : DatatypeError → DatatypeError → Prop)
    (name : String → String) (M : TypeId → TypeId → Prop) (id id' : TypeId) (t t' : Datatype)
    (f f' : Family) : Prop where
  style : f'.style = f.style
  bits : f'.bits = f.bits
  supertype : f.style = .object → f'.supertype = f.supertype
  width : E (.invalidFloatWidth f.name f.bits) (.invalidFloatWidth f'.name f'.bits)
  shown : ∀ {r s : Registry}, S r s →
    ∃ n n', r.display id = .ok n ∧ s.display id' = .ok n' ∧ name n = name n'
  params : f.style = .tuple ∨ f.style = .slice → List.Forall₂ M t.params t'.params
  fields : f.style = .object → ∀ {r s : Registry}, S r s →
    (∃ made made', r.fields id = .ok made ∧ s.fields id' = .ok made' ∧
      List.Forall₂ (fun m m' => m.1 = m'.1 ∧ M m.2 m'.2) made made') ∨
    ∃ e e', r.fields id = Query.fail e ∧ s.fields id' = Query.fail e' ∧ E e e'

theorem Pairs.slotOf (h : Pairs S E name type layoutOf layoutOf' M) (hS : S r s)
    (hM : M id id') (n : String) :
    Alongside S E (fun slot slot' => slot.relabel name type = slot'.relabel name type)
      (slotOf layoutOf n id r) (slotOf layoutOf' n id' s) := by
  obtain ⟨htype, f, g, hf, hg, hstyle, hplaced⟩ := h r s id id' hS hM
  refine alongside_read_bind hf hg ?_
  by_cases hobject : f.style = .object
  · rw [if_pos hobject, if_pos (hstyle.trans hobject)]
    refine .ok ?_ hS
    rw [Slot.relabel, Slot.relabel, Word.relabel, Word.relabel, htype]
  · rw [if_neg hobject, if_neg (hstyle ▸ hobject)]
    refine alongside_bind (hplaced hobject) fun l l' r' s' hl hS' => .ok ?_ hS'
    rw [Slot.relabel, Slot.relabel, hl]

theorem Pairs.slotsOf (h : Pairs S E name type layoutOf layoutOf' M)
    {members members' : List (String × TypeId)}
    (hM : List.Forall₂ (fun m m' => m.1 = m'.1 ∧ M m.2 m'.2) members members') (hS : S r s) :
    Alongside S E
      (fun slots slots' => Slot.relabelAll name type slots = Slot.relabelAll name type slots')
      (slotsOf layoutOf members r) (slotsOf layoutOf' members' s) := by
  induction hM generalizing r s with
  | nil => exact .ok rfl hS
  | @cons m m' members members' hm _ ih =>
    rw [Registry.slotsOf, Registry.slotsOf, hm.1]
    refine alongside_bind (h.slotOf hS hm.2 _) fun slot slot' r' s' hslot hS' => ?_
    refine alongside_bind (ih hS') fun slots slots' r'' s'' hslots hS'' => .ok ?_ hS''
    rw [Slot.relabelAll, Slot.relabelAll, hslot, hslots]

/-- The parameters of a tuple are its members, under their numbers. -/
theorem forall₂_numbered {xs ys : List TypeId} (h : List.Forall₂ M xs ys) (n : Nat) :
    List.Forall₂ (fun m m' : String × TypeId => m.1 = m'.1 ∧ M m.2 m'.2)
      ((xs.zipIdx n).map fun m => (m.2.repr, m.1))
      ((ys.zipIdx n).map fun m => (m.2.repr, m.1)) := by
  induction h generalizing n with
  | nil => exact .nil
  | cons hxy _ ih => exact .cons ⟨rfl, hxy⟩ (ih (n + 1))

/-- Types of the same kind whose members match are lowered in the same way. -/
theorem alongside_lower (h : Pairs S E name type layoutOf layoutOf' M)
    (hc : Comparable S E name M id id' t t' f f') (hS : S r s) :
    Alongside S E (SameBut name type) (lower layoutOf id t f r) (lower layoutOf' id' t' f' s) := by
  -- A record is named last, whatever its slots.
  have hrecord : ∀ {r s : Registry} {slots slots' : List Slot}, S r s →
      Slot.relabelAll name type slots = Slot.relabelAll name type slots' →
      Alongside S E (SameBut name type)
        ((do let n ← Action.read (·.display id); return .record n slots : Register Layout) r)
        ((do let n ← Action.read (·.display id'); return .record n slots' : Register Layout)
          s) := by
    intro r s slots slots' hS hslots
    obtain ⟨n, n', hn, hn', hname⟩ := hc.shown hS
    refine alongside_read_bind hn hn' (.ok ?_ hS)
    rw [SameBut, Layout.relabel, Layout.relabel, hname, hslots]
  unfold lower
  rw [hc.style, hc.bits]
  cases hstyle : f.style with
  | integer | method | union => exact .ok rfl hS
  | floating =>
    dsimp only
    split
    · exact .ok rfl hS
    · have hwidth := hc.width
      rw [hc.bits] at hwidth
      exact .error hwidth hS
  | object =>
    rw [hc.supertype hstyle]
    rcases hc.fields hstyle hS with ⟨made, made', hmade, hmade', hmembers⟩ |
      ⟨e, e', he, he', hcause⟩
    · refine alongside_query_bind hmade hmade' ?_
      refine alongside_bind (h.slotsOf hmembers hS) fun slots slots' r' s' hslots hS' => ?_
      refine hrecord hS' ?_
      rw [Slot.relabelAll, Slot.relabelAll, Slot.relabelAll, Slot.relabelAll, hslots]
    · exact alongside_refused_bind he he' hcause hS
  | tuple =>
    refine alongside_bind (h.slotsOf (forall₂_numbered (hc.params (.inl hstyle)) 0) hS)
      fun slots slots' r' s' hslots hS' => hrecord hS' hslots
  | slice =>
    have hparams := hc.params (.inr hstyle)
    cases ht : t.params with
    | nil =>
      rw [ht, List.forall₂_nil_left_iff] at hparams
      rw [hparams]
      exact .fault _ _
    | cons element rest =>
      rw [ht] at hparams
      cases ht' : t'.params with
      | nil =>
        rw [ht'] at hparams
        cases hparams
      | cons element' rest' =>
        rw [ht', List.forall₂_cons] at hparams
        refine hrecord hS ?_
        simp [Slot.relabelAll, Slot.relabel, Word.relabel, (h r s element element' hS hparams.1).1]

end Walk

/-! ## Lowering without kept layouts -/

/-- The layout of a type, worked out without any that were kept. The registry stays as it
is. -/
def plainWithin : Nat → TypeId → Register Layout
  | 0, _ => fun _ => .fault .endless
  | depth + 1, id => do
    let (type, family) ← Action.read (·.entry id)
    if ← Action.read fun _ => usable type then
      lower (plainWithin depth) id type family
    else
      Action.fail (.unspecializedLowering family.name)

variable {depth depth' : Nat} {l : Layout}

theorem plainWithin_usable (hentry : r.entry id = .ok (t, f)) (husable : usable t = .ok true) :
    plainWithin (depth + 1) id r = lower (plainWithin depth) id t f r := by
  rw [plainWithin, bind_apply, Action.read, hentry]
  dsimp only
  rw [bind_apply, Action.read, husable]
  rfl

theorem plainWithin_unusable (hentry : r.entry id = .ok (t, f)) (husable : usable t = .ok false) :
    plainWithin (depth + 1) id r = .error (.unspecializedLowering f.name) r := by
  rw [plainWithin, bind_apply, Action.read, hentry]
  dsimp only
  rw [bind_apply, Action.read, husable]
  rfl

/-- Only a usable type can be lowered. -/
theorem usable_of_plainWithin (h : plainWithin depth id r = .ok l r') :
    ∃ t f, r.entry id = .ok (t, f) ∧ t.specialized = true := by
  cases depth with
  | zero => cases h
  | succ depth =>
    cases hentry : r.entry id with
    | error fault =>
      rw [plainWithin, bind_apply, Action.read, hentry] at h
      cases h
    | ok entry =>
      obtain ⟨t, f⟩ := entry
      refine ⟨t, f, rfl, ?_⟩
      by_contra hgeneric
      rw [plainWithin_unusable hentry (if_neg hgeneric)] at h
      cases h

theorem layoutWithin_kept (hentry : r.entry id = .ok (t, f)) (hkept : t.layout = some l) :
    layoutWithin (depth + 1) id r = .ok l r := by
  rw [layoutWithin, bind_apply, Action.read, hentry]
  dsimp only
  rw [hkept]
  rfl

theorem layoutWithin_usable (hentry : r.entry id = .ok (t, f)) (hnone : t.layout = none)
    (husable : usable t = .ok true) :
    layoutWithin (depth + 1) id r = (do
      let layout ← lower (layoutWithin depth) id t f
      Action.modify (·.modifyType id fun t => { t with layout := some layout })
      return layout : Register Layout) r := by
  rw [layoutWithin, bind_apply, Action.read, hentry]
  dsimp only
  rw [hnone]
  dsimp only
  rw [bind_apply, Action.read, husable]
  rfl

theorem layoutWithin_unusable (hentry : r.entry id = .ok (t, f)) (hnone : t.layout = none)
    (husable : usable t = .ok false) :
    layoutWithin (depth + 1) id r = .error (.unspecializedLowering f.name) r := by
  rw [layoutWithin, bind_apply, Action.read, hentry]
  dsimp only
  rw [hnone]
  dsimp only
  rw [bind_apply, Action.read, husable]
  rfl

/-! ## A type at two times -/

theorem usable_becomes (h : t.Becomes t') (ht : t.progress ≠ .building) :
    usable t' = usable t := by
  unfold usable
  rw [h.specialized, h.progress ht]

theorem Evolved.progress_ne_building (hr : initial.Evolved r) (ht : r.types[id]? = some t) :
    t.progress ≠ .building :=
  fun hbuilding => hr.not_building id ⟨t, ht, hbuilding⟩

/-- A type whose fields were not changed still has them. -/
theorem fields_becomes (hr : initial.Evolved r) (hentry : r.entry id = .ok (t, f))
    (hentry' : r'.entry id = .ok (t', f')) (ht : t.Becomes t') (hf : f.Becomes f')
    (hfields : t'.fields = t.fields) : r'.fields id = r.fields id := by
  unfold fields
  rw [hentry, hentry']
  simp only [Query.ofExcept, Except.mapError, bind, Except.bind, hf.name, hfields,
    usable_becomes ht (hr.progress_ne_building (entry_eq_ok_iff.1 hentry).1)]

/-- A member of a type that is lowered within the bound. -/
def Member (r : Registry) (bound : Nat) (x y : TypeId) : Prop :=
  x = y ∧ x < r.size ∧ x < bound

/-- A type can be compared with what it has become, if its fields are the same. -/
theorem comparable_of_extends {S : Registry → Registry → Prop} (hr : initial.Evolved r)
    (hentry : r.entry id = .ok (t, f)) (ht : t.Becomes t') (hf : f.Becomes f')
    (hS : ∀ {r₁ s : Registry}, S r₁ s → s = r ∧ r.Extends r₁ ∧ (f.style = .object →
      ∀ t₁, r₁.types[id]? = some t₁ → t₁.fields = t.fields))
    (hid : id < depth + 1) (hobject : f.style = .object → r.size < depth + 1) :
    Comparable S Eq (fun n => n) (r.Member depth) id id t' t f' f where
  style := hf.style.symm
  bits := hf.bits.symm
  supertype _ := hf.supertype.symm
  width := by rw [hf.name, hf.bits]
  shown {r₁ s} hrs := by
    obtain ⟨rfl, hextends, -⟩ := hS hrs
    have hlt := lt_size (entry_eq_ok_iff.1 hentry).1
    obtain ⟨n, hn⟩ := exists_display hr hlt
    exact ⟨n, n, (hextends.display_eq hr hlt).trans hn, hn, rfl⟩
  params _ := by
    have ht₀ := (entry_eq_ok_iff.1 hentry).1
    rw [ht.params, List.forall₂_same]
    intro p hp
    have hlt := hr.wellFormed.params_older ht₀ p hp
    exact ⟨rfl, Nat.lt_trans hlt (lt_size ht₀), Nat.lt_of_lt_of_le hlt (Nat.le_of_lt_succ hid)⟩
  fields hstyle := by
    intro r₁ s hrs
    obtain ⟨rfl, hextends, hfields⟩ := hS hrs
    rw [hf.style] at hstyle
    obtain ⟨t₁, f₁, hentry₁, ht₁, hf₁⟩ := hextends.entry hentry
    have heq := fields_becomes hr hentry hentry₁ ht₁ hf₁
      (hfields hstyle t₁ (entry_eq_ok_iff.1 hentry₁).1)
    rcases fields_cases hr hentry with ⟨made, hmade, hconcrete⟩ | ⟨e, he⟩
    · refine .inl ⟨made, made, heq.trans hmade, hmade,
        List.forall₂_same.2 fun m hm => ⟨rfl, rfl, ?_⟩⟩
      have hlt := hr.wellFormed.lt_size_of_made (entry_eq_ok_iff.1 hentry).1 hconcrete hm
      exact ⟨hlt, Nat.lt_of_lt_of_le hlt (Nat.le_of_lt_succ (hobject hstyle))⟩
    · exact .inr ⟨e, e, heq.trans he, he, rfl⟩

/-- Members are what they were, and those in place are lowered as they were. -/
theorem pairs_of_extends {S : Registry → Registry → Prop}
    {layoutOf layoutOf' : TypeId → Register Layout} (hr : initial.Evolved r)
    (hS : ∀ {r₁ s : Registry}, S r₁ s → s = r ∧ r.Extends r₁)
    (hlayout : ∀ {r₁ : Registry} {x : TypeId} {u : Datatype} {g : Family}, S r₁ r →
      r.entry x = .ok (u, g) → g.style ≠ .object → x < depth →
        Alongside S Eq Same (layoutOf x r₁) (layoutOf' x r)) :
    Pairs S Eq (fun n => n) (fun id => id) layoutOf layoutOf' (r.Member depth) := by
  rintro r₁ s x y hrs ⟨rfl, hlt, hbound⟩
  obtain ⟨rfl, hextends⟩ := hS hrs
  obtain ⟨u, g, hentry⟩ := hr.wellFormed.exists_entry hlt
  obtain ⟨u₁, g₁, hentry₁, -, hg⟩ := hextends.entry hentry
  refine ⟨rfl, g₁, g, family_eq_ok_iff.2 ⟨u₁, hentry₁⟩, family_eq_ok_iff.2 ⟨u, hentry⟩,
    hg.style.symm, fun hstyle => ?_⟩
  exact hlayout hrs hentry (hg.style ▸ hstyle) hbound

/-- Two calls that leave their registries as they are. -/
def Unmoved (r s r₁ s₁ : Registry) : Prop :=
  r₁ = r ∧ s₁ = s

/-- A type whose fields were not changed is lowered as it was, whatever was added to the
registry, and with any bound that suffices. -/
theorem plainWithin_extends (hr : initial.Evolved r) (hextends : r.Extends r')
    (hentry : r.entry id = .ok (t, f))
    (hfields : f.style = .object → ∀ t', r'.types[id]? = some t' → t'.fields = t.fields)
    (hid : id < depth) (hid' : id < depth')
    (hobject : f.style = .object → r.size < depth ∧ r.size < depth') :
    Alongside (Unmoved r' r) Eq Same (plainWithin depth id r') (plainWithin depth' id r) := by
  induction depth generalizing depth' id t f with
  | zero => exact absurd hid (Nat.not_lt_zero _)
  | succ depth ih =>
    cases depth' with
    | zero => exact absurd hid' (Nat.not_lt_zero _)
    | succ depth' =>
      obtain ⟨t', f', hentry', ht, hf⟩ := hextends.entry hentry
      have ht₀ := (entry_eq_ok_iff.1 hentry).1
      have husable := usable_becomes ht (hr.progress_ne_building ht₀)
      obtain ⟨answer, hanswer⟩ := hr.exists_usable ht₀
      rw [hanswer] at husable
      cases answer with
      | false =>
        rw [plainWithin_unusable hentry' husable, plainWithin_unusable hentry hanswer, hf.name]
        exact .error rfl ⟨rfl, rfl⟩
      | true =>
        rw [plainWithin_usable hentry' husable, plainWithin_usable hentry hanswer]
        refine alongside_lower (M := r.Member (min depth depth'))
          (pairs_of_extends hr (fun h => ⟨h.2, h.1 ▸ hextends⟩) ?_)
          (comparable_of_extends hr hentry ht hf ?_ ?_ ?_) ⟨rfl, rfl⟩
        · intro r₁ x u g hrs hx hstyle hbound
          rw [hrs.1]
          rw [Nat.lt_min] at hbound
          exact ih hx (fun hobject => absurd hobject hstyle) hbound.1 hbound.2
            fun hobject => absurd hobject hstyle
        · rintro r₁ s ⟨rfl, rfl⟩
          exact ⟨rfl, hextends, hfields⟩
        · exact Nat.lt_succ_of_le (Nat.le_min.2 ⟨Nat.le_of_lt_succ hid, Nat.le_of_lt_succ hid'⟩)
        · intro hstyle
          have := hobject hstyle
          omega

theorem plainWithin_eq_of_extends (hr : initial.Evolved r) (hextends : r.Extends r')
    (hentry : r.entry id = .ok (t, f))
    (hfields : f.style = .object → ∀ t', r'.types[id]? = some t' → t'.fields = t.fields)
    (hid : id < depth) (hid' : id < depth')
    (hobject : f.style = .object → r.size < depth ∧ r.size < depth')
    (h : plainWithin depth' id r = .ok l r) : plainWithin depth id r' = .ok l r' := by
  have halong := plainWithin_extends hr hextends hentry hfields hid hid' hobject
  rw [h] at halong
  generalize plainWithin depth id r' = o at halong
  cases halong with
  | ok hl hstate => rw [same_iff.1 hl, hstate.1]

/-! ## Kept layouts -/

section Kept

variable {D : Family → Prop}

/-- The layouts that the second registry keeps for types of certain families are those that
lowering in the first one gives. -/
def Remembers (D : Family → Prop) (r r' : Registry) : Prop :=
  ∀ (id : TypeId) (t : Datatype) (f : Family) (l : Layout), r'.entry id = .ok (t, f) → D f →
    t.layout = some l → ∀ depth, id < depth → (f.style = .object → r.size < depth) →
      plainWithin depth id r = .ok l r

/-- The first registry is the second one with more layouts, which are remembered rightly. -/
def Mirrors (D : Family → Prop) (r r₁ s : Registry) : Prop :=
  s = r ∧ r₁.unlaid = r.unlaid ∧ Remembers D r r₁

/-- A layout that lowering gives can be kept. -/
theorem Mirrors.keep (h : Mirrors D r r₁ r) (hr : initial.Evolved r)
    (hentry : r.entry id = .ok (t, f)) (hid : id < depth)
    (hobject : f.style = .object → r.size < depth) (hl : plainWithin depth id r = .ok l r) :
    Mirrors D r (r₁.modifyType id fun t => { t with layout := some l }) r := by
  refine ⟨rfl, (r₁.unlaid_modifyType id (some l)).trans h.2.1, ?_⟩
  intro x u g l' hx hg hkept depth' hdepth hsize
  obtain ⟨hu, hfamily⟩ := entry_eq_ok_iff.1 hx
  rcases type_of_modifyType hu with ⟨-, hu⟩ | ⟨rfl, v, hv, rfl⟩
  · exact h.2.2 x u g l' (entry_eq_ok_iff.2 ⟨hu, hfamily⟩) hg hkept depth' hdepth hsize
  · obtain rfl := Option.some.inj hkept
    obtain ⟨u, hentry', -⟩ := entry_of_unlaid h.2.1 (entry_eq_ok_iff.2 ⟨hv, hfamily⟩)
    obtain ⟨rfl, rfl⟩ := eq_of_entry hentry hentry'
    refine plainWithin_eq_of_extends hr (.refl r) hentry (fun _ t' ht' => ?_) hdepth hid
      (fun hstyle => ⟨hsize hstyle, hobject hstyle⟩) hl
    exact congrArg Datatype.fields (Option.some.inj (ht'.symm.trans (entry_eq_ok_iff.1 hentry).1))

/-- Lowering with kept layouts gives what lowering without them does, and keeps what it
gives. The induction is on the nesting of members in place. -/
theorem alongside_layoutWithin (hD : ∀ f : Family, f.style ≠ .object → D f)
    (hr : initial.Evolved r) (hS : Mirrors D r r₁ r) (hentry : r₁.entry id = .ok (t, f))
    (hf : D f ∨ t.layout = none) (hid : id < depth) (hobject : f.style = .object → r.size < depth) :
    Alongside (Mirrors D r) Eq Same (layoutWithin depth id r₁) (plainWithin depth id r) := by
  induction depth generalizing r₁ id t f with
  | zero => exact absurd hid (Nat.not_lt_zero _)
  | succ depth ih =>
    cases hkept : t.layout with
    | some l =>
      have hf := hf.resolve_right (by rw [hkept]; simp)
      rw [layoutWithin_kept hentry hkept, hS.2.2 id t f l hentry hf hkept _ hid hobject]
      exact .ok rfl hS
    | none =>
      obtain ⟨t₀, hentry₀, heq⟩ := entry_of_unlaid hS.2.1 hentry
      have ht : t₀.Becomes t := by
        rw [heq]
        exact ⟨rfl, rfl, rfl, fun _ => rfl⟩
      have ht₀ := (entry_eq_ok_iff.1 hentry₀).1
      have husable := usable_becomes ht (hr.progress_ne_building ht₀)
      obtain ⟨answer, hanswer⟩ := hr.exists_usable ht₀
      rw [hanswer] at husable
      cases answer with
      | false =>
        rw [layoutWithin_unusable hentry hkept husable, plainWithin_unusable hentry₀ hanswer]
        exact .error rfl hS
      | true =>
        have hlower : Alongside (Mirrors D r) Eq Same (lower (layoutWithin depth) id t f r₁)
            (lower (plainWithin depth) id t₀ f r) := by
          refine alongside_lower (M := r.Member depth)
            (pairs_of_extends hr (fun h => ⟨h.1, extends_of_unlaid h.2.1⟩) ?_)
            (comparable_of_extends hr hentry₀ ht (.refl f) ?_ hid hobject) hS
          · intro r₂ x u g hr₂ hx hstyle hbound
            obtain ⟨u₂, hx₂, -⟩ := entry_of_unlaid hr₂.2.1.symm hx
            exact ih hr₂ hx₂ (.inl (hD g hstyle)) hbound fun hobject => absurd hobject hstyle
          · rintro r₂ s ⟨rfl, hunlaid, -⟩
            refine ⟨rfl, extends_of_unlaid hunlaid, fun _ t₂ ht₂ => ?_⟩
            obtain ⟨t₁, ht₁, hfields, -⟩ := type_of_unlaid hunlaid ht₂
            rw [hfields, Option.some.inj (ht₁.symm.trans ht₀)]
        have hplain : plainWithin (depth + 1) id r = _ := plainWithin_usable hentry₀ hanswer
        rw [layoutWithin_usable hentry hkept husable, hplain, bind_apply]
        generalize lower (layoutWithin depth) id t f r₁ = o,
          lower (plainWithin depth) id t₀ f r = o' at hlower hplain
        cases hlower with
        | @ok l l' r₂ s hl hr₂ =>
          obtain rfl := hr₂.1
          obtain rfl := same_iff.1 hl
          exact .ok rfl (hr₂.keep hr hentry₀ hid hobject hplain)
        | error hcause hr₂ => exact .error hcause hr₂
        | fault fault fault' => exact .fault fault fault'

theorem Remembers.alongside (h : Remembers D r r) (hD : ∀ f : Family, f.style ≠ .object → D f)
    (hr : initial.Evolved r) (hentry : r.entry id = .ok (t, f)) (hf : D f ∨ t.layout = none) :
    Alongside (Mirrors D r) Eq Same (layout id r) (plainWithin (r.size + 1) id r) :=
  alongside_layoutWithin hD hr ⟨rfl, rfl, h⟩ hentry hf
    (Nat.lt_succ_of_lt (lt_size (entry_eq_ok_iff.1 hentry).1)) fun _ => Nat.lt_succ_self _

/-- Working out a layout adds no wrong ones. -/
theorem Remembers.layout (h : Remembers D r r) (hD : ∀ f : Family, f.style ≠ .object → D f)
    (hr : initial.Evolved r) (hrun : (Registry.layout id r).state? = some r') :
    Remembers D r r' := by
  cases hentry : r.entry id with
  | error fault =>
    rw [Registry.layout, layoutWithin, bind_apply, Action.read, hentry] at hrun
    cases hrun
  | ok entry =>
    obtain ⟨t, f⟩ := entry
    cases hkept : t.layout with
    | some l =>
      rw [Registry.layout, layoutWithin_kept hentry hkept] at hrun
      obtain rfl := Option.some.inj hrun
      exact h
    | none =>
      have halong := h.alongside hD hr hentry (.inr hkept)
      generalize plainWithin (r.size + 1) id r = o, Registry.layout id r = o' at halong hrun
      cases halong with
      | ok _ hr₁ =>
        obtain rfl := Option.some.inj hrun
        exact hr₁.2.2
      | error _ hr₁ =>
        obtain rfl := Option.some.inj hrun
        exact hr₁.2.2
      | fault => cases hrun

/-- What was kept before is remembered, as long as no layout is added. -/
theorem Remembers.carried (h : Remembers D r r) (hD : ∀ f f' : Family, f.Becomes f' → D f' → D f)
    (hr : initial.Evolved r) (hextends : r.Extends r')
    (hold : ∀ {x : TypeId} {t' : Datatype} {f' : Family} {l : Layout}, r'.entry x = .ok (t', f') →
      D f' → t'.layout = some l → ∃ t, r.types[x]? = some t ∧ t.layout = some l) :
    Remembers D r r' := by
  intro x t' f' l hentry' hf' hkept depth hdepth hsize
  obtain ⟨t, ht, hlayout⟩ := hold hentry' hf' hkept
  obtain ⟨t₀, f, hentry⟩ := hr.wellFormed.exists_entry (lt_size ht)
  obtain rfl := Option.some.inj (ht.symm.trans (entry_eq_ok_iff.1 hentry).1)
  obtain ⟨t₁, f₁, hentry₁, -, hf⟩ := hextends.entry hentry
  obtain ⟨rfl, rfl⟩ := eq_of_entry hentry' hentry₁
  exact h x t f l hentry (hD f f' hf hf') hlayout depth hdepth
    fun hstyle => hsize (hf.style.trans hstyle)

/-- What is remembered rightly stays right, as long as the fields of objects that have a
layout do not change. -/
theorem Remembers.extends (h : Remembers D r r') (hr : initial.Evolved r)
    (hextends : r.Extends r')
    (hold : ∀ {x : TypeId} {t' : Datatype} {f' : Family} {l : Layout}, r'.entry x = .ok (t', f') →
      D f' → t'.layout = some l → ∃ t, r.types[x]? = some t ∧
        (f'.style = .object → t'.fields = t.fields)) : Remembers D r' r' := by
  intro x t' f' l hentry' hf' hkept depth hdepth hsize
  obtain ⟨t, ht, hfields⟩ := hold hentry' hf' hkept
  obtain ⟨t₀, f, hentry⟩ := hr.wellFormed.exists_entry (lt_size ht)
  obtain rfl := Option.some.inj (ht.symm.trans (entry_eq_ok_iff.1 hentry).1)
  obtain ⟨t₁, f₁, hentry₁, -, hf⟩ := hextends.entry hentry
  obtain ⟨rfl, rfl⟩ := eq_of_entry hentry' hentry₁
  have hle : r.size ≤ r'.size := Nat.le_of_not_lt fun h => Nat.lt_irrefl _ (hextends.lt_size h)
  refine plainWithin_eq_of_extends hr hextends hentry ?_ hdepth
    (Nat.lt_of_lt_of_le (lt_size ht) (Nat.le_succ r.size)) ?_
    (h x t' f' l hentry' hf' hkept (r.size + 1) (Nat.lt_succ_of_lt (lt_size ht))
      fun _ => Nat.lt_succ_self _)
  · intro hstyle t₂ ht₂
    obtain rfl := Option.some.inj ((entry_eq_ok_iff.1 hentry').1.symm.trans ht₂)
    exact hfields (hf.style.trans hstyle)
  · intro hstyle
    exact ⟨Nat.lt_of_le_of_lt hle (hsize (hf.style.trans hstyle)), Nat.lt_succ_self _⟩

end Kept

end Registry

end TypeLayer
