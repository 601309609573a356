import TypeLayer.Proofs.Nominal.Arena
import TypeLayer.Proofs.Nominal.Declared

/-!
# Fields of usable types

The fields of a type can be asked for if their types are all concrete.  An instance has
them filled in when it is built.  A field that is added to a usable type later is kept as
it was declared, and nothing fills it in: if it is an application, then the type has no
concrete fields from then on, and no layout either, unless that was worked out before.

That is the only way.  A field that is added to a usable type cannot name a parameter, since
it would not be accepted (`concrete_of_accepted`), and if no usable type is ever given an
application, then none has one (`LeadsPromptly.filled`).
-/

namespace TypeLayer

def FieldTy.isApplication : FieldTy → Bool
  | .apply _ _ => true
  | .concrete _ | .param _ => false

namespace Registry

open TypeLayer.Action TypeLayer.Outcome

variable {α β : Type} {r r' : Registry} {id : TypeId} {t : Datatype} {f : Family}

/-! ## Fields -/

theorem concreteFields?_eq_some_iff {fields : List Field} {made : List (String × TypeId)} :
    concreteFields? fields = some made ↔ fields = made.map fun m => ⟨m.1, .concrete m.2⟩ := by
  induction fields generalizing made with
  | nil => cases made <;> simp [concreteFields?]
  | cons field rest ih =>
    obtain ⟨name, ty⟩ := field
    cases ty with
    | concrete id =>
      rw [concreteFields?, Option.map_eq_some_iff]
      constructor
      · rintro ⟨made', hmade', rfl⟩
        rw [ih.1 hmade', List.map_cons]
      · intro h
        cases made with
        | nil => cases h
        | cons m made' =>
          obtain ⟨hfield, hrest⟩ := List.cons.inj h
          cases hfield
          exact ⟨made', ih.2 hrest, rfl⟩
    | param | apply => cases made <;> simp [concreteFields?]

/-- Fields whose types are concrete are all there. -/
theorem exists_concreteFields {fields : List Field}
    (h : ∀ field ∈ fields, ∃ id, field.ty = .concrete id) :
    ∃ made, concreteFields? fields = some made := by
  induction fields with
  | nil => exact ⟨[], rfl⟩
  | cons field rest ih =>
    rw [List.forall_mem_cons] at h
    obtain ⟨⟨id, hid⟩, hrest⟩ := h
    obtain ⟨made, hmade⟩ := ih hrest
    obtain ⟨name, ty⟩ := field
    cases hid
    exact ⟨(name, id) :: made, by rw [concreteFields?, hmade, Option.map_some]⟩

/-- The type of a field that was accepted on a usable type. -/
theorem concrete_of_accepted {ty : FieldTy} (h : r.checkFieldTy t f ty = .ok ())
    (hspecialized : t.specialized = true) (hty : ty.isApplication = false) :
    ∃ id, ty = .concrete id := by
  cases ty with
  | concrete id => exact ⟨id, rfl⟩
  | param name =>
    have hgeneric := (checkFieldTy_param_iff.1 h).1
    rw [hspecialized] at hgeneric
    cases hgeneric
  | apply => cases hty

theorem fields_eq_of_usable (hr : initial.Evolved r) (hentry : r.entry id = .ok (t, f))
    (hspecialized : t.specialized = true) (hkept : ¬ r.Withdrawn id) :
    r.fields id =
      (concreteFields? t.fields).elim (Query.fail (.unspecializedFields f.name)) Except.ok := by
  have ht := (entry_eq_ok_iff.1 hentry).1
  have husable : usable t = .ok true := by
    rw [usable, if_pos hspecialized]
    cases hprogress : t.progress with
    | building => exact absurd ⟨t, ht, hprogress⟩ (hr.not_building id)
    | ready => rfl
    | failed => exact absurd ⟨t, ht, hprogress⟩ hkept
  unfold fields
  rw [hentry]
  simp only [Query.ofExcept, Except.mapError, bind, Except.bind, husable]
  cases concreteFields? t.fields <;> rfl

/-! ## Layouts

Only an object asks for its fields when it is lowered, and members that are objects are
references.  So the one type whose fields can stand in the way of a layout is the type
itself. -/

/-- Calls are not refused for want of concrete fields, unless that is excused. -/
def sparing (excused : DatatypeError → Prop) : Contract where
  relies _ := True
  moves _ _ := True
  refuses _ e _ := (∀ name, e ≠ .unspecializedFields name) ∨ excused e
  faults _ := True
  refl _ := trivial
  trans _ _ := trivial
  relies_of_moves _ _ := trivial
  refuses_of_moves _ h := h

section Layouts

variable {excused : DatatypeError → Prop}

/-- The way to get layouts is not refused for want of concrete fields, where it is asked for the
layouts of members in place. -/
def SparesPlaced (excused : DatatypeError → Prop) (layoutOf : TypeId → Register Layout) : Prop :=
  ∀ (r : Registry) (id : TypeId) (t : Datatype) (f : Family), r.entry id = .ok (t, f) →
    f.style ≠ .object → (sparing excused).Meets r (layoutOf id) fun _ _ => True

theorem SparesPlaced.lowers {layoutOf : TypeId → Register Layout}
    (hlayout : SparesPlaced excused layoutOf)
    (hfields : f.style = .object → ∀ e, r.fields id = Query.fail e → excused e) :
    (sparing excused).Lowers layoutOf r id t f (fun _ _ => True) fun _ _ => True where
  relies := trivial
  start := trivial
  member {r' before after m} _ _ _ := by
    refine Contract.meets_slotOf trivial (fun _ _ => trivial) (fun _ _ _ => ⟨trivial, trivial⟩) ?_
    intro f hf hstyle
    obtain ⟨t, hentry⟩ := family_eq_ok_iff.1 hf
    exact (hlayout r' m.2 t f hentry hstyle).mono fun _ _ _ _ => ⟨trivial, trivial⟩
  refused hstyle he := .inr (hfields hstyle _ he)
  unanswered _ _ := trivial
  width _ _ := .inl fun _ heq => by cases heq
  missing _ _ := trivial
  unnamed _ _ := trivial

theorem spares_layoutWithin_succ {depth : Nat} (hlayout : SparesPlaced excused (layoutWithin depth))
    (hfields : ∀ t f, r.entry id = .ok (t, f) → f.style = .object →
      ∀ e, r.fields id = Query.fail e → excused e) :
    (sparing excused).Meets r (layoutWithin (depth + 1) id) fun _ _ => True := by
  refine Contract.meets_layoutWithin_succ trivial (fun _ _ => trivial) (fun _ _ _ _ _ => trivial)
    (fun _ _ _ _ _ => trivial) (fun _ _ _ _ => .inl fun _ heq => by cases heq) ?_
  intro t f hentry _ _
  exact (Contract.meets_lower (hlayout.lowers (hfields t f hentry))).mono
    fun _ _ _ _ => ⟨trivial, trivial⟩

theorem sparesPlaced_layoutWithin (depth : Nat) : SparesPlaced excused (layoutWithin depth) := by
  induction depth with
  | zero =>
    intro r id t f _ _
    exact Contract.meets_layoutWithin_zero trivial
  | succ depth ih =>
    intro r id t f hentry hstyle
    refine spares_layoutWithin_succ ih fun t' f' hentry' hobject => ?_
    obtain ⟨-, rfl⟩ := eq_of_entry hentry hentry'
    exact absurd hobject hstyle

end Layouts

/-- A layout is refused for want of concrete fields only where the fields are refused. -/
theorem fields_of_layout_refused {name : String}
    (h : layout id r = .error (.unspecializedFields name) r') :
    r.fields id = Query.fail (.unspecializedFields name) := by
  have hspares : (sparing fun e => r.fields id = Query.fail e).Meets r
      (layoutWithin (r.size + 1) id) fun _ _ => True :=
    spares_layoutWithin_succ (sparesPlaced_layoutWithin r.size) fun _ _ _ _ _ he => he
  exact (hspares.error h).resolve_left fun hne => hne name rfl

/-! ## How applications get into usable types -/

/-- The operation gives a usable type a field that is an application. -/
def Operation.belated (r : Registry) : Operation → Bool
  | .addField id _ ty => ty.isApplication && r.types[id]?.any Datatype.specialized
  | _ => false

/-- Some sequence of operations leads from one registry to the other, in which no usable
type is given an application. -/
abbrev LeadsPromptly : Registry → Registry → Prop :=
  Relation.ReflTransGen fun r r' =>
    ∃ op : Operation, r.Has op.given ∧ op.belated r = false ∧ op.after r = some r'

/-- No field of a usable type is an application. -/
def Filled (r : Registry) : Prop :=
  ∀ {id : TypeId} {t : Datatype}, r.types[id]? = some t → t.specialized = true →
    ∀ field ∈ t.fields, field.ty.isApplication = false

theorem Operation.filled {op : Operation} (h : op.after r = some r')
    (hprompt : op.belated r = false) (hr : r.Filled) : r'.Filled := by
  intro i t' ht' hspecialized field hfield
  rcases op.after_cases h with ⟨d, -, rfl⟩ | ⟨id, name, ty, t, f, rfl, hentry, -, -, rfl⟩ |
    hgrown | hunlaid
  · replace ht' := (Array.getElem?_push ▸ ht' :)
    split at ht'
    · cases ht'
      cases hfield
    · exact hr ht' hspecialized field hfield
  · rcases type_of_modifyType ht' with ⟨-, ht⟩ | ⟨rfl, t, ht, rfl⟩
    · exact hr ht hspecialized field hfield
    · rcases mem_putField hfield with rfl | hfield
      · have hsome : r.types[i]?.any Datatype.specialized = true := by
          rw [ht]
          exact hspecialized
        rw [Operation.belated, hsome, Bool.and_true] at hprompt
        exact hprompt
      · exact hr ht hspecialized field hfield
  · by_cases hlt : i < r.size
    · exact hr ((hgrown.kept hlt).symm.trans ht') hspecialized field hfield
    · obtain ⟨id, hty, -⟩ := (hgrown.made (Nat.le_of_not_lt hlt) ht').fields field hfield
      rw [hty]
      rfl
  · obtain ⟨t, ht, hfields, hspecialized', -⟩ := type_of_unlaid hunlaid ht'
    rw [hfields] at hfield
    exact hr ht (hspecialized' ▸ hspecialized) field hfield

theorem LeadsPromptly.filled (h : r.LeadsPromptly r') (hr : r.Filled) : r'.Filled := by
  induction h with
  | refl => exact hr
  | tail _ hop ih =>
    obtain ⟨op, -, hprompt, hafter⟩ := hop
    exact op.filled hafter hprompt ih

theorem filled_initial : initial.Filled := by
  intro id t ht _ field hfield
  have hempty : ∀ t ∈ initial.types, t.fields = [] := by decide
  rw [hempty t (Array.mem_of_getElem? ht)] at hfield
  cases hfield

theorem leadsPromptly_of_afterAll {ops : List Operation}
    (h : Operation.afterAll ops r = some r')
    (hops : ∀ i, (hi : i < ops.length) → ∀ r₁ ∈ Operation.afterAll (ops.take i) r,
      (ops.get ⟨i, hi⟩).belated r₁ = false) : r.LeadsPromptly r' :=
  reflTransGen_of_afterAll h fun i hi r₁ hr₁ _ hgiven hafter =>
    ⟨_, hgiven, hops i hi r₁ hr₁, hafter⟩

/-! ## The fields of usable types -/

/-- Whatever calls were made, a usable type has concrete fields, under the names and with
the types it was given, unless one of them is an application; and then it is an application
that was added when the type could be used already.  Nothing else stands in the way of
its fields, or for that matter of its layout. -/
theorem fields_concrete (hr : r.Reachable) (hentry : r.entry id = .ok (t, f))
    (hspecialized : t.specialized = true) (hkept : ¬ r.Withdrawn id) :
    ((∀ field ∈ t.fields, field.ty.isApplication = false) ↔
      ∃ made, r.fields id = .ok made ∧ made.map Prod.fst = t.fields.map Field.name ∧
        made.map (FieldTy.concrete ∘ Prod.snd) = t.fields.map Field.ty) ∧
    ((∀ field ∈ t.fields, field.ty.isApplication = false) → ∀ name r',
      layout id r ≠ .error (.unspecializedFields name) r') ∧
    (initial.LeadsPromptly r → ∀ field ∈ t.fields, field.ty.isApplication = false) := by
  have hr := hr.evolved
  have hfields := fields_eq_of_usable hr hentry hspecialized hkept
  have hconcrete : (∀ field ∈ t.fields, field.ty.isApplication = false) →
      ∃ made, r.fields id = .ok made ∧ concreteFields? t.fields = some made := by
    intro hplain
    obtain ⟨made, hmade⟩ := exists_concreteFields fun field hfield =>
      concrete_of_accepted (hr.checked hentry field hfield) hspecialized (hplain field hfield)
    rw [hmade] at hfields
    exact ⟨made, hfields, hmade⟩
  refine ⟨⟨fun hplain => ?_, ?_⟩, fun hplain name r' hrefused => ?_, fun hprompt => ?_⟩
  · obtain ⟨made, hok, hmade⟩ := hconcrete hplain
    rw [concreteFields?_eq_some_iff.1 hmade]
    exact ⟨made, hok, by simp [Function.comp_def], by simp [Function.comp_def]⟩
  · rintro ⟨made, -, -, htypes⟩ field hfield
    have hty : field.ty ∈ made.map (FieldTy.concrete ∘ Prod.snd) :=
      htypes ▸ List.mem_map_of_mem hfield
    obtain ⟨m, -, hm⟩ := List.mem_map.1 hty
    rw [← hm]
    rfl
  · obtain ⟨made, hok, -⟩ := hconcrete hplain
    cases (fields_of_layout_refused hrefused).symm.trans hok
  · exact LeadsPromptly.filled hprompt filled_initial (entry_eq_ok_iff.1 hentry).1 hspecialized

/-- The instance 13 of `List` has the fields of its template filled in, and one more that was
added to it. -/
def listing : List Operation :=
  [.create "List" none ["T"], .addField 12 "head" (.param "T"),
   .addField 12 "tail" (.apply 12 [.param "T"]), .specialize 12 [Builtin.int],
   .addField 13 "length" (.concrete Builtin.long)]

theorem fields_concrete_listing :
    (Operation.build listing).Reachable ∧ initial.LeadsPromptly (Operation.build listing) ∧
      (∃ made, (Operation.build listing).fields 13 = .ok made ∧
        made.map Prod.fst = ["head", "tail", "length"]) ∧
      ∀ name r', layout 13 (Operation.build listing) ≠ .error (.unspecializedFields name) r' := by
  have hreachable := reachable_build listing
  have hafter : Operation.afterAll listing initial = some (Operation.build listing) := by
    decide +kernel
  have hprompt := leadsPromptly_of_afterAll hafter (by decide +kernel)
  have hlt : 13 < (Operation.build listing).size := by decide +kernel
  have htype : ∀ t ∈ (Operation.build listing).types[13]?, t.specialized = true ∧
      t.progress = .ready ∧ t.fields.map Field.name = ["head", "tail", "length"] := by
    decide +kernel
  obtain ⟨t, f, hentry⟩ := hreachable.evolved.wellFormed.exists_entry hlt
  have ht := (entry_eq_ok_iff.1 hentry).1
  obtain ⟨hspecialized, hready, hnames⟩ := htype t ht
  have hkept : ¬ (Operation.build listing).Withdrawn 13 := by
    rintro ⟨t', ht', hfailed⟩
    obtain rfl := Option.some.inj (ht.symm.trans ht')
    rw [hready] at hfailed
    cases hfailed
  obtain ⟨hfields, hlayout, hplain⟩ := fields_concrete hreachable hentry hspecialized hkept
  obtain ⟨made, hok, hmade, -⟩ := hfields.1 (hplain hprompt)
  exact ⟨hreachable, hprompt, ⟨made, hok, hmade.trans hnames⟩, hlayout (hplain hprompt)⟩

/-- The type 14 is an object without parameters, and can be used. -/
def holder : Registry :=
  Operation.build
    [.create "List" none ["T"], .specialize 12 [Builtin.int], .create "Holder" none []]

/-- An application is accepted as a field of a type that can be used, and then the type has
neither fields nor a layout. -/
theorem fields_refused_holder :
    holder.Reachable ∧
      (holder.types[14]?.map fun t => (t.specialized, t.progress)) = some (true, .ready) ∧
      ∃ r', addField 14 "items" (.apply 12 [.concrete Builtin.int]) holder = .ok () r' ∧
        r'.fields 14 = Query.fail (.unspecializedFields "Holder") ∧
        layout 14 r' = .error (.unspecializedFields "Holder") r' := by
  have hreachable : holder.Reachable := reachable_build _
  refine ⟨hreachable, by decide +kernel, _, rfl, ?_, ?_⟩
  · decide +kernel
  · decide +kernel

end Registry

end TypeLayer
