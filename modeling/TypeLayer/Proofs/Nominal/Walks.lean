import Mathlib.Data.List.Forall2
import TypeLayer.Nominal.Lowering
import TypeLayer.Nominal.OfExpr
import TypeLayer.Proofs.Nominal.Contract

/-!
# Walks

The walks that put calls on a registry together are followed here once for all contracts.

* The fields of an instance are filled in along the types of the fields of its template
  (`Contract.meets_instanceFields`), and an instance is looked up or built
  (`Contract.meets_specializeWithin_succ`).
* The answer to a request is found along the request (`Contract.meets_answer`).
* A type is lowered along its members (`Contract.meets_lower`), and its layout is looked up
  or worked out (`Contract.meets_layoutWithin_succ`).

What is left to show for a contract is that it is met by the calls in which such a walk ends,
and that it does not object to the errors and faults that come up on the way.
-/

namespace TypeLayer.Registry

open TypeLayer.Action

variable {r : Registry} {id generic : TypeId} {params : List TypeId} {depth : Nat}

/-- What holds of the right one of two related elements holds of all elements on the right. -/
theorem forall_mem_of_forall₂ {α β : Type} {R : α → β → Prop} {P : β → Prop} {as : List α}
    {bs : List β} (h : List.Forall₂ R as bs) (hP : ∀ a ∈ as, ∀ b, R a b → P b) :
    ∀ b ∈ bs, P b := by
  induction h with
  | nil => exact List.forall_mem_nil _
  | cons hab _ ih =>
    rw [List.forall_mem_cons] at hP
    exact List.forall_mem_cons.2 ⟨hP.1 _ hab, ih hP.2⟩

/-- A method from the unit type has no arguments. -/
theorem answer_method {scope : Assoc String TypeId} (result : Request) (domains : List Request) :
    answer scope (.method result domains) = (do
      let result ← answer scope result
      let args ← ((if Request.isThunk domains then pure [] else answerAll scope domains) :
        Register (List TypeId))
      method result args) := by
  rw [answer]
  congr
  funext result
  split <;> rfl

theorem answerAll_eq_ok {scope : Assoc String TypeId} {requests : List Request}
    {ids : List TypeId} (h : List.Forall₂ (fun q id => answer scope q r = .ok id r) requests ids) :
    answerAll scope requests r = .ok ids r := by
  induction h with
  | nil =>
    rw [answerAll]
    rfl
  | cons hq _ ih =>
    rw [answerAll, bind_apply, hq]
    dsimp only
    rw [bind_apply, ih]
    rfl

namespace Contract

variable {c : Contract}

/-! ## Fields of instances -/

section Fields

variable {apply : TypeId → List TypeId → Register TypeId} {names : List String}
  {Fits : FieldTy → Registry → Prop} {V : FieldTy → TypeId → Registry → Prop}

/-- Declared types that fit can be filled in under the contract: those that name a type or a
parameter, and those that are had from `apply`. -/
structure Fills (c : Contract) (apply : TypeId → List TypeId → Register TypeId)
    (names : List String) (params : List TypeId) (Fits : FieldTy → Registry → Prop)
    (V : FieldTy → TypeId → Registry → Prop) : Prop where
  fits : ∀ {r r' : Registry} {ty : FieldTy}, c.moves r r' → Fits ty r → Fits ty r'
  kept : ∀ {r r' : Registry} {ty : FieldTy} {id : TypeId}, c.moves r r' → V ty id r → V ty id r'
  concrete : ∀ {r : Registry} {id : TypeId}, c.relies r → Fits (.concrete id) r →
    V (.concrete id) id r
  param : ∀ {r : Registry} {name : String} {i : Nat} {id : TypeId}, c.relies r →
    Fits (.param name) r → names.idxOf? name = some i → params[i]? = some id →
      V (.param name) id r
  unknown : ∀ {r : Registry} {name : String}, c.relies r → Fits (.param name) r → name ∉ names →
    c.refuses r (.unknownType name default) r
  missing : ∀ {r : Registry} {name : String}, c.relies r → Fits (.param name) r →
    params.length < names.length → c.faults .missingParameter
  args : ∀ {r : Registry} {generic : TypeId} {args : List FieldTy}, Fits (.apply generic args) r →
    ∀ ty ∈ args, Fits ty r
  apply : ∀ {r : Registry} {generic : TypeId} {args : List FieldTy} {ids : List TypeId},
    c.relies r → Fits (.apply generic args) r → List.Forall₂ (fun ty id => V ty id r) args ids →
      c.Meets r (apply generic ids) (V (.apply generic args))

theorem meets_fieldTypes (h : c.Fills apply names params Fits V) {tys : List FieldTy}
    (hfieldType : ∀ ty ∈ tys, ∀ {r : Registry}, c.relies r → Fits ty r →
      c.Meets r (fieldType apply names params ty) (V ty))
    (hr : c.relies r) (htys : ∀ ty ∈ tys, Fits ty r) :
    c.Meets r (fieldTypes apply names params tys)
      fun ids r' => List.Forall₂ (fun ty id => V ty id r') tys ids := by
  induction tys generalizing r with
  | nil =>
    rw [fieldTypes]
    exact meets_pure hr .nil
  | cons ty rest ih =>
    rw [List.forall_mem_cons] at hfieldType htys
    rw [fieldTypes]
    refine (hfieldType.1 hr htys.1).bind fun id r' hmoves hid => ?_
    have hr' := c.relies_of_moves hr hmoves
    refine (ih hfieldType.2 hr' fun ty hty => h.fits hmoves (htys.2 ty hty)).bind
      fun ids r'' hmoves' hids => ?_
    exact meets_pure (c.relies_of_moves hr' hmoves') (.cons (h.kept hmoves' hid) hids)

theorem meets_fieldType (h : c.Fills apply names params Fits V) {ty : FieldTy}
    (hr : c.relies r) (hty : Fits ty r) : c.Meets r (fieldType apply names params ty) (V ty) := by
  induction ty using FieldTy.induction_on generalizing r with
  | concrete id =>
    rw [fieldType]
    exact meets_pure hr (h.concrete hr hty)
  | param name =>
    rw [fieldType]
    split
    · next hname => exact meets_fail (h.unknown hr hty (List.idxOf?_eq_none_iff.1 hname))
    · next i hname =>
      split
      · next hid => exact meets_pure hr (h.param hr hty hname hid)
      · next hid =>
        have hlt := (List.findIdx?_eq_some_iff_findIdx_eq.1 hname).1
        have hle := List.getElem?_eq_none_iff.1 hid
        exact meets_fault (h.missing hr hty (Nat.lt_of_le_of_lt hle hlt))
  | apply generic args ih =>
    rw [fieldType]
    refine (meets_fieldTypes h (fun ty hmem _ => ih ty hmem) hr (h.args hty)).bind
      fun ids r' hmoves hids => ?_
    exact h.apply (c.relies_of_moves hr hmoves) (h.fits hmoves hty) hids

theorem meets_instanceFields (h : c.Fills apply names params Fits V) {fields : List Field}
    (hr : c.relies r) (hfields : ∀ field ∈ fields, Fits field.ty r) :
    c.Meets r (instanceFields apply names params fields) fun made r' =>
      List.Forall₂ (fun field m => m.1 = field.name ∧ V field.ty m.2 r') fields made := by
  induction fields generalizing r with
  | nil =>
    rw [instanceFields]
    exact meets_pure hr .nil
  | cons field rest ih =>
    rw [List.forall_mem_cons] at hfields
    rw [instanceFields]
    refine (meets_fieldType h hr hfields.1).bind fun id r' hmoves hid => ?_
    have hr' := c.relies_of_moves hr hmoves
    refine (ih hr' fun field hfield => h.fits hmoves (hfields.2 field hfield)).bind
      fun made r'' hmoves' hmade => ?_
    exact meets_pure (c.relies_of_moves hr' hmoves') (.cons ⟨rfl, h.kept hmoves' hid⟩ hmade)

/-- An instance is built in three moves: it is listed, its fields are filled in, and it is
settled or withdrawn. The last one has to be shown to fit to the second. -/
theorem meets_build {V : TypeId → Registry → Prop} {template : Datatype} {family : Family}
    {W : List (String × TypeId) → Registry → Prop}
    (hfields : c.Meets (r.enlist template.family params).2
      (instanceFields apply family.paramNames params template.fields) W)
    (hsettle : ∀ fields r', build apply template family params r =
        .ok r.size (r'.settle r.size fields) → c.moves (r.enlist template.family params).2 r' →
      W fields r' → c.moves r (r'.settle r.size fields) ∧ V r.size (r'.settle r.size fields))
    (hwithdraw : ∀ e r', instanceFields apply family.paramNames params template.fields
        (r.enlist template.family params).2 = .error e r' →
      c.refuses (r.enlist template.family params).2 e r' →
        c.refuses r e (r'.withdraw template.family r.size)) :
    c.Meets r (build apply template family params) V := by
  unfold Meets
  cases hrun : instanceFields apply family.paramNames params template.fields
      (r.enlist template.family params).2 with
  | ok fields r' =>
    have hbuild : build apply template family params r =
        .ok r.size (r'.settle r.size fields) := by
      unfold build
      dsimp only
      rw [hrun]
      rfl
    obtain ⟨hmoves, hW⟩ := hfields.ok hrun
    rw [hbuild]
    exact hsettle fields r' hbuild hmoves hW
  | error e r' =>
    unfold build
    dsimp only
    rw [hrun]
    exact hwithdraw e r' hrun (hfields.error hrun)
  | fault fault =>
    unfold build
    dsimp only
    rw [hrun]
    exact hfields.fault hrun

theorem meets_specializeWithin_zero {V : TypeId → Registry → Prop} (h : c.faults .endless) :
    c.Meets r (specializeWithin 0 generic params) V :=
  h

/-- An instance is looked up, and built where there is none. -/
theorem meets_specializeWithin_succ {V : TypeId → Registry → Prop} (hr : c.relies r)
    (hunknown : ∀ fault, r.entry generic = .error fault → c.faults fault)
    (hself : ∀ t f, r.entry generic = .ok (t, f) → t.specialized = true → params = [] →
      V generic r)
    (happlied : ∀ t f, r.entry generic = .ok (t, f) → t.specialized = true → params ≠ [] →
      c.refuses r (.specializationArity f.name 0 params.length) r)
    (harity : ∀ t f expected, r.entry generic = .ok (t, f) → t.specialized = false →
      f.wrongArity? params.length = some expected →
        c.refuses r (.specializationArity f.name expected params.length) r)
    (hlisted : ∀ t f id, r.entry generic = .ok (t, f) → t.specialized = false →
      f.wrongArity? params.length = none → f.instance? params = some id → V id r)
    (hbuild : ∀ t f, r.entry generic = .ok (t, f) → t.specialized = false →
      f.wrongArity? params.length = none → f.instance? params = none →
        c.Meets r (build (specializeWithin depth) t f params) V) :
    c.Meets r (specializeWithin (depth + 1) generic params) V := by
  rw [specializeWithin]
  refine meets_read_bind hunknown fun entry hentry => ?_
  obtain ⟨t, f⟩ := entry
  dsimp only
  cases hspecialized : t.specialized with
  | true =>
    cases params with
    | nil => exact meets_pure hr (hself t f hentry hspecialized rfl)
    | cons p rest => exact meets_fail (happlied t f hentry hspecialized (List.cons_ne_nil _ _))
  | false =>
    rw [if_neg Bool.false_ne_true]
    split
    · next expected hwrong => exact meets_fail (harity t f expected hentry hspecialized hwrong)
    · next hright =>
      split
      · next id hid => exact meets_pure hr (hlisted t f id hentry hspecialized hright hid)
      · next hnone => exact hbuild t f hentry hspecialized hright hnone

end Fields

/-! ## Answers -/

section Answers

variable {scope : Assoc String TypeId} {G : String → TypeId → Registry → Prop}
  {V : Request → TypeId → Registry → Prop}

/-- Requests can be answered under the contract: those for what is in scope, and those that
specialization answers. `G` says which declared types there are under a name. -/
structure Answers (c : Contract) (scope : Assoc String TypeId)
    (G : String → TypeId → Registry → Prop) (V : Request → TypeId → Registry → Prop) : Prop where
  declared_kept : ∀ {r r' : Registry} {name : String} {id : TypeId}, c.moves r r' → G name id r →
    G name id r'
  kept : ∀ {r r' : Registry} {q : Request} {id : TypeId}, c.relies r → c.moves r r' → V q id r →
    V q id r'
  refuses : ∀ {r : Registry} {e : DatatypeError}, c.relies r → c.refuses r e r
  scope : ∀ {r : Registry} {name : String} {span : Span} {id : TypeId}, c.relies r →
    scope.get? name = some id → V (.param name span) id r
  tuple : ∀ {r : Registry}, c.relies r → G tupleName Builtin.tuple r
  named : ∀ {r : Registry} {name : String} {id : TypeId}, c.relies r → name ≠ tupleName →
    r.lookup name = some id → G name id r
  method : ∀ {r : Registry} {result : Request} {domains : List Request} {id : TypeId}
    {args : List TypeId}, c.relies r → V result id r →
      (Request.isThunk domains = true ∧ args = [] ∨
        Request.isThunk domains = false ∧ List.Forall₂ (fun q id => V q id r) domains args) →
      c.Meets r (specialize Builtin.method (id :: args)) (V (.method result domains))
  application : ∀ {r : Registry} {name : String} {span : Span} {params : List Request}
    {generic : TypeId} {ids : List TypeId}, c.relies r → G name generic r →
      List.Forall₂ (fun q id => V q id r) params ids →
      c.Meets r (specialize generic ids) (V (.application name span params))

theorem meets_declared (h : c.Answers scope G V) (hr : c.relies r) (name : String) (span : Span) :
    c.Meets r (declared name span) (G name) := by
  unfold declared
  split
  · next hname =>
    rw [hname]
    exact meets_pure hr (h.tuple hr)
  · next hname =>
    refine meets_get_bind ?_
    split
    · next id hid => exact meets_pure hr (h.named hr hname hid)
    · exact meets_fail (h.refuses hr)

theorem meets_answerAll (h : c.Answers scope G V) {requests : List Request}
    (hanswer : ∀ q ∈ requests, ∀ {r : Registry}, c.relies r → c.Meets r (answer scope q) (V q))
    (hr : c.relies r) :
    c.Meets r (answerAll scope requests)
      fun ids r' => List.Forall₂ (fun q id => V q id r') requests ids := by
  induction requests generalizing r with
  | nil =>
    rw [answerAll]
    exact meets_pure hr .nil
  | cons q rest ih =>
    rw [List.forall_mem_cons] at hanswer
    rw [answerAll]
    refine (hanswer.1 hr).bind fun id r' hmoves hid => ?_
    have hr' := c.relies_of_moves hr hmoves
    refine (ih hanswer.2 hr').bind fun ids r'' hmoves' hids => ?_
    exact meets_pure (c.relies_of_moves hr' hmoves') (.cons (h.kept hr' hmoves' hid) hids)

theorem meets_answer (h : c.Answers scope G V) (hr : c.relies r) (q : Request) :
    c.Meets r (answer scope q) (V q) := by
  induction q using Request.induction_on generalizing r with
  | param name span =>
    rw [answer]
    split
    · next id hid => exact meets_pure hr (h.scope hr hid)
    · exact meets_fail (h.refuses hr)
  | appliedParam name span =>
    rw [answer]
    exact meets_fail (h.refuses hr)
  | method result domains ihresult ihdomains =>
    rw [answer_method]
    refine (ihresult hr).bind fun id r₁ hmoves hid => ?_
    have hr₁ := c.relies_of_moves hr hmoves
    have hargs : c.Meets r₁ (if Request.isThunk domains then pure [] else answerAll scope domains)
        fun args r' => Request.isThunk domains = true ∧ args = [] ∨
          Request.isThunk domains = false ∧
            List.Forall₂ (fun q id => V q id r') domains args := by
      split
      · next hthunk => exact meets_pure hr₁ (.inl ⟨hthunk, rfl⟩)
      · next hthunk =>
        rw [Bool.not_eq_true] at hthunk
        exact (meets_answerAll h ihdomains hr₁).mono fun _ _ _ hargs => .inr ⟨hthunk, hargs⟩
    refine hargs.bind fun args r₂ hmoves' hargs => ?_
    exact h.method (c.relies_of_moves hr₁ hmoves') (h.kept hr₁ hmoves' hid) hargs
  | application name span params ih =>
    rw [answer]
    refine (meets_declared h hr name span).bind fun generic r₁ hmoves hgeneric => ?_
    have hr₁ := c.relies_of_moves hr hmoves
    refine (meets_answerAll h ih hr₁).bind fun ids r₂ hmoves' hids => ?_
    exact h.application (c.relies_of_moves hr₁ hmoves') (h.declared_kept hmoves' hgeneric) hids

/-- Requests can be answered under the contract, with values of one kind whatever is asked
for. -/
structure AnswersAlike (c : Contract) (scope : Assoc String TypeId) (G : TypeId → Prop)
    (V : TypeId → Registry → Prop) : Prop where
  kept : ∀ {r r' : Registry} {id : TypeId}, c.moves r r' → V id r → V id r'
  refuses : ∀ {r : Registry} {e : DatatypeError}, c.relies r → c.refuses r e r
  scope : ∀ {r : Registry} {name : String} {id : TypeId}, c.relies r →
    scope.get? name = some id → V id r
  tuple : G Builtin.tuple
  method : G Builtin.method
  named : ∀ {r : Registry} {name : String} {id : TypeId}, c.relies r →
    r.lookup name = some id → G id
  specialize : ∀ {r : Registry} {generic : TypeId} {params : List TypeId}, c.relies r →
    G generic → (∀ p ∈ params, V p r) → c.Meets r (specialize generic params) V

theorem AnswersAlike.answers {G : TypeId → Prop} {V : TypeId → Registry → Prop}
    (h : c.AnswersAlike scope G V) :
    c.Answers scope (fun _ id _ => G id) fun _ id r => V id r where
  declared_kept _ hid := hid
  kept _ hmoves hid := h.kept hmoves hid
  refuses := h.refuses
  scope := h.scope
  tuple _ := h.tuple
  named hr _ hid := h.named hr hid
  method {r result domains id args} hr hid hargs := by
    have hargs : ∀ arg ∈ args, V arg r := by
      rcases hargs with ⟨-, rfl⟩ | ⟨-, hargs⟩
      · exact List.forall_mem_nil _
      · exact forall_mem_of_forall₂ hargs fun _ _ _ harg => harg
    exact h.specialize hr h.method (List.forall_mem_cons.2 ⟨hid, hargs⟩)
  application hr hgeneric hids :=
    h.specialize hr hgeneric (forall_mem_of_forall₂ hids fun _ _ _ hid => hid)

theorem meets_denote {G : TypeId → Prop} {V : TypeId → Registry → Prop}
    (h : c.AnswersAlike scope G V) (hr : c.relies r) (e : TypeExpr) :
    c.Meets r (denote e scope) V :=
  meets_answer h.answers hr (Request.ofExpr e)

end Answers

end Contract

/-! ## Layouts -/

/-- The items of a tuple are its members, under their numbers. -/
def numbered (params : List TypeId) : List (String × TypeId) :=
  params.zipIdx.map fun m => (m.2.repr, m.1)

/-- The members of a type, under the names of their slots: the fields of an object, and the
items of a tuple. -/
def HasMembers (r : Registry) (id : TypeId) (t : Datatype) (f : Family)
    (members : List (String × TypeId)) : Prop :=
  match f.style with
  | .object => r.fields id = .ok members
  | .tuple => members = numbered t.params
  | .integer | .floating | .method | .union | .slice => members = []

theorem mem_numbered {params : List TypeId} {m : String × TypeId} (hm : m ∈ numbered params) :
    m.2 ∈ params := by
  obtain ⟨⟨p, i⟩, hp, rfl⟩ := List.mem_map.1 hm
  exact List.fst_mem_of_mem_zipIdx hp

theorem HasMembers.mem_cases {t : Datatype} {f : Family} {members : List (String × TypeId)}
    {m : String × TypeId} (h : r.HasMembers id t f members) (hm : m ∈ members) :
    f.style = .object ∧ r.fields id = .ok members ∨ f.style = .tuple ∧ m.2 ∈ t.params := by
  unfold HasMembers at h
  split at h
  · next hstyle => exact .inl ⟨hstyle, h⟩
  · next hstyle => exact .inr ⟨hstyle, mem_numbered (h ▸ hm)⟩
  all_goals
    rw [h] at hm
    cases hm

/-- What a type with the given members is lowered to. `Fits` says which slot a member can
have. -/
inductive Lowered (Fits : String × TypeId → Slot → Prop) (t : Datatype) (f : Family)
    (members : List (String × TypeId)) : Layout → Prop
  | int (style : f.style = .integer) : Lowered Fits t f members (.int f.bits)
  | float (style : f.style = .floating) (width : f.bits = 32 ∨ f.bits = 64) :
      Lowered Fits t f members (.float f.bits)
  | pointer (style : f.style = .method ∨ f.style = .union) : Lowered Fits t f members .pointer
  | object {name : String} {slots : List Slot} (style : f.style = .object)
      (slots_fit : List.Forall₂ Fits members slots) :
      Lowered Fits t f members (.record name (.word "header" .header ::
        .word "super" (.supertype f.supertype) :: slots))
  | tuple {name : String} {slots : List Slot} (style : f.style = .tuple)
      (slots_fit : List.Forall₂ Fits members slots) : Lowered Fits t f members (.record name slots)
  | slice {name : String} {element : TypeId} {rest : List TypeId} (style : f.style = .slice)
      (params : t.params = element :: rest) :
      Lowered Fits t f members (.record name
        [.word "len" .length, .word "cap" .capacity, .word "data" (.elements element)])

theorem Lowered.width {Fits : String × TypeId → Slot → Prop} {t : Datatype} {f : Family}
    {members : List (String × TypeId)} {l : Layout} (h : Lowered Fits t f members l)
    (hstyle : f.style = .floating) : f.bits = 32 ∨ f.bits = 64 := by
  cases h with
  | float _ width => exact width
  | int style | object style | tuple style | slice style => cases style.symm.trans hstyle
  | pointer style => rcases style with style | style <;> cases style.symm.trans hstyle

namespace Contract

section Layouts

variable {c : Contract} {layoutOf : TypeId → Register Layout} {t : Datatype} {f : Family}
  {Fits : String × TypeId → Slot → Prop} {Done : List (String × TypeId) → Registry → Prop}

theorem meets_slotOf {name : String} {V : Slot → Registry → Prop} (hr : c.relies r)
    (hunknown : ∀ fault, r.family id = .error fault → c.faults fault)
    (hobject : ∀ f, r.family id = .ok f → f.style = .object → V (.word name (.ref id)) r)
    (hplaced : ∀ f, r.family id = .ok f → f.style ≠ .object →
      c.Meets r (layoutOf id) fun l r' => V (.inline name l) r') :
    c.Meets r (slotOf layoutOf name id) V := by
  refine meets_read_bind hunknown fun f hf => ?_
  split
  · next hstyle => exact meets_pure hr (hobject f hf hstyle)
  · next hstyle =>
    exact (hplaced f hf hstyle).bind fun l r' hmoves hl =>
      meets_pure (c.relies_of_moves hr hmoves) hl

/-- A type of the registry can be lowered under the contract: its members have slots one after
the other, and the contract does not object where lowering ends. `Done` says what is known
when some of the members have their slots. -/
structure Lowers (c : Contract) (layoutOf : TypeId → Register Layout) (r : Registry)
    (id : TypeId) (t : Datatype) (f : Family) (Fits : String × TypeId → Slot → Prop)
    (Done : List (String × TypeId) → Registry → Prop) : Prop where
  relies : c.relies r
  start : Done [] r
  member : ∀ {r' : Registry} {before after : List (String × TypeId)} {m : String × TypeId},
    r.HasMembers id t f (before ++ m :: after) → c.moves r r' → Done before r' →
      c.Meets r' (slotOf layoutOf m.1 m.2) fun slot r'' => Fits m slot ∧ Done (before ++ [m]) r''
  refused : ∀ {e : DatatypeError}, f.style = .object → r.fields id = Query.fail e →
    c.refuses r e r
  unanswered : ∀ {fault : Fault}, f.style = .object → r.fields id = .error (.fault fault) →
    c.faults fault
  width : f.style = .floating → ¬ (f.bits = 32 ∨ f.bits = 64) →
    c.refuses r (.invalidFloatWidth f.name f.bits) r
  missing : f.style = .slice → t.params = [] → c.faults .missingParameter
  unnamed : ∀ {r' : Registry} {fault : Fault}, c.moves r r' → r'.display id = .error fault →
    c.faults fault

/-- The induction is on the members that have no slot yet. -/
theorem Lowers.slotsOf {r' : Registry} (h : c.Lowers layoutOf r id t f Fits Done)
    (before : List (String × TypeId)) {members : List (String × TypeId)}
    (hmembers : r.HasMembers id t f (before ++ members)) (hmoves : c.moves r r')
    (hdone : Done before r') :
    c.Meets r' (slotsOf layoutOf members) fun slots r'' =>
      List.Forall₂ Fits members slots ∧ Done (before ++ members) r'' := by
  induction members generalizing before r' with
  | nil =>
    rw [Registry.slotsOf]
    refine meets_pure (c.relies_of_moves h.relies hmoves) ⟨.nil, ?_⟩
    rwa [List.append_nil]
  | cons m rest ih =>
    rw [Registry.slotsOf]
    refine (h.member hmembers hmoves hdone).bind fun slot r₁ hmoves₁ hslot => ?_
    rw [List.append_cons] at hmembers
    have hmoves' := c.trans hmoves hmoves₁
    refine (ih (before ++ [m]) hmembers hmoves' hslot.2).bind fun slots r₂ hmoves₂ hslots => ?_
    refine meets_pure (c.relies_of_moves h.relies (c.trans hmoves' hmoves₂))
      ⟨.cons hslot.1 hslots.1, ?_⟩
    rw [List.append_cons]
    exact hslots.2

theorem meets_lower (h : c.Lowers layoutOf r id t f Fits Done) :
    c.Meets r (lower layoutOf id t f) fun l r' =>
      ∃ members, r.HasMembers id t f members ∧ Lowered Fits t f members l ∧ Done members r' := by
  have hslots : ∀ {members}, r.HasMembers id t f members → c.Meets r (slotsOf layoutOf members)
      fun slots r' => List.Forall₂ Fits members slots ∧ Done members r' :=
    fun hmembers => h.slotsOf [] hmembers (c.refl h.relies) h.start
  -- A record is named last, whatever its slots.
  have hrecord : ∀ {r' members slots}, c.moves r r' → r.HasMembers id t f members →
      (∀ name, Lowered Fits t f members (.record name slots)) → Done members r' →
      c.Meets r' (do let name ← Action.read (·.display id); return .record name slots)
        fun l r' => ∃ members, r.HasMembers id t f members ∧ Lowered Fits t f members l ∧
          Done members r' :=
    fun hmoves hmembers hlowered hdone => meets_read_bind (fun _ => h.unnamed hmoves)
      fun name _ => meets_pure (c.relies_of_moves h.relies hmoves)
        ⟨_, hmembers, hlowered name, hdone⟩
  unfold lower
  cases hstyle : f.style with
  | integer =>
    have hmembers : r.HasMembers id t f [] := by rw [HasMembers, hstyle]
    exact meets_pure h.relies ⟨[], hmembers, .int hstyle, h.start⟩
  | floating =>
    have hmembers : r.HasMembers id t f [] := by rw [HasMembers, hstyle]
    dsimp only
    split
    · next hwidth => exact meets_pure h.relies ⟨[], hmembers, .float hstyle hwidth, h.start⟩
    · next hwidth => exact meets_fail (h.width hstyle hwidth)
  | method =>
    have hmembers : r.HasMembers id t f [] := by rw [HasMembers, hstyle]
    exact meets_pure h.relies ⟨[], hmembers, .pointer (.inl hstyle), h.start⟩
  | union =>
    have hmembers : r.HasMembers id t f [] := by rw [HasMembers, hstyle]
    exact meets_pure h.relies ⟨[], hmembers, .pointer (.inr hstyle), h.start⟩
  | object =>
    refine meets_query_bind (fun _ => h.refused hstyle) (fun _ => h.unanswered hstyle)
      fun members hfields => ?_
    have hmembers : r.HasMembers id t f members := by rwa [HasMembers, hstyle]
    refine (hslots hmembers).bind fun slots r' hmoves hdone => ?_
    exact hrecord hmoves hmembers (fun _ => .object hstyle hdone.1) hdone.2
  | tuple =>
    have hmembers : r.HasMembers id t f (numbered t.params) := by rw [HasMembers, hstyle]
    refine (hslots hmembers).bind fun slots r' hmoves hdone => ?_
    exact hrecord hmoves hmembers (fun _ => .tuple hstyle hdone.1) hdone.2
  | slice =>
    have hmembers : r.HasMembers id t f [] := by rw [HasMembers, hstyle]
    dsimp only
    split
    · next hparams => exact meets_fault (h.missing hstyle hparams)
    · next element rest hparams =>
      exact hrecord (c.refl h.relies) hmembers (fun _ => .slice hstyle hparams) h.start

theorem meets_layoutWithin_zero {V : Layout → Registry → Prop} (h : c.faults .endless) :
    c.Meets r (layoutWithin 0 id) V :=
  h

/-- A layout is looked up, and worked out and kept where there is none. -/
theorem meets_layoutWithin_succ {V : Layout → Registry → Prop} (hr : c.relies r)
    (hunknown : ∀ fault, r.entry id = .error fault → c.faults fault)
    (hkept : ∀ t f l, r.entry id = .ok (t, f) → t.layout = some l → V l r)
    (hunfinished : ∀ t f fault, r.entry id = .ok (t, f) → usable t = .error fault →
      c.faults fault)
    (hunusable : ∀ t f, r.entry id = .ok (t, f) → usable t = .ok false →
      c.refuses r (.unspecializedLowering f.name) r)
    (hlower : ∀ t f, r.entry id = .ok (t, f) → t.layout = none → usable t = .ok true →
      c.Meets r (lower (layoutWithin depth) id t f) fun l r' =>
        c.moves r' (r'.modifyType id fun t => { t with layout := some l }) ∧
          V l (r'.modifyType id fun t => { t with layout := some l })) :
    c.Meets r (layoutWithin (depth + 1) id) V := by
  rw [layoutWithin]
  refine meets_read_bind hunknown fun entry hentry => ?_
  obtain ⟨t, f⟩ := entry
  dsimp only
  cases hlayout : t.layout with
  | some l => exact meets_pure hr (hkept t f l hentry hlayout)
  | none =>
    refine meets_read_bind (fun fault => hunfinished t f fault hentry) fun answer husable => ?_
    cases answer with
    | false => exact meets_fail (hunusable t f hentry husable)
    | true =>
      refine (hlower t f hentry hlayout husable).bind fun l r' hmoves hl => ?_
      refine (meets_modify (V := fun _ => V l) hl.1 hl.2).bind fun _ r'' hmoves' hl' => ?_
      exact meets_pure (c.relies_of_moves (c.relies_of_moves hr hmoves) hmoves') hl'

end Layouts

end Contract

end TypeLayer.Registry
