import TypeLayer.Proofs.Concurrent.Pool
import TypeLayer.Proofs.Nominal.Growth
import TypeLayer.Proofs.Nominal.Instances

/-!
# Specialization step by step

A call for an instance as a thread that shares the registry with others.  (Calls that one
thread makes one after the other are threads of their own here.)  A step is what is done to the
registry at one time: to look for an instance and list a new one if there is none, to copy the
fields of a template, to settle an instance or to withdraw it.  Between these steps others may
change the registry.

A call that finds an instance under construction waits until it is settled or withdrawn, and in
the second case looks again.  A call made for a field, while an instance is being built, takes
what it finds and never waits.  `Call.sites` are the instances that the call is building, one
for the fields of the other, innermost first.

Each step changes the registry by at most one `Step` (`Call.Valid.step`), and a call is the
only one to settle or withdraw what it listed.  So calls are a `Discipline`: what a call knows
of its sites and of its result is not disturbed by others.
-/

namespace TypeLayer.Registry

variable {r r' : Registry}

theorem get_eq_ok_iff {id : TypeId} {t : Datatype} : r.get id = .ok t ↔ r.types[id]? = some t := by
  unfold get
  cases r.types[id]? <;> simp

theorem exists_settled {id : TypeId} (h : r.Building id) (fields : List (String × TypeId)) :
    ∃ t, (r.settle id fields).types[id]? = some t ∧ t.progress = .ready := by
  obtain ⟨t, ht, -⟩ := h
  unfold settle
  rw [types_modifyType, if_pos rfl, ht]
  exact ⟨_, rfl, rfl⟩

namespace Specializing

/-! ## Calls -/

/-- An application of a generic type, with the arguments worked out so far and those that
remain. -/
structure Application where
  generic : TypeId
  done : List TypeId
  rest : List FieldTy
deriving DecidableEq

/-- An instance under construction, with the fields filled in so far and those that remain.
For the first field that remains, applications may be under way, innermost first. -/
structure Site where
  id : TypeId
  family : FamilyId
  names : List String
  params : List TypeId
  done : List (String × TypeId)
  rest : List Field
  pending : List Application
deriving DecidableEq

/-- What a call is about to do. -/
inductive Activity where
  /-- To look for an instance. A nested search is made for a field. -/
  | seek (generic : TypeId) (params : List TypeId) (nested : Bool)
  /-- To wait for an instance that was found under construction. -/
  | wait (generic : TypeId) (params : List TypeId) (id : TypeId)
  /-- To copy the fields of the template of a new instance. -/
  | copy (generic : TypeId)
  /-- To go on with the fields of the innermost site. -/
  | fill
  /-- To pass on a type. -/
  | give (id : TypeId)
  /-- To pass on an error. -/
  | refuse (e : DatatypeError)
  | crash (fault : Fault)
deriving DecidableEq

/-- A call for the instance of a generic type. -/
structure Call where
  generic : TypeId
  params : List TypeId
  sites : List Site
  activity : Activity
deriving DecidableEq

/-- An instance of which no field has been looked at. -/
def Site.new (id : TypeId) (family : FamilyId) (names : List String) (params : List TypeId) :
    Site :=
  ⟨id, family, names, params, [], [], []⟩

/-- The site with the type that was asked for last. -/
def Site.take (site : Site) (id : TypeId) : Site :=
  match site.pending, site.rest with
  | app :: pending, _ =>
    { site with pending := ⟨app.generic, app.done ++ [id], app.rest.tail⟩ :: pending }
  | [], field :: rest => { site with done := site.done ++ [(field.name, id)], rest }
  | [], [] => site

namespace Call

variable {c c' : Call} {site site' : Site} {sites : List Site} {a : Activity} {id : TypeId}

/-- A call that begins. -/
def begin (generic : TypeId) (params : List TypeId) : Call :=
  ⟨generic, params, [], .seek generic params false⟩

/-- The instances that the call has under construction. -/
def ids (c : Call) : List TypeId :=
  c.sites.map Site.id

/-- The call with other sites, about to do something else. -/
def go (c : Call) (sites : List Site) (a : Activity) : Call :=
  ⟨c.generic, c.params, sites, a⟩

/-- The call about to do something else. -/
def turn (c : Call) (a : Activity) : Call :=
  c.go c.sites a

/-- Looks for an instance, and lists a new one if there is none. -/
def seek (c : Call) (generic : TypeId) (params : List TypeId) (nested : Bool) (r : Registry) :
    Call × Registry :=
  match r.entry generic with
  | .error fault => (c.turn (.crash fault), r)
  | .ok (template, family) =>
    if template.specialized then
      if params.isEmpty then (c.turn (.give generic), r)
      else (c.turn (.refuse (.specializationArity family.name 0 params.length)), r)
    else
      match family.wrongArity? params.length with
      | some expected =>
        (c.turn (.refuse (.specializationArity family.name expected params.length)), r)
      | none =>
        match family.instance? params with
        | some id => (c.turn (if nested then .give id else .wait generic params id), r)
        | none =>
          let (id, r) := r.enlist template.family params
          let site := Site.new id template.family family.paramNames params
          (c.go (site :: c.sites) (.copy generic), r)

/-- Waits until an instance is settled or withdrawn. -/
def wait (c : Call) (generic : TypeId) (params : List TypeId) (id : TypeId) (r : Registry) :
    Option Call :=
  match r.get id with
  | .error fault => some (c.turn (.crash fault))
  | .ok type =>
    match type.progress with
    | .building => none
    | .ready => some (c.turn (.give id))
    | .failed => some (c.turn (.seek generic params false))

/-- Begins with the type of a field, or of an argument in it. -/
def evaluate (c : Call) (site : Site) (sites : List Site) : FieldTy → Call
  | .concrete id => c.turn (.give id)
  | .param name =>
    match site.names.idxOf? name with
    | none => c.turn (.refuse (.unknownType name default))
    | some i =>
      match site.params[i]? with
      | some id => c.turn (.give id)
      | none => c.turn (.crash .missingParameter)
  | .apply generic args =>
    c.go ({ site with pending := ⟨generic, [], args⟩ :: site.pending } :: sites) .fill

/-- Goes on with the fields of the innermost site, and settles it after the last one. -/
def fill (c : Call) (site : Site) (sites : List Site) (r : Registry) : Call × Registry :=
  match site.pending, site.rest with
  | ⟨generic, done, []⟩ :: pending, _ =>
    (c.go ({ site with pending } :: sites) (.seek generic done true), r)
  | ⟨_, _, ty :: _⟩ :: _, _ => (c.evaluate site sites ty, r)
  | [], field :: _ => (c.evaluate site sites field.ty, r)
  | [], [] => (c.go sites (.give site.id), r.settle site.id site.done)

/-- The next step of a call. A call that waits has none, nor has one that is done. -/
def step (c : Call) (r : Registry) : Option (Call × Registry) :=
  match c.activity, c.sites with
  | .seek generic params nested, _ => some (c.seek generic params nested r)
  | .wait generic params id, _ => (c.wait generic params id r).map (·, r)
  | .copy generic, site :: sites =>
    match r.get generic with
    | .error fault => some (c.turn (.crash fault), r)
    | .ok template => some (c.go ({ site with rest := template.fields } :: sites) .fill, r)
  | .fill, site :: sites => some (c.fill site sites r)
  | .give id, site :: sites => some (c.go (site.take id :: sites) .fill, r)
  | .refuse e, site :: sites => some (c.go sites (.refuse e), r.withdraw site.family site.id)
  | .copy _, [] | .fill, [] | .give _, [] | .refuse _, [] | .crash _, _ => none

/-- Calls begin with types that the registry has as parameters. -/
def program : Program Registry Call where
  starts c r := c = begin c.generic c.params ∧ r.Has c.params
  step := step

/-! ## What a call knows -/

/-- The type is an instance that the call asks for. -/
def Awaits (c : Call) (r : Registry) (id : TypeId) : Prop :=
  ∃ g, r.types[c.generic]? = some g ∧ g.specialized = false ∧ r.IsInstance g.family c.params id

/-- The type is a result that the call can return. -/
def Answers (c : Call) (r : Registry) (id : TypeId) : Prop :=
  ∃ g, r.types[c.generic]? = some g ∧
    (g.specialized = true ∧ c.params = [] ∧ id = c.generic ∨
      g.specialized = false ∧ r.Settled g.family c.params id)

end Call

/-- What is known of an instance under construction. Only types of the registry are used for
it, and its fields have different names. -/
structure Site.Valid (site : Site) (r : Registry) : Prop where
  building : r.Building site.id
  isInstance : r.IsInstance site.family site.params site.id
  params : r.Has site.params
  done : r.Has (site.done.map Prod.snd)
  rest : ∀ field ∈ site.rest, r.Has (namedTypes field.ty)
  distinct : (site.done.map Prod.fst ++ site.rest.map Field.name).Nodup
  pending : ∀ app ∈ site.pending, r.Has app.done ∧ r.Has (namedTypesAll app.rest)

namespace Call

variable {c c' : Call} {site site' : Site} {sites : List Site} {a : Activity} {id : TypeId}

/-- What is known of the activity of a call. Only the outermost search is not nested, and only
then the call waits. -/
def Steady (c : Call) (r : Registry) : Prop :=
  match c.activity with
  | .seek generic params nested =>
    r.Has params ∧
      if nested then c.sites ≠ [] else c.sites = [] ∧ generic = c.generic ∧ params = c.params
  | .wait generic params id =>
    c.sites = [] ∧ generic = c.generic ∧ params = c.params ∧ c.Awaits r id
  | .copy _ => ∃ site sites, c.sites = site :: sites ∧ site.done = []
  | .fill => c.sites ≠ []
  | .give id => id < r.size ∧ (c.sites = [] → c.Answers r id)
  | .refuse _ | .crash _ => True

/-- What is known of a call. The outermost of its sites is the instance that it asks for. -/
structure Valid (c : Call) (r : Registry) : Prop where
  params : r.Has c.params
  sites : ∀ site ∈ c.sites, site.Valid r
  distinct : c.ids.Nodup
  outermost : ∀ site ∈ c.sites.getLast?, c.Awaits r site.id
  steady : c.Steady r

/-! ## What others leave alone -/

theorem Awaits.extends (h : c.Awaits r id) (hextends : r.Extends r') : c.Awaits r' id := by
  obtain ⟨g, hg, hgeneric, hinstance⟩ := h
  obtain ⟨g', hg', hbecomes⟩ := hextends.type hg
  refine ⟨g', hg', hbecomes.specialized.trans hgeneric, ?_⟩
  rw [hbecomes.family]
  exact hextends.isInstance hinstance

theorem Answers.extends (h : c.Answers r id) (hextends : r.Extends r') : c.Answers r' id := by
  obtain ⟨g, hg, hcases⟩ := h
  obtain ⟨g', hg', hbecomes⟩ := hextends.type hg
  refine ⟨g', hg', ?_⟩
  rw [hbecomes.specialized, hbecomes.family]
  exact hcases.imp_right fun h => ⟨h.1, h.2.extends hextends⟩

/-- An instance that the call asks for can be returned once it is settled. -/
theorem Awaits.answers {t : Datatype} (h : c.Awaits r id) (ht : r.types[id]? = some t)
    (hready : t.progress = .ready) : c.Answers r id := by
  obtain ⟨g, hg, hgeneric, t', ht', hfamily, hparams, hspecialized⟩ := h
  obtain rfl := Option.some.inj (ht.symm.trans ht')
  exact ⟨g, hg, .inr ⟨hgeneric, t, ht, hfamily, hparams, hspecialized, hready⟩⟩

end Call

theorem Site.Valid.extends {site : Site} (h : site.Valid r) (hextends : r.Extends r')
    (hbuilding : r'.Building site.id) : site.Valid r' where
  building := hbuilding
  isInstance := hextends.isInstance h.isInstance
  params := hextends.has h.params
  done := hextends.has h.done
  rest field hfield := hextends.has (h.rest field hfield)
  distinct := h.distinct
  pending app happ := ⟨hextends.has (h.pending app happ).1, hextends.has (h.pending app happ).2⟩

namespace Call

variable {c c' u : Call} {site site' : Site} {sites : List Site} {a : Activity} {id : TypeId}
  {ids ids' : List TypeId}

theorem Steady.extends (h : c.Steady r) (hextends : r.Extends r') : c.Steady r' := by
  unfold Steady at h ⊢
  cases ha : c.activity with
  | seek generic params nested =>
    rw [ha] at h
    exact ⟨hextends.has h.1, h.2⟩
  | wait generic params id =>
    rw [ha] at h
    exact ⟨h.1, h.2.1, h.2.2.1, h.2.2.2.extends hextends⟩
  | give id =>
    rw [ha] at h
    exact ⟨hextends.lt_size h.1, fun hsites => (h.2 hsites).extends hextends⟩
  | copy | fill =>
    rw [ha] at h
    exact h
  | refuse | crash => trivial

/-- A call is not disturbed as long as its sites stay under construction. -/
theorem Valid.extends (h : c.Valid r) (hextends : r.Extends r')
    (hbuilding : ∀ id ∈ c.ids, r'.Building id) : c.Valid r' where
  params := hextends.has h.params
  sites site hsite :=
    (h.sites site hsite).extends hextends (hbuilding _ (List.mem_map_of_mem hsite))
  distinct := h.distinct
  outermost site hsite := (h.outermost site hsite).extends hextends
  steady := h.steady.extends hextends

theorem Valid.building (h : c.Valid r) (hid : id ∈ c.ids) : r.Building id := by
  obtain ⟨site, hsite, rfl⟩ := List.mem_map.1 hid
  exact (h.sites site hsite).building

/-- What a step does to the registry, and to the instances that the call has under
construction: nothing, or it lists a new one, or it settles or withdraws the innermost one. -/
inductive Moves (r : Registry) : Registry → List TypeId → List TypeId → Prop
  | stay {ids : List TypeId} : Moves r r ids ids
  | enlist {r' : Registry} {ids : List TypeId} (step : Step r r')
      (building : ∀ id, r'.Building id ↔ r.Building id ∨ id = r.size) :
      Moves r r' ids (r.size :: ids)
  | finish {r' : Registry} {id : TypeId} {ids : List TypeId} (step : Step r r')
      (building : ∀ i, r'.Building i ↔ r.Building i ∧ i ≠ id) : Moves r r' (id :: ids) ids

/-- The call goes on to be valid, while the registry changes at most by its one step. -/
def Proceeds (c : Call) (r : Registry) (c' : Call) (r' : Registry) : Prop :=
  Moves r r' c.ids c'.ids ∧ c'.Valid r'

/-- No instance is under construction by both calls. -/
def Apart (c u : Call) : Prop :=
  ∀ id ∈ c.ids, id ∉ u.ids

theorem Apart.symm (h : c.Apart u) : u.Apart c :=
  fun id hid hid' => h id hid' hid

/-- A call leaves alone those that it is apart from, and stays apart from them. -/
theorem Moves.other (h : Moves r r' c.ids c'.ids) (hu : u.Valid r) (hapart : c.Apart u) :
    u.Valid r' ∧ c'.Apart u := by
  unfold Apart at hapart ⊢
  generalize c.ids = ids at h hapart
  generalize c'.ids = ids' at h ⊢
  cases h with
  | stay => exact ⟨hu, hapart⟩
  | enlist step building =>
    refine ⟨hu.extends step.extends fun id hid => (building id).2 (.inl (hu.building hid)), ?_⟩
    rw [List.forall_mem_cons]
    exact ⟨fun hsize => r.not_building_size (hu.building hsize), hapart⟩
  | finish step building =>
    rw [List.forall_mem_cons] at hapart
    refine ⟨hu.extends step.extends fun id hid => (building id).2 ⟨hu.building hid, ?_⟩, hapart.2⟩
    exact fun heq => hapart.1 (heq ▸ hid)

/-! ## What a step does -/

/-- The call turns to something else. -/
theorem Valid.turn (h : c.Valid r) (ha : (c.turn a).Steady r) : c.Proceeds r (c.turn a) r :=
  ⟨.stay, h.params, h.sites, h.distinct, h.outermost, ha⟩

/-- The call changes what is known of its innermost site. -/
theorem Valid.replace (h : c.Valid r) (hsites : c.sites = site :: sites) (hsite : site'.Valid r)
    (hid : site'.id = site.id) (ha : (c.go (site' :: sites) a).Steady r) :
    c.Proceeds r (c.go (site' :: sites) a) r := by
  have hids : (c.go (site' :: sites) a).ids = c.ids := by
    simp [ids, go, hsites, hid]
  have hothers := h.sites
  have houtermost := h.outermost
  rw [hsites] at hothers houtermost
  rw [List.forall_mem_cons] at hothers
  refine ⟨hids ▸ .stay, h.params, List.forall_mem_cons.2 ⟨hsite, hothers.2⟩, hids ▸ h.distinct, ?_,
    ha⟩
  show ∀ s ∈ (site' :: sites).getLast?, c.Awaits r s.id
  rw [List.getLast?_cons] at houtermost ⊢
  cases hlast : sites.getLast? with
  | none =>
    rw [hlast] at houtermost
    intro s hs
    obtain rfl := Option.some.inj hs
    exact hid ▸ houtermost site rfl
  | some last =>
    rw [hlast] at houtermost
    exact houtermost

/-- The call is done with its innermost site. -/
theorem Valid.finish (h : c.Valid r) (hsites : c.sites = site :: sites) (hstep : Step r r')
    (hbuilding : ∀ i, r'.Building i ↔ r.Building i ∧ i ≠ site.id)
    (ha : (c.go sites a).Steady r') : c.Proceeds r (c.go sites a) r' := by
  have hids : c.ids = site.id :: sites.map Site.id := by rw [ids, hsites, List.map_cons]
  have hdistinct := h.distinct
  rw [hids, List.nodup_cons] at hdistinct
  refine ⟨hids ▸ .finish hstep hbuilding, hstep.extends.has h.params, ?_, hdistinct.2, ?_, ha⟩
  · intro s hs
    have hvalid := h.sites s (hsites ▸ List.mem_cons_of_mem _ hs)
    refine hvalid.extends hstep.extends ((hbuilding _).2 ⟨hvalid.building, fun heq => ?_⟩)
    exact hdistinct.1 (heq ▸ List.mem_map_of_mem hs)
  · intro s hs
    have hlast : sites.getLast? = some s := hs
    refine (h.outermost s ?_).extends hstep.extends
    rw [hsites, List.getLast?_cons, hlast]
    rfl

/-- The call begins with a new site. -/
theorem Valid.enlist {generic : TypeId} {params : List TypeId} {template : Datatype}
    {family : Family} (h : c.Valid r) (hentry : r.entry generic = .ok (template, family))
    (hgeneric : template.specialized = false) (harity : family.wrongArity? params.length = none)
    (hunlisted : family.instance? params = none) (hparams : r.Has params)
    (houtermost : c.sites = [] → generic = c.generic ∧ params = c.params) :
    c.Proceeds r
      (c.go (.new r.size template.family family.paramNames params :: c.sites) (.copy generic))
      (r.enlist template.family params).2 := by
  have hstep := Step.enlist hentry hgeneric harity hunlisted hparams
  have hextends := hstep.extends
  have hinstance : (r.enlist template.family params).2.IsInstance template.family params r.size :=
    ⟨_, Array.getElem?_push_size, rfl, rfl, rfl⟩
  refine ⟨.enlist hstep fun _ => building_enlist, hextends.has h.params, ?_, ?_, ?_,
    ⟨_, _, rfl, rfl⟩⟩
  · refine List.forall_mem_cons.2 ⟨⟨building_enlist.2 (.inr rfl), hinstance, hextends.has hparams,
      has_nil _, List.forall_mem_nil _, List.nodup_nil, List.forall_mem_nil _⟩, fun s hs => ?_⟩
    exact (h.sites s hs).extends hextends (building_enlist.2 (.inl (h.sites s hs).building))
  · exact List.nodup_cons.2 ⟨fun hsize => r.not_building_size (h.building hsize), h.distinct⟩
  · intro s hs
    replace hs := (List.getLast?_cons ▸ hs :)
    cases hlast : c.sites.getLast? with
    | none =>
      rw [hlast] at hs
      obtain rfl := Option.some.inj hs
      obtain ⟨rfl, rfl⟩ := houtermost (List.getLast?_eq_none_iff.1 hlast)
      obtain ⟨g, hg, hbecomes⟩ := hextends.type (entry_eq_ok_iff.1 hentry).1
      exact ⟨g, hg, hbecomes.specialized.trans hgeneric, hbecomes.family ▸ hinstance⟩
    | some last =>
      rw [hlast] at hs
      exact (h.outermost s (hlast.trans hs)).extends hextends

section Steps

variable {generic : TypeId} {params : List TypeId} {nested : Bool} {ty : FieldTy}

theorem Valid.seek (h : c.Valid r) (hr : r.WellFormed)
    (ha : c.activity = .seek generic params nested)
    (hseek : c.seek generic params nested r = (c', r')) : c.Proceeds r c' r' := by
  obtain ⟨hparams, hnested⟩ : r.Has params ∧ if nested then c.sites ≠ [] else
      c.sites = [] ∧ generic = c.generic ∧ params = c.params := by
    have hsteady := h.steady
    rwa [Steady, ha] at hsteady
  have houtermost : c.sites = [] → nested = false ∧ generic = c.generic ∧ params = c.params := by
    intro hsites
    cases nested with
    | true => exact absurd hsites hnested
    | false => exact ⟨rfl, hnested.2⟩
  unfold Call.seek at hseek
  split at hseek
  · cases hseek
    exact h.turn trivial
  · next template family hentry =>
    obtain ⟨ht, hf⟩ := entry_eq_ok_iff.1 hentry
    split at hseek
    · next hspecialized =>
      split at hseek
      · next hempty =>
        cases hseek
        refine h.turn ⟨lt_size ht, fun hsites => ?_⟩
        obtain ⟨-, rfl, rfl⟩ := houtermost hsites
        exact ⟨template, ht, .inl ⟨hspecialized, List.isEmpty_iff.1 hempty, rfl⟩⟩
      · cases hseek
        exact h.turn trivial
    · next hgeneric =>
      rw [Bool.not_eq_true] at hgeneric
      split at hseek
      · cases hseek
        exact h.turn trivial
      · next harity =>
        split at hseek
        · next id hlisted =>
          cases hseek
          have hinstance := hr.isInstance_of_listed hf hlisted
          refine h.turn ?_
          cases nested with
          | true =>
            obtain ⟨t, ht', -⟩ := hinstance
            exact ⟨lt_size ht', fun hsites => absurd hsites hnested⟩
          | false =>
            obtain ⟨hsites, rfl, rfl⟩ := hnested
            exact ⟨hsites, rfl, rfl, template, ht, hgeneric, hinstance⟩
        · next hunlisted =>
          cases hseek
          exact h.enlist hentry hgeneric harity hunlisted hparams fun hsites =>
            (houtermost hsites).2

theorem Valid.wait (h : c.Valid r) (ha : c.activity = .wait generic params id)
    (hwait : c.wait generic params id r = some c') : c.Proceeds r c' r := by
  obtain ⟨hsites, rfl, rfl, hawaits⟩ :
      c.sites = [] ∧ generic = c.generic ∧ params = c.params ∧ c.Awaits r id := by
    have hsteady := h.steady
    rwa [Steady, ha] at hsteady
  unfold Call.wait at hwait
  split at hwait
  · cases hwait
    exact h.turn trivial
  · next t hget =>
    have ht := get_eq_ok_iff.1 hget
    split at hwait
    · cases hwait
    · next hready =>
      cases hwait
      exact h.turn ⟨lt_size ht, fun _ => hawaits.answers ht hready⟩
    · cases hwait
      exact h.turn ⟨h.params, hsites, rfl, rfl⟩

theorem Valid.evaluate (h : c.Valid r) (hsites : c.sites = site :: sites)
    (hty : r.Has (namedTypes ty)) : c.Proceeds r (c.evaluate site sites ty) r := by
  have hsite : site.Valid r := h.sites site (hsites ▸ List.mem_cons_self)
  have hgive : ∀ {id : TypeId}, id < r.size → c.Proceeds r (c.turn (.give id)) r := by
    intro id hid
    refine h.turn ⟨hid, fun hnil => ?_⟩
    cases hsites.symm.trans hnil
  cases ty with
  | concrete id =>
    rw [namedTypes, has_cons] at hty
    exact hgive hty.1
  | param name =>
    rw [Call.evaluate]
    split
    · exact h.turn trivial
    · split
      · next hid => exact hgive (hsite.params _ (List.mem_of_getElem? hid))
      · exact h.turn trivial
  | apply generic args =>
    rw [namedTypes] at hty
    refine h.replace hsites { hsite with pending := ?_ } rfl (List.cons_ne_nil _ _)
    exact List.forall_mem_cons.2 ⟨⟨r.has_nil, hty⟩, hsite.pending⟩

theorem Valid.fill (h : c.Valid r) (hsites : c.sites = site :: sites)
    (hfill : c.fill site sites r = (c', r')) : c.Proceeds r c' r' := by
  have hsite : site.Valid r := h.sites site (hsites ▸ List.mem_cons_self)
  unfold Call.fill at hfill
  split at hfill
  · next hpending =>
    cases hfill
    have happs := hsite.pending
    rw [hpending, List.forall_mem_cons] at happs
    exact h.replace hsites { hsite with pending := happs.2 } rfl
      ⟨happs.1.1, List.cons_ne_nil _ _⟩
  · next hpending =>
    cases hfill
    have happs := hsite.pending
    rw [hpending, List.forall_mem_cons, namedTypesAll, has_append] at happs
    exact h.evaluate hsites happs.1.2.1
  · next hrest =>
    cases hfill
    exact h.evaluate hsites (hsite.rest _ (hrest ▸ List.mem_cons_self))
  · next hrest =>
    cases hfill
    have hdistinct := hsite.distinct
    rw [hrest, List.map_nil, List.append_nil] at hdistinct
    have hstep := Step.settle hsite.building hdistinct hsite.done
    refine h.finish hsites hstep (fun _ => building_settle) ⟨?_, fun hnil => ?_⟩
    · obtain ⟨t, ht, -⟩ := hsite.building
      exact hstep.extends.lt_size (lt_size ht)
    · -- The site was the only one, and so the instance that the call asks for.
      obtain rfl : sites = [] := hnil
      have hawaits := h.outermost site (by rw [hsites]; rfl)
      obtain ⟨t, ht⟩ := exists_settled hsite.building site.done
      exact (hawaits.extends hstep.extends).answers ht.1 ht.2

theorem Valid.take (h : c.Valid r) (hsites : c.sites = site :: sites)
    (ha : c.activity = .give id) : c.Proceeds r (c.go (site.take id :: sites) .fill) r := by
  have hsite : site.Valid r := h.sites site (hsites ▸ List.mem_cons_self)
  have hid : id < r.size := by
    have hsteady := h.steady
    rw [Steady, ha] at hsteady
    exact hsteady.1
  refine h.replace hsites ?_ ?_ (List.cons_ne_nil _ _)
  · unfold Site.take
    split
    · next app pending hpending =>
      have happs := hsite.pending
      rw [hpending, List.forall_mem_cons] at happs
      refine { hsite with pending := List.forall_mem_cons.2 ⟨⟨?_, ?_⟩, happs.2⟩ }
      · exact has_append.2 ⟨happs.1.1, has_cons.2 ⟨hid, r.has_nil⟩⟩
      · intro i hi
        refine happs.1.2 i ?_
        rw [namedTypesAll_eq] at hi ⊢
        obtain ⟨ty, hty, hi⟩ := List.mem_flatMap.1 hi
        exact List.mem_flatMap.2 ⟨ty, List.mem_of_mem_tail hty, hi⟩
    · next field rest hrest =>
      have hfields := hsite.rest
      have hdistinct := hsite.distinct
      rw [hrest] at hfields hdistinct
      refine { hsite with done := ?_, rest := (List.forall_mem_cons.1 hfields).2, distinct := ?_ }
      · rw [List.map_append]
        exact has_append.2 ⟨hsite.done, has_cons.2 ⟨hid, r.has_nil⟩⟩
      · rw [List.map_append, List.append_assoc]
        exact hdistinct
    · exact hsite
  · unfold Site.take
    split <;> rfl

theorem Valid.copy (h : c.Valid r) (hr : r.WellFormed) (hsites : c.sites = site :: sites)
    (ha : c.activity = .copy generic) {template : Datatype} (hget : r.get generic = .ok template) :
    c.Proceeds r (c.go ({ site with rest := template.fields } :: sites) .fill) r := by
  have hsite : site.Valid r := h.sites site (hsites ▸ List.mem_cons_self)
  have ht := get_eq_ok_iff.1 hget
  have hdone : site.done = [] := by
    have hsteady := h.steady
    rw [Steady, ha] at hsteady
    obtain ⟨s, ss, hs, hdone⟩ := hsteady
    obtain ⟨rfl, -⟩ := List.cons.inj (hsites.symm.trans hs)
    exact hdone
  refine h.replace hsites { hsite with rest := hr.fields_known ht, distinct := ?_ } rfl
    (List.cons_ne_nil _ _)
  rw [hdone]
  exact hr.fields_distinct ht

theorem Valid.refuse (h : c.Valid r) (hsites : c.sites = site :: sites) (e : DatatypeError) :
    c.Proceeds r (c.go sites (.refuse e)) (r.withdraw site.family site.id) := by
  have hsite : site.Valid r := h.sites site (hsites ▸ List.mem_cons_self)
  obtain ⟨t, ht, hbuilding⟩ := hsite.building
  obtain ⟨t', ht', hfamily, -⟩ := hsite.isInstance
  obtain rfl := Option.some.inj (ht.symm.trans ht')
  rw [← hfamily]
  exact h.finish hsites (.withdraw ht hbuilding) (fun _ => building_withdraw) trivial

end Steps

/-- A step moves the registry by at most one change, and what is known of the call stays
known. -/
theorem Valid.step (h : c.Valid r) (hr : r.WellFormed) (hstep : c.step r = some (c', r')) :
    c.Proceeds r c' r' := by
  unfold Call.step at hstep
  split at hstep
  · next ha => exact h.seek hr ha (Option.some.inj hstep)
  · next ha =>
    obtain ⟨c₁, hwait, heq⟩ := Option.map_eq_some_iff.1 hstep
    cases heq
    exact h.wait ha hwait
  · next ha hsites =>
    split at hstep
    · cases hstep
      exact h.turn trivial
    · next hget =>
      cases hstep
      exact h.copy hr hsites ha hget
  · next hsites => exact h.fill hsites (Option.some.inj hstep)
  · next ha hsites =>
    cases hstep
    exact h.take hsites ha
  · next hsites =>
    cases hstep
    exact h.refuse hsites _
  all_goals cases hstep

end Call

end Specializing

end TypeLayer.Registry
