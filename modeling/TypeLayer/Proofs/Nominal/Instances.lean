import Mathlib.Data.List.Nodup
import TypeLayer.Proofs.Nominal.Families

/-!
# Instances

A list of parameters has at most one instance in a family.  The list of a family has
each key once (`WellFormed.instances_distinct`), and whatever is an instance of the
family and was not withdrawn is on that list (`Founded.listed`), so that the instance
for a key is the one that is found there (`instance?_of_mem`).

An instance that was completed is never withdrawn: only one under construction is.
What specialization returned once it returns for ever (`specialize_again`).
-/

namespace TypeLayer.Registry

open TypeLayer.Action

variable {r r' r'' : Registry} {id generic : TypeId} {k : FamilyId} {params : List TypeId}
  {t : Datatype} {f : Family}

/-- The type is a completed instance of the family for the given parameters. -/
def Settled (r : Registry) (k : FamilyId) (params : List TypeId) (id : TypeId) : Prop :=
  ∃ t, r.types[id]? = some t ∧ t.family = k ∧ t.params = params ∧ t.specialized = true ∧
    t.progress = .ready

theorem IsInstance.settled (h : r.IsInstance k params id) (hbuilding : ¬ r.Building id)
    (hwithdrawn : ¬ r.Withdrawn id) : r.Settled k params id := by
  obtain ⟨t, ht, hfamily, hparams, hspecialized⟩ := h
  refine ⟨t, ht, hfamily, hparams, hspecialized, ?_⟩
  cases hprogress : t.progress with
  | building => exact absurd ⟨t, ht, hprogress⟩ hbuilding
  | ready => rfl
  | failed => exact absurd ⟨t, ht, hprogress⟩ hwithdrawn

theorem Settled.extends (h : r.Settled k params id) (hextends : r.Extends r') :
    r'.Settled k params id := by
  obtain ⟨t, ht, hfamily, hparams, hspecialized, hready⟩ := h
  obtain ⟨t', ht', hbecomes⟩ := hextends.type ht
  refine ⟨t', ht', hbecomes.family.trans hfamily, hbecomes.params.trans hparams,
    hbecomes.specialized.trans hspecialized, ?_⟩
  exact (hbecomes.progress (by rw [hready]; decide)).trans hready

/-! ## Lists of instances -/

theorem instance?_of_mem (hkeys : (f.instances.map Prod.fst).Nodup)
    (h : (params, id) ∈ f.instances) : f.instance? params = some id := by
  cases hlookup : f.instance? params with
  | none => exact absurd (List.mem_map_of_mem h) (not_mem_keys_of_unlisted hlookup)
  | some id' =>
    have heq := List.inj_on_of_nodup_map hkeys (mem_instances hlookup) h rfl
    exact congrArg some (Prod.mk.inj heq).2

/-- A completed instance of a generic family is the one that its family lists. -/
theorem Settled.listed (h : r.Settled k params id) (hwf : r.WellFormed) (hr : r.Founded)
    (hf : r.families[k]? = some f) (hgeneric : f.isGeneric = true) :
    f.instance? params = some id := by
  obtain ⟨t, ht, rfl, rfl, hspecialized, hready⟩ := h
  have hkept : t.progress ≠ .failed := by rw [hready]; decide
  refine instance?_of_mem (hwf.instances_distinct hf) ?_
  exact hr.listed (entry_eq_ok_iff.2 ⟨ht, hf⟩) hgeneric hspecialized hkept

theorem Settled.instance? (h : r.Settled k params id) (hr : initial.Evolved r)
    (hf : r.families[k]? = some f) (hgeneric : f.isGeneric = true) :
    f.instance? params = some id :=
  h.listed hr.wellFormed hr.founded hf hgeneric

theorem Settled.eq_template (h : r.Settled k params id) (hr : r.Founded)
    (hf : r.families[k]? = some f) (hgeneric : f.isGeneric ≠ true) : id = f.template := by
  obtain ⟨t, ht, rfl, -⟩ := h
  rcases hr.member (entry_eq_ok_iff.2 ⟨ht, hf⟩) with heq | ⟨-, hisGeneric, -⟩
  · exact heq
  · exact absurd hisGeneric hgeneric

theorem Settled.eq {a b : TypeId} (ha : r.Settled k params a) (hb : r.Settled k params b)
    (hwf : r.WellFormed) (hr : r.Founded) : a = b := by
  obtain ⟨f, hf⟩ : ∃ f, r.families[k]? = some f := by
    obtain ⟨t, ht, rfl, -⟩ := ha
    exact ⟨_, Array.getElem?_eq_getElem (hwf.family_known ht)⟩
  by_cases hgeneric : f.isGeneric = true
  · have hlisted := ha.listed hwf hr hf hgeneric
    rw [hb.listed hwf hr hf hgeneric] at hlisted
    exact (Option.some.inj hlisted).symm
  · -- A family that is not generic has its declared type only.
    rw [ha.eq_template hr hf hgeneric, hb.eq_template hr hf hgeneric]

theorem Settled.unique {a b : TypeId} (ha : r.Settled k params a) (hb : r.Settled k params b)
    (hr : initial.Evolved r) : a = b :=
  ha.eq hb hr.wellFormed hr.founded

/-- Between calls, what is listed is complete. -/
theorem Evolved.settled_of_mem (hr : initial.Evolved r) (hf : r.families[k]? = some f)
    (h : (params, id) ∈ f.instances) : r.Settled k params id :=
  (hr.wellFormed.instances hf _ h).settled (hr.not_building id)
    (hr.wellFormed.instances_kept hf _ h)

/-- Between calls, a type that is no template and was not withdrawn is complete. -/
theorem Evolved.settled (hr : initial.Evolved r) (ht : r.types[id]? = some t)
    (hspecialized : t.specialized = true) (hkept : t.progress ≠ .failed) :
    r.Settled t.family t.params id := by
  have hinstance : r.IsInstance t.family t.params id := ⟨t, ht, rfl, rfl, hspecialized⟩
  refine hinstance.settled (hr.not_building id) ?_
  rintro ⟨t', ht', hfailed⟩
  obtain rfl := Option.some.inj (ht.symm.trans ht')
  exact hkept hfailed

/-! ## Specialization once more -/

/-- The bound on nested instances is never nothing. -/
theorem exists_nestingBound (r : Registry) (params : List TypeId) :
    ∃ depth, r.nestingBound params = depth + 1 :=
  Nat.exists_eq_add_one_of_ne_zero (Nat.ne_of_gt (Nat.pow_pos (Nat.succ_pos _)))

/-- A type that is no template is its own instance. -/
theorem specialize_self (hentry : r.entry generic = .ok (t, f))
    (hspecialized : t.specialized = true) : specialize generic [] r = .ok generic r := by
  obtain ⟨depth, hdepth⟩ := r.exists_nestingBound []
  unfold specialize
  rw [hdepth, specializeWithin, bind_apply, Action.read, hentry]
  simp [hspecialized]

theorem specialize_listed (hentry : r.entry generic = .ok (t, f)) (hgeneric : t.specialized = false)
    (harity : f.wrongArity? params.length = none) (hlisted : f.instance? params = some id) :
    specialize generic params r = .ok id r := by
  obtain ⟨depth, hdepth⟩ := r.exists_nestingBound params
  unfold specialize
  rw [hdepth, specializeWithin, bind_apply, Action.read, hentry]
  simp [hgeneric, harity, hlisted]

/-- A completed instance is found again. -/
theorem Settled.specialize_eq {g : Datatype} (h : r.Settled g.family params id)
    (hr : initial.Evolved r) (hg : r.types[generic]? = some g)
    (hgeneric : g.specialized = false) : specialize generic params r = .ok id r := by
  obtain ⟨_, f, hentry⟩ := hr.wellFormed.exists_entry (lt_size hg)
  obtain ⟨hg', hf⟩ := entry_eq_ok_iff.1 hentry
  obtain rfl := Option.some.inj (hg.symm.trans hg')
  obtain ⟨-, hisGeneric⟩ := hr.founded.isGeneric_of_template hentry hgeneric
  have harity : f.wrongArity? params.length = none := by
    obtain ⟨t, ht, hfamily, rfl, hspecialized, -⟩ := h
    have hentry' : r.entry id = .ok (t, f) := entry_eq_ok_iff.2 ⟨ht, hfamily ▸ hf⟩
    rcases hr.founded.specialized_cases hentry' hspecialized with ⟨hnot, -⟩ | harity
    · rw [hisGeneric] at hnot
      cases hnot
    · exact harity
  exact specialize_listed hentry hgeneric harity (h.instance? hr hf hisGeneric)

/-- Between calls, an instance that was not withdrawn is complete. -/
theorem Specializes.settled (h : r.Specializes generic params id) (hr : initial.Evolved r)
    (hkept : r.Withdrawn id → id = generic) :
    ∃ g, r.types[generic]? = some g ∧
      (g.specialized = true ∧ params = [] ∧ id = generic ∨
        g.specialized = false ∧ r.Settled g.family params id) := by
  obtain ⟨g, hg, hcases⟩ := h
  refine ⟨g, hg, hcases.imp_right fun h => ?_⟩
  obtain ⟨hgeneric, hinstance⟩ := h
  refine ⟨hgeneric, hinstance.settled (hr.not_building id) fun hfailed => ?_⟩
  -- The template that was asked for is no instance.
  obtain rfl := hkept hfailed
  obtain ⟨t, ht, -, -, hspecialized⟩ := hinstance
  obtain rfl := Option.some.inj (hg.symm.trans ht)
  rw [hspecialized] at hgeneric
  cases hgeneric

/-- Specialization returns the type that was asked for, if it is no template, and else a
completed instance. -/
theorem Evolved.specialize_cases (hr : initial.Evolved r) (hparams : r.Has params)
    (h : specialize generic params r = .ok id r') :
    initial.Evolved r' ∧ ∃ g, r'.types[generic]? = some g ∧
      (g.specialized = true ∧ params = [] ∧ id = generic ∨
        g.specialized = false ∧ r'.Settled g.family params id) := by
  unfold specialize at h
  obtain ⟨hevolved, hspecializes, hwithdrawn⟩ :=
    (evolves_specializeWithin _ hr.wellFormed hparams).ok h
  have hr' := hr.trans hevolved
  exact ⟨hr', hspecializes.settled hr' hwithdrawn⟩

/-- What specialization returned it returns from then on. -/
theorem Evolved.specialize_lasting (hr : initial.Evolved r) (hparams : r.Has params)
    (h : specialize generic params r = .ok id r') (hevolved : r'.Evolved r'') :
    specialize generic params r'' = .ok id r'' := by
  obtain ⟨hr', g, hg, hcases⟩ := hr.specialize_cases hparams h
  have hr'' := hr'.trans hevolved
  have hextends := hevolved.extends
  obtain ⟨g', hg', hbecomes⟩ := hextends.type hg
  rcases hcases with ⟨hspecialized, rfl, rfl⟩ | ⟨hgeneric, hsettled⟩
  · obtain ⟨_, f, hentry⟩ := hr''.wellFormed.exists_entry (lt_size hg')
    obtain rfl := Option.some.inj (hg'.symm.trans (entry_eq_ok_iff.1 hentry).1)
    exact specialize_self hentry (hbecomes.specialized.trans hspecialized)
  · have hsettled' := hsettled.extends hextends
    rw [← hbecomes.family] at hsettled'
    exact hsettled'.specialize_eq hr'' hg' (hbecomes.specialized.trans hgeneric)

theorem Evolved.specialize_again (hr : initial.Evolved r) (hparams : r.Has params)
    (h : specialize generic params r = .ok id r') (hleads : r'.Leads r'') :
    specialize generic params r'' = .ok id r'' :=
  hr.specialize_lasting hparams h (Leads.evolved hleads (hr.specialize_cases hparams h).1)

/-- Whatever calls were made, each list of parameters has at most one instance: nothing
is under construction, a family lists completed instances and each key once, two
completed instances with the same parameters are the same type, and what specialization
returned it returns from then on, without any change to the registry. -/
theorem instances_unique (hr : r.Reachable) :
    (∀ id, ¬ r.Building id) ∧
    (∀ k f, r.families[k]? = some f → (f.instances.map Prod.fst).Nodup ∧
      ∀ key id, (key, id) ∈ f.instances → r.Settled k key id) ∧
    (∀ k params a b, r.Settled k params a → r.Settled k params b → a = b) ∧
    ∀ generic params id r' r'', r.Has params → specialize generic params r = .ok id r' →
      r'.Leads r'' → specialize generic params r'' = .ok id r'' := by
  have hr := hr.evolved
  refine ⟨hr.not_building, fun k f hf => ⟨hr.wellFormed.instances_distinct hf, ?_⟩, ?_, ?_⟩
  · intro key id hlisted
    exact hr.settled_of_mem hf hlisted
  · intro k params a b ha hb
    exact ha.unique hb hr
  · intro generic params id r' r'' hparams h hleads
    exact hr.specialize_again hparams h hleads

/-- Two generic types `Pair` and `Cell`, of which each has the other as a field. -/
def knotted : Registry :=
  Operation.build
    [.slice Builtin.int, .create "Pair" none ["A"], .create "Cell" none ["B"],
     .addField 13 "cell" (.apply 14 [.param "A"]), .addField 14 "pair" (.apply 13 [.param "B"])]

/-- A third generic type. Its instance refers to itself and to a new `Cell`, and then
cannot be completed, since `Slice{Int}` takes no parameters. -/
def tearing : List Operation :=
  [.create "Torn" none ["C"], .addField 17 "own" (.apply 17 [.param "C"]),
   .addField 17 "cell" (.apply 14 [.param "C"]), .addField 17 "torn" (.apply 12 [.param "C"]),
   .specialize 17 [Builtin.long]]

def torn : Registry :=
  ((specialize 13 [Builtin.int] knotted).state?.bind (Operation.afterAll tearing)).getD initial

theorem instances_unique_torn :
    knotted.Reachable ∧ torn.types[18]?.map Datatype.progress = some .failed ∧
      (∀ id, ¬ torn.Building id) ∧
      ∃ r', knotted.Has [Builtin.int] ∧ specialize 13 [Builtin.int] knotted = .ok 15 r' ∧
        r'.Leads torn ∧ specialize 13 [Builtin.int] torn = .ok 15 torn := by
  have hknotted : knotted.Reachable := reachable_build _
  have hhas : knotted.Has [Builtin.int] := by decide +kernel
  obtain ⟨r', hrun⟩ : ∃ r', specialize 13 [Builtin.int] knotted = .ok 15 r' :=
    Outcome.exists_ok (by decide +kernel)
  have hafter : Operation.after (.specialize 13 [Builtin.int]) knotted = some r' := by
    rw [Operation.after, hrun, Outcome.state?_ok]
  have htearing : (specialize 13 [Builtin.int] knotted).state?.bind
      (Operation.afterAll tearing) = some torn := by decide +kernel
  rw [hrun, Outcome.state?_ok, Option.bind_some] at htearing
  have hleads : r'.Leads torn := leads_of_afterAll htearing
  have htorn : torn.Reachable :=
    hknotted.trans (.head ⟨.specialize 13 [Builtin.int], hhas, hafter⟩ hleads)
  refine ⟨hknotted, by decide +kernel, (instances_unique htorn).1, r', hhas, hrun, hleads, ?_⟩
  exact (instances_unique hknotted).2.2.2 13 [Builtin.int] 15 r' torn hhas hrun hleads

end TypeLayer.Registry
