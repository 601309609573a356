import TypeLayer.Proofs.Concurrent.Alone

/-!
# One instance for all threads

Calls for instances that come from any number of threads and are interleaved in any way give
one type for each list of parameters.  Calls are a discipline (`Call.discipline`), so that in
every pool that they lead to the registry is well formed and each call is valid.
-/

namespace TypeLayer.Registry.Specializing

variable {ι : Type} [DecidableEq ι] {r r' : Registry} {p : Pool ι Registry Call}

namespace Call

variable {c d : Call} {id : TypeId}

/-- The registry that calls rely on. -/
structure Sound (r : Registry) : Prop where
  wellFormed : r.WellFormed
  founded : r.Founded

theorem Moves.sound {ids ids' : List TypeId} (h : Moves r r' ids ids') (hr : Sound r) :
    Sound r' := by
  cases h with
  | stay => exact hr
  | enlist step | finish step =>
    exact ⟨step.wellFormed hr.wellFormed, step.founded hr.wellFormed hr.founded⟩

theorem Valid.begin {generic : TypeId} {params : List TypeId} (h : r.Has params) :
    (Call.begin generic params).Valid r where
  params := h
  sites := List.forall_mem_nil _
  distinct := List.nodup_nil
  outermost _ hsite := by cases hsite
  steady := ⟨h, rfl, rfl, rfl⟩

/-- Calls leave each other's sites and results alone. -/
theorem discipline : Pool.Discipline program Sound (fun r c => c.Valid r) Apart where
  symm := Apart.symm
  enter {r c} _ hstarts := by
    obtain ⟨hbegin, hparams⟩ := of_decide_eq_true hstarts
    rw [hbegin]
    exact ⟨.begin hparams, fun u => List.forall_mem_nil _⟩
  work hr hc hstep := by
    obtain ⟨hmoves, hvalid⟩ := hc.step hr.wellFormed hstep
    exact ⟨hmoves.sound hr, hvalid, fun u hu hapart => hmoves.other hu hapart⟩

/-- The call has returned the type. -/
def Returned (c : Call) (id : TypeId) : Prop :=
  c.sites = [] ∧ c.activity = .give id

/-- The call is filling in the fields of some instance. -/
def Filling (c : Call) : Prop :=
  c.sites ≠ []

/-- The call is waiting for an instance that it found under construction. -/
def Waiting (c : Call) : Prop :=
  ∃ generic params id, c.activity = .wait generic params id

theorem Valid.answers (h : c.Valid r) (hreturned : c.Returned id) : c.Answers r id := by
  have hsteady := h.steady
  rw [Steady, hreturned.2] at hsteady
  exact hsteady.2 hreturned.1

theorem Valid.not_waiting (h : c.Valid r) (hfilling : c.Filling) : ¬ c.Waiting := by
  rintro ⟨generic, params, id, ha⟩
  have hsteady := h.steady
  rw [Steady, ha] at hsteady
  exact hfilling hsteady.1

/-- Two calls that ask for the same can return one type only. -/
theorem Answers.eq {a b : TypeId} (ha : c.Answers r a) (hb : d.Answers r b) (hr : Sound r)
    (hgeneric : c.generic = d.generic) (hparams : c.params = d.params) : a = b := by
  obtain ⟨g, hg, hcases⟩ := ha
  obtain ⟨g', hg', hcases'⟩ := hb
  rw [← hgeneric] at hg' hcases'
  rw [← hparams] at hcases'
  obtain rfl := Option.some.inj (hg.symm.trans hg')
  rcases hcases with ⟨hspecialized, -, rfl⟩ | ⟨htemplate, hsettled⟩
  · rcases hcases' with ⟨-, -, rfl⟩ | ⟨htemplate', -⟩
    · rfl
    · cases hspecialized.symm.trans htemplate'
  · rcases hcases' with ⟨hspecialized', -⟩ | ⟨-, hsettled'⟩
    · cases htemplate.symm.trans hspecialized'
    · exact hsettled.eq hsettled' hr.wellFormed hr.founded

/-- What a call for an instance of a template can return is listed and complete. -/
theorem Answers.listed {t : Datatype} {f : Family} (h : c.Answers r id) (hr : Sound r)
    (hentry : r.entry c.generic = .ok (t, f)) (hgeneric : t.specialized = false) :
    f.instance? c.params = some id ∧ ∃ u, r.types[id]? = some u ∧ u.progress = .ready := by
  obtain ⟨ht, hf⟩ := entry_eq_ok_iff.1 hentry
  obtain ⟨g, hg, hcases⟩ := h
  obtain rfl := Option.some.inj (ht.symm.trans hg)
  rcases hcases with ⟨hspecialized, -⟩ | ⟨-, hsettled⟩
  · cases hgeneric.symm.trans hspecialized
  · have hlisted := hsettled.listed hr.wellFormed hr.founded hf
      (hr.founded.isGeneric_of_template hentry hgeneric).2
    obtain ⟨u, hu, -, -, -, hready⟩ := hsettled
    exact ⟨hlisted, u, hu, hready⟩

end Call

theorem orderly_of_leads (hr : r.Reachable) (hp : Pool.Leads Call.program (.idle r) p) :
    p.Orderly Call.Sound (fun r c => c.Valid r) Call.Apart :=
  Call.discipline.orderly hp (Pool.orderly_idle ⟨hr.evolved.wellFormed, hr.evolved.founded⟩)

/-- Calls of any number of threads, interleaved in any way, from any registry that there can be:
each family lists a key at most once; calls that ask for the same and return, return the same
type; for a template, that type is listed under its parameters and complete from the time it
is returned; and a call that is filling in fields does not wait.  A call whose steps are not
interleaved with others comes to what `specialize` gives. -/
theorem specializing_unique (hr : r.Reachable) (hp : Pool.Leads Call.program (.idle r) p) :
    (∀ (k : FamilyId) (f : Family), p.shared.families[k]? = some f →
      (f.instances.map Prod.fst).Nodup) ∧
    (∀ i j c d a b, p.threads i = some c → p.threads j = some d → c.generic = d.generic →
      c.params = d.params → c.Returned a → d.Returned b → a = b) ∧
    (∀ i c id t f, p.threads i = some c → c.Returned id → p.shared.entry c.generic = .ok (t, f) →
      t.specialized = false → f.instance? c.params = some id ∧
        ∃ u, p.shared.types[id]? = some u ∧ u.progress = .ready) ∧
    (∀ i c, p.threads i = some c → c.Filling → ¬ c.Waiting) ∧
    ∀ generic params, (specialize generic params r).Meets
      (fun id r' => Runs (.begin generic params, r) (⟨generic, params, [], .give id⟩, r'))
      (fun e r' => Runs (.begin generic params, r) (⟨generic, params, [], .refuse e⟩, r')) := by
  have horderly := orderly_of_leads hr hp
  refine ⟨fun k f hf => horderly.sound.wellFormed.instances_distinct hf, ?_, ?_, ?_, ?_⟩
  · intro i j c d a b hc hd hgeneric hparams ha hb
    exact ((horderly.valid hc).answers ha).eq ((horderly.valid hd).answers hb) horderly.sound
      hgeneric hparams
  · intro i c id t f hc hid hentry hgeneric
    exact ((horderly.valid hc).answers hid).listed horderly.sound hentry hgeneric
  · intro i c hc hfilling
    exact (horderly.valid hc).not_waiting hfilling
  · exact runs_specialize hr.evolved

/-- Three calls on two generic types that have each other as a field, from both ends.  The
second call finds what the first one is building and waits for it; the first and the third
take up each other's instances while these are under construction. -/
def crossing : List (Pool.Event Nat Call) :=
  [.enter 0 (.begin 13 [Builtin.int]), .enter 1 (.begin 13 [Builtin.int]),
   .enter 2 (.begin 14 [Builtin.int]), .work 0, .work 1, .work 2,
   .work 0, .work 0, .work 0, .work 0, .work 0, .work 0, .work 0, .work 0, .work 1,
   .work 2, .work 2, .work 2, .work 2, .work 2, .work 2, .work 2, .work 2]

def crossed : Pool Nat Registry Call :=
  Pool.run Call.program (.idle knotted) crossing

theorem specializing_unique_crossed :
    knotted.Reachable ∧ Pool.Leads Call.program (.idle knotted) crossed ∧
      crossed.threads 0 = some ⟨13, [Builtin.int], [], .give 15⟩ ∧
      crossed.threads 1 = some ⟨13, [Builtin.int], [], .give 15⟩ ∧
      crossed.threads 2 = some ⟨14, [Builtin.int], [], .give 16⟩ ∧
      (∀ (k : FamilyId) (f : Family), crossed.shared.families[k]? = some f →
        (f.instances.map Prod.fst).Nodup) ∧
      ∃ t f, crossed.shared.entry 13 = .ok (t, f) ∧ t.specialized = false ∧
        f.instance? [Builtin.int] = some 15 ∧
        ∃ u, crossed.shared.types[15]? = some u ∧ u.progress = .ready := by
  have hknotted : knotted.Reachable := reachable_build _
  have hleads : Pool.Leads Call.program (.idle knotted) crossed := Pool.leads_run _ _ _
  have hfirst : crossed.threads 0 = some ⟨13, [Builtin.int], [], .give 15⟩ := by decide +kernel
  obtain ⟨hdistinct, -, hlisted, -⟩ := specializing_unique hknotted hleads
  obtain ⟨t, f, hentry⟩ := (orderly_of_leads hknotted hleads).sound.wellFormed.exists_entry
    (show (13 : TypeId) < crossed.shared.size by decide +kernel)
  have hgeneric : t.specialized = false := by
    have htemplate : crossed.shared.types[13]?.map Datatype.specialized = some false := by
      decide +kernel
    rw [(entry_eq_ok_iff.1 hentry).1] at htemplate
    exact Option.some.inj htemplate
  exact ⟨hknotted, hleads, hfirst, by decide +kernel, by decide +kernel, hdistinct, t, f, hentry,
    hgeneric, hlisted 0 _ 15 t f hfirst ⟨rfl, rfl⟩ hentry hgeneric⟩

end TypeLayer.Registry.Specializing
