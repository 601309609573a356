import TypeLayer.Proofs.Concurrent.Pool
import TypeLayer.Proofs.Nominal.Declared

/-!
# Declarations from several threads

A call that declares a type first checks that the name is free, and then registers the type.
These are two steps, and between them others may register a type under the same name.

As long as no two calls are between the two steps with the same name at the same time, a name is
registered once: one call returns, all others are refused, and the name leads to the type of
that call for ever (`declared_once`).  Where two calls are between the steps at the same time,
both of them return, and the name leads to the type that was registered last
(`declared_twice`).
-/

namespace TypeLayer.Registry.Creating

variable {ι : Type} [DecidableEq ι] {r r' : Registry}

/-! ## Calls -/

/-- The operations that declare a type. -/
inductive Request where
  | create (name : String) (supertype : Option TypeId) (paramNames : List String)
  | createInteger (name : String) (bits : Nat)
  | createFloat (name : String) (bits : Nat)
deriving DecidableEq

def Request.perform : Request → Register TypeId
  | .create name supertype paramNames => Registry.create name supertype paramNames
  | .createInteger name bits => Registry.createInteger name bits
  | .createFloat name bits => Registry.createFloat name bits

def Request.declaration : Request → Declaration
  | .create name supertype paramNames =>
    { name, style := .object, supertype := some (supertype.getD Builtin.any), paramNames }
  | .createInteger name bits => { name, style := .integer, bits, supertype := some Builtin.long }
  | .createFloat name bits => { name, style := .floating, bits, supertype := some Builtin.float }

theorem Request.perform_eq (request : Request) :
    request.perform = declareNew request.declaration := by
  cases request <;> rfl

/-- How far a call has come. -/
inductive Stage where
  | checking
  /-- The name was free when it was checked. -/
  | registering
  | returned (id : TypeId)
  | refused (e : DatatypeError)
deriving DecidableEq

structure Call where
  request : Request
  stage : Stage
deriving DecidableEq

namespace Call

def name (c : Call) : String :=
  c.request.declaration.name

def begin (request : Request) : Call :=
  ⟨request, .checking⟩

def step (c : Call) (r : Registry) : Option (Call × Registry) :=
  match c.stage with
  | .checking =>
    if r.names.contains c.name then
      some ({ c with stage := .refused (.duplicateType c.name) }, r)
    else some ({ c with stage := .registering }, r)
  | .registering => some ({ c with stage := .returned r.size }, r.declare c.request.declaration)
  | .returned _ | .refused _ => none

def program : Program Registry Call where
  starts c _ := c = begin c.request
  step := step

/-- The call is between its two steps, with the name. -/
def isBetween (name : String) (c : Call) : Bool :=
  c.name = name ∧ c.stage = .registering

theorem isBetween_iff {name : String} {c : Call} :
    isBetween name c = true ↔ c.name = name ∧ c.stage = .registering :=
  decide_eq_true_iff

/-- The call has come to its end. -/
def Finished (c : Call) : Prop :=
  c.stage ≠ .checking ∧ c.stage ≠ .registering

variable {c c' : Call}

/-- The two steps of a call. -/
theorem step_cases (h : c.step r = some (c', r')) :
    c'.name = c.name ∧
      (c.stage = .checking ∧ r' = r ∧
          (r.lookup c.name ≠ none ∧ c'.stage = .refused (.duplicateType c.name) ∨
            r.lookup c.name = none ∧ c'.stage = .registering) ∨
        c.stage = .registering ∧ c'.stage = .returned r.size ∧
          r' = r.declare c.request.declaration) := by
  unfold step at h
  split at h
  · next hstage =>
    split at h
    · next htaken =>
      cases h
      rw [Assoc.contains, Option.isSome_iff_ne_none] at htaken
      exact ⟨rfl, .inl ⟨hstage, rfl, .inl ⟨htaken, rfl⟩⟩⟩
    · next hfree =>
      cases h
      rw [Assoc.contains, Option.isSome_iff_ne_none, not_not] at hfree
      exact ⟨rfl, .inl ⟨hstage, rfl, .inr ⟨hfree, rfl⟩⟩⟩
  · next hstage =>
    cases h
    exact ⟨rfl, .inr ⟨hstage, rfl, rfl⟩⟩
  all_goals cases h

/-- A name leads to what was registered under it last. -/
theorem lookup_declare (c : Call) (r : Registry) (name : String) :
    (r.declare c.request.declaration).lookup name =
      if c.name = name then some r.size else r.lookup name :=
  Assoc.get?_insert r.names c.name name r.size

/-- A call by itself comes to what the operation gives, and leaves the same registry. -/
theorem runs_perform (request : Request) (r : Registry) :
    (request.perform r).Meets
      (fun id r' => program.Runs (.begin request, r) (⟨request, .returned id⟩, r'))
      (fun e r' => program.Runs (.begin request, r) (⟨request, .refused e⟩, r')) := by
  rw [Request.perform_eq, declareNew]
  split
  · next htaken => exact .single (if_pos htaken)
  · next hfree => exact .head (if_neg hfree) (.single rfl)

/-! ## What holds of all interleavings -/

/-- A call is refused because of its name only, and the type that it returns is there. -/
structure Valid (r : Registry) (c : Call) : Prop where
  returned : ∀ {id}, c.stage = .returned id → id < r.size
  refused : ∀ {e}, c.stage = .refused e → e = .duplicateType c.name

/-- The calls do not return the same type. -/
def Apart (c d : Call) : Prop :=
  ∀ a b, c.stage = .returned a → d.stage = .returned b → a ≠ b

theorem size_declare (r : Registry) (d : Declaration) : (r.declare d).size = r.size + 1 :=
  Array.size_push _

/-- Calls that return, return different types. -/
theorem discipline : Pool.Discipline program (fun _ => True) Valid Apart where
  symm h a b ha hb := (h b a hb ha).symm
  enter {r c} _ hstarts := by
    have hbegin : c = begin c.request := of_decide_eq_true hstarts
    rw [hbegin]
    exact ⟨⟨fun h => (by cases h), fun h => (by cases h)⟩, fun d a b h => (by cases h)⟩
  work {r r' c c'} _ hc hstep := by
    obtain ⟨hname, hcases⟩ := step_cases hstep
    rcases hcases with ⟨-, rfl, hcases⟩ | ⟨-, hreturned, rfl⟩
    · have hstage : ∀ id, c'.stage ≠ .returned id := by
        rintro id hid
        rcases hcases with ⟨-, hstage⟩ | ⟨-, hstage⟩ <;> cases hid.symm.trans hstage
      refine ⟨trivial, ⟨fun h => absurd h (hstage _), fun h => ?_⟩, fun d hd _ =>
        ⟨hd, fun a b ha => absurd ha (hstage a)⟩⟩
      rcases hcases with ⟨-, hstage⟩ | ⟨-, hstage⟩
      · cases h.symm.trans hstage
        rw [hname]
      · cases h.symm.trans hstage
    · refine ⟨trivial, ⟨fun h => ?_, fun h => by cases h.symm.trans hreturned⟩, fun d hd _ =>
        ⟨⟨fun h => ?_, hd.refused⟩, fun a b ha hb => ?_⟩⟩
      · cases h.symm.trans hreturned
        rw [size_declare]
        exact Nat.lt_succ_self _
      · rw [size_declare]
        exact Nat.lt_succ_of_lt (hd.returned h)
      · cases ha.symm.trans hreturned
        exact (Nat.ne_of_lt (hd.returned hb)).symm

end Call

variable {p p' : Pool ι Registry Call} {name : String} {i j : ι} {c d : Call} {id : TypeId}

theorem orderly_of_leads (hp : Pool.Leads Call.program (.idle r) p) :
    p.Orderly (fun _ => True) Call.Valid Call.Apart :=
  Call.discipline.orderly hp (Pool.orderly_idle trivial)

/-- A call that is about to register its type goes on to return, whatever others do. -/
theorem registered_of_leads (hp : Pool.Leads Call.program p p') (hc : p.threads i = some c)
    (hstage : c.stage = .registering) :
    ∃ c', p'.threads i = some c' ∧ (c'.stage = .registering ∨ ∃ id, c'.stage = .returned id) := by
  refine Pool.Leads.keeps (I := fun q => ∃ c', q.threads i = some c' ∧
    (c'.stage = .registering ∨ ∃ id, c'.stage = .returned id)) hp
    (fun {p₁ p₂ e} hbefore hafter => ?_) ⟨c, hc, .inl hstage⟩
  obtain ⟨c₁, hc₁, hstages⟩ := hbefore
  rcases Pool.threads_after hafter hc₁ with hsame | ⟨c₂, hstep, hc₂⟩
  · exact ⟨c₁, hsame, hstages⟩
  · refine ⟨c₂, hc₂, ?_⟩
    rcases (Call.step_cases hstep).2 with ⟨hchecking, -⟩ | ⟨-, hreturned, -⟩
    · rcases hstages with hstage | ⟨id, hstage⟩ <;> cases hchecking.symm.trans hstage
    · exact .inr ⟨_, hreturned⟩

theorem returned_of_registering {c' : Call} (hp : Pool.Leads Call.program p p')
    (hc : p.threads i = some c) (hstage : c.stage = .registering) (hc' : p'.threads i = some c')
    (hfinished : c'.Finished) : ∃ id, c'.stage = .returned id := by
  obtain ⟨c₁, hc₁, hstages⟩ := registered_of_leads hp hc hstage
  obtain rfl := Option.some.inj (hc'.symm.trans hc₁)
  exact hstages.resolve_left hfinished.2

/-! ## Calls that do not overlap -/

/-- At most one call is between its two steps with the name. -/
def Unraced (name : String) (p : Pool ι Registry Call) : Prop :=
  ∀ i j, (p.threads i).any (Call.isBetween name) = true →
    (p.threads j).any (Call.isBetween name) = true → i = j

instance (n : Nat) (name : String) (p : Pool (Fin n) Registry Call) : Decidable (Unraced name p) :=
  @Nat.decidableForallFin n _ fun _ => Nat.decidableForallFin _

omit [DecidableEq ι] in
theorem any_isBetween (hc : p.threads i = some c) (hname : c.name = name)
    (hstage : c.stage = .registering) : (p.threads i).any (Call.isBetween name) = true := by
  rw [hc]
  exact Call.isBetween_iff.2 ⟨hname, hstage⟩

/-- Some interleaving leads from one pool to the other, with at most one call at a time that is
between its two steps with the name. -/
abbrev LeadsUnraced (name : String) : Pool ι Registry Call → Pool ι Registry Call → Prop :=
  Relation.ReflTransGen fun p p' => Unraced name p ∧ ∃ e, Pool.after Call.program p e = some p'

theorem LeadsUnraced.leads (h : LeadsUnraced name p p') : Pool.Leads Call.program p p' :=
  Relation.ReflTransGen.mono (fun _ _ h => h.2) p p' h

/-- What holds of a name as long as calls do not overlap: it is free while a call is about to
register it, and it leads to the type of the only call that returned. -/
structure Single (name : String) (p : Pool ι Registry Call) : Prop where
  free : ∀ {i c}, p.threads i = some c → c.name = name → c.stage = .registering →
    p.shared.lookup name = none
  returned : ∀ {i c id}, p.threads i = some c → c.name = name → c.stage = .returned id →
    p.shared.lookup name = some id
  once : ∀ {i j c d a b}, p.threads i = some c → p.threads j = some d → c.name = name →
    d.name = name → c.stage = .returned a → d.stage = .returned b → i = j

omit [DecidableEq ι] in
theorem single_idle (name : String) (r : Registry) :
    Single name (.idle r : Pool ι Registry Call) where
  free h := by cases h
  returned h := by cases h
  once h := by cases h

/-- A step that does not register the name keeps all this. -/
theorem Single.set (h : Single name p) {s : Registry}
    (hlookup : s.lookup name = p.shared.lookup name)
    (hstage : c.name = name → c.stage = .checking ∨
      c.stage = .registering ∧ p.shared.lookup name = none ∨ ∃ e, c.stage = .refused e) :
    Single name (p.set i c s) where
  free hset hname hregistering := by
    show s.lookup name = none
    rw [hlookup]
    rcases Pool.threads_set_cases hset with ⟨-, rfl⟩ | ⟨-, hthread⟩
    · rcases hstage hname with hs | ⟨-, hfree⟩ | ⟨e, hs⟩
      · cases hs.symm.trans hregistering
      · exact hfree
      · cases hs.symm.trans hregistering
    · exact h.free hthread hname hregistering
  returned hset hname hreturned := by
    show s.lookup name = _
    rw [hlookup]
    rcases Pool.threads_set_cases hset with ⟨-, rfl⟩ | ⟨-, hthread⟩
    · rcases hstage hname with hs | ⟨hs, -⟩ | ⟨e, hs⟩ <;> cases hs.symm.trans hreturned
    · exact h.returned hthread hname hreturned
  once hset hset' hname hname' hreturned hreturned' := by
    rcases Pool.threads_set_cases hset with ⟨-, rfl⟩ | ⟨-, hthread⟩
    · rcases hstage hname with hs | ⟨hs, -⟩ | ⟨e, hs⟩ <;> cases hs.symm.trans hreturned
    · rcases Pool.threads_set_cases hset' with ⟨-, rfl⟩ | ⟨-, hthread'⟩
      · rcases hstage hname' with hs | ⟨hs, -⟩ | ⟨e, hs⟩ <;> cases hs.symm.trans hreturned'
      · exact h.once hthread hthread' hname hname' hreturned hreturned'

theorem Single.after {e : Pool.Event ι Call} (h : Single name p) (hunraced : Unraced name p)
    (hafter : Pool.after Call.program p e = some p') : Single name p' := by
  rcases Pool.after_cases hafter with ⟨i, t, -, hstarts, rfl⟩ | ⟨i, t, t', s, ht, hstep, rfl⟩
  · have hbegin : t = .begin t.request := of_decide_eq_true hstarts
    exact h.set rfl fun _ => .inl (by rw [hbegin]; rfl)
  obtain ⟨hname', hcases⟩ := Call.step_cases hstep
  rcases hcases with ⟨-, rfl, hcases⟩ | ⟨hregistering, hreturned, rfl⟩
  · refine h.set rfl fun hname => ?_
    rw [← hname', hname] at hcases
    rcases hcases with ⟨-, hrefused⟩ | ⟨hfree, hregistering⟩
    · exact .inr (.inr ⟨_, hrefused⟩)
    · exact .inr (.inl ⟨hregistering, hfree⟩)
  by_cases hname : t.name = name
  · -- The call was the only one about to register the name, and none had returned.
    have hfree := h.free ht hname hregistering
    have hlookup : (p.shared.declare t.request.declaration).lookup name = some p.shared.size := by
      rw [Call.lookup_declare, if_pos hname]
    have hnone : ∀ {j d b}, p.threads j = some d → d.name = name → d.stage ≠ .returned b := by
      intro j d b hd hdname hb
      cases hfree.symm.trans (h.returned hd hdname hb)
    constructor
    · intro j d hset hdname hstage
      rcases Pool.threads_set_cases hset with ⟨-, rfl⟩ | ⟨hne, hd⟩
      · cases hstage.symm.trans hreturned
      · exact absurd (hunraced j i (any_isBetween hd hdname hstage)
          (any_isBetween ht hname hregistering)) hne
    · intro j d b hset hdname hstage
      rcases Pool.threads_set_cases hset with ⟨-, rfl⟩ | ⟨-, hd⟩
      · cases hstage.symm.trans hreturned
        exact hlookup
      · exact absurd hstage (hnone hd hdname)
    · intro j k d d' a b hset hset' hdname hdname' hstage hstage'
      rcases Pool.threads_set_cases hset with ⟨rfl, -⟩ | ⟨-, hd⟩
      · rcases Pool.threads_set_cases hset' with ⟨rfl, -⟩ | ⟨-, hd'⟩
        · rfl
        · exact absurd hstage' (hnone hd' hdname')
      · exact absurd hstage (hnone hd hdname)
  · refine h.set ?_ fun hname₁ => absurd (hname'.symm.trans hname₁) hname
    rw [Call.lookup_declare, if_neg hname]

theorem LeadsUnraced.single (h : LeadsUnraced name (.idle r) p) : Single name p := by
  induction h with
  | refl => exact single_idle name r
  | tail _ hafter ih =>
    obtain ⟨hunraced, e, hafter⟩ := hafter
    exact ih.after hunraced hafter

/-- The name leads to the type that the call returned, and all other calls for it are refused. -/
structure Held (name : String) (i : ι) (id : TypeId) (p : Pool ι Registry Call) : Prop where
  self : ∃ c, p.threads i = some c ∧ c.stage = .returned id
  others : ∀ {j d}, p.threads j = some d → d.name = name → j ≠ i →
    d.stage = .checking ∨ d.stage = .refused (.duplicateType name)
  lookup : p.shared.lookup name = some id

omit [DecidableEq ι] in
theorem Held.not_registering (h : Held name i id p) (hc : p.threads j = some c)
    (hname : c.name = name) : c.stage ≠ .registering := by
  intro hregistering
  by_cases hj : j = i
  · subst hj
    obtain ⟨c', hc', hreturned⟩ := h.self
    obtain rfl := Option.some.inj (hc.symm.trans hc')
    cases hregistering.symm.trans hreturned
  · rcases h.others hc hname hj with hstage | hstage <;> cases hregistering.symm.trans hstage

theorem Held.after {e : Pool.Event ι Call} (h : Held name i id p)
    (hafter : Pool.after Call.program p e = some p') : Held name i id p' := by
  obtain ⟨c, hc, hreturned⟩ := h.self
  have hself : ∃ c, p'.threads i = some c ∧ c.stage = .returned id := by
    rcases Pool.threads_after hafter hc with hsame | ⟨c', hstep, -⟩
    · exact ⟨c, hsame, hreturned⟩
    · rcases (Call.step_cases hstep).2 with ⟨hstage, -⟩ | ⟨hstage, -⟩ <;>
        cases hstage.symm.trans hreturned
  rcases Pool.after_cases hafter with ⟨j, t, -, hstarts, rfl⟩ | ⟨j, t, t', s, ht, hstep, rfl⟩
  · have hbegin : t = .begin t.request := of_decide_eq_true hstarts
    refine ⟨hself, fun {k d} hset hdname hk => ?_, h.lookup⟩
    rcases Pool.threads_set_cases hset with ⟨-, rfl⟩ | ⟨-, hd⟩
    · exact .inl (by rw [hbegin]; rfl)
    · exact h.others hd hdname hk
  obtain ⟨hname', hcases⟩ := Call.step_cases hstep
  by_cases hname : t.name = name
  · -- The name is taken, so that the call can only be refused.
    rcases hcases with ⟨-, rfl, ⟨-, hrefused⟩ | ⟨hfree, -⟩⟩ | ⟨hregistering, -⟩
    · refine ⟨hself, fun {k d} hset hdname hk => ?_, h.lookup⟩
      rcases Pool.threads_set_cases hset with ⟨-, rfl⟩ | ⟨-, hd⟩
      · exact .inr (hname ▸ hrefused)
      · exact h.others hd hdname hk
    · rw [hname] at hfree
      cases hfree.symm.trans h.lookup
    · exact absurd hregistering (h.not_registering ht hname)
  · refine ⟨hself, fun {k d} hset hdname hk => ?_, ?_⟩
    · rcases Pool.threads_set_cases hset with ⟨-, rfl⟩ | ⟨-, hd⟩
      · exact absurd (hname'.symm.trans hdname) hname
      · exact h.others hd hdname hk
    · rcases hcases with ⟨-, rfl, -⟩ | ⟨-, -, rfl⟩
      · exact h.lookup
      · exact (Call.lookup_declare t _ name).trans ((if_neg hname).trans h.lookup)

/-- Where calls do not overlap, the type that a call returned is the one of the name. -/
theorem LeadsUnraced.held (hp : LeadsUnraced name (.idle r) p) (hc : p.threads i = some c)
    (hname : c.name = name) (hreturned : c.stage = .returned id) : Held name i id p := by
  have hsingle := hp.single
  have hlookup := hsingle.returned hc hname hreturned
  refine ⟨⟨c, hc, hreturned⟩, fun {j d} hd hdname hj => ?_, hlookup⟩
  cases hstage : d.stage with
  | checking => exact .inl rfl
  | registering => cases (hsingle.free hd hdname hstage).symm.trans hlookup
  | returned b => exact absurd (hsingle.once hd hc hdname hname hstage hreturned) hj
  | refused e =>
    rw [((orderly_of_leads hp.leads).valid hd).refused hstage, hdname]
    exact .inr rfl

/-- Declarations from any number of threads, from any registry.  Where no two calls with the name
are between their two steps at the same time, at most one of them returns, and all others that
come to their end are refused because of the name; the name leads to the type of the call that
returned, whatever happens afterwards, and no other call with the name returns.  Where two calls
with the name are between their steps at the same time, neither is refused: if both come to
their end, both return, and not the same type.  A call whose steps are not interleaved with
others comes to what the operation gives. -/
theorem declared_once (hp : LeadsUnraced name (.idle r) p) :
    (∀ i j c d a b, p.threads i = some c → p.threads j = some d → c.name = name → d.name = name →
      c.stage = .returned a → d.stage = .returned b → i = j) ∧
    (∀ i c, p.threads i = some c → c.name = name → c.Finished →
      (∃ id, c.stage = .returned id) ∨ c.stage = .refused (.duplicateType name)) ∧
    (∀ i c id p', p.threads i = some c → c.name = name → c.stage = .returned id →
      Pool.Leads Call.program p p' → p'.shared.lookup name = some id ∧
        ∀ j d, p'.threads j = some d → d.name = name → d.Finished → j ≠ i →
          d.stage = .refused (.duplicateType name)) ∧
    (∀ (q q' : Pool ι Registry Call) i j c d, Pool.Leads Call.program (.idle r) q →
      q.threads i = some c → q.threads j = some d → i ≠ j → Call.isBetween name c = true →
      Call.isBetween name d = true → Pool.Leads Call.program q q' →
      ∀ c' d', q'.threads i = some c' → q'.threads j = some d' → c'.Finished → d'.Finished →
        ∃ a b, c'.stage = .returned a ∧ d'.stage = .returned b ∧ a ≠ b) ∧
    ∀ request : Request, (request.perform r).Meets
      (fun id r' => Call.program.Runs (.begin request, r) (⟨request, .returned id⟩, r'))
      (fun e r' => Call.program.Runs (.begin request, r) (⟨request, .refused e⟩, r')) := by
  refine ⟨?_, ?_, ?_, ?_, fun request => Call.runs_perform request r⟩
  · intro i j c d a b hc hd hname hdname ha hb
    exact hp.single.once hc hd hname hdname ha hb
  · intro i c hc hname hfinished
    cases hstage : c.stage with
    | checking => exact absurd hstage hfinished.1
    | registering => exact absurd hstage hfinished.2
    | returned id => exact .inl ⟨id, rfl⟩
    | refused e =>
      rw [((orderly_of_leads hp.leads).valid hc).refused hstage, hname]
      exact .inr rfl
  · intro i c id p' hc hname hreturned hleads
    have hheld := Pool.Leads.keeps hleads Held.after (hp.held hc hname hreturned)
    refine ⟨hheld.lookup, fun j d hd hdname hfinished hj => ?_⟩
    exact (hheld.others hd hdname hj).resolve_left hfinished.1
  · intro q q' i j c d hq hc hd hne hbetween hbetween' hleads c' d' hc' hd' hfinished hfinished'
    have hstage := (Call.isBetween_iff.1 hbetween).2
    have hstage' := (Call.isBetween_iff.1 hbetween').2
    obtain ⟨a, ha⟩ := returned_of_registering hleads hc hstage hc' hfinished
    obtain ⟨b, hb⟩ := returned_of_registering hleads hd hstage' hd' hfinished'
    exact ⟨a, b, ha, hb, (orderly_of_leads (hq.trans hleads)).apart hne hc' hd' a b ha hb⟩

/-- A run in which no two calls with the name are between their steps at the same time. -/
theorem leadsUnraced_of_afterAll [∀ q : Pool ι Registry Call, Decidable (Unraced name q)]
    {es : List (Pool.Event ι Call)} (h : Pool.afterAll Call.program p es = some p')
    (hunraced : ∀ n < es.length,
      (Pool.afterAll Call.program p (es.take n)).all (fun q => decide (Unraced name q)) = true) :
    LeadsUnraced name p p' := by
  induction es generalizing p with
  | nil =>
    obtain rfl := Option.some.inj h
    exact .refl
  | cons e rest ih =>
    have hhere : Unraced name p := of_decide_eq_true (hunraced 0 (Nat.succ_pos _))
    rw [Pool.afterAll] at h
    split at h
    · cases h
    · next p₁ hafter =>
      refine .head ⟨hhere, e, hafter⟩ (ih h fun n hn => ?_)
      have hrest := hunraced (n + 1) (Nat.succ_lt_succ hn)
      rw [List.take_succ_cons, Pool.afterAll, hafter] at hrest
      exact hrest

/-- Two calls for one name that do not overlap, and one for another name that overlaps with
both. -/
def queueing : List (Pool.Event (Fin 3) Call) :=
  [.enter 0 (.begin (.create "Point" none [])), .enter 1 (.begin (.createInteger "Tiny" 4)),
   .enter 2 (.begin (.createFloat "Point" 32)), .work 0, .work 1, .work 0, .work 2, .work 1]

def queued : Pool (Fin 3) Registry Call :=
  Pool.run Call.program (.idle initial) queueing

theorem declared_once_queued :
    LeadsUnraced "Point" (.idle initial) queued ∧
      queued.threads 0 = some ⟨.create "Point" none [], .returned 12⟩ ∧
      queued.threads 1 = some ⟨.createInteger "Tiny" 4, .returned 13⟩ ∧
      queued.threads 2 = some ⟨.createFloat "Point" 32, .refused (.duplicateType "Point")⟩ ∧
      ∀ p, Pool.Leads Call.program queued p → p.shared.lookup "Point" = some 12 := by
  have hafter : Pool.afterAll Call.program (.idle initial) queueing = some queued :=
    Pool.afterAll_eq_run (by decide +kernel)
  have hunraced : LeadsUnraced "Point" (.idle initial) queued :=
    leadsUnraced_of_afterAll hafter (by decide +kernel)
  have hfirst : queued.threads 0 = some ⟨.create "Point" none [], .returned 12⟩ := by
    decide +kernel
  refine ⟨hunraced, hfirst, by decide +kernel, by decide +kernel, fun p hp => ?_⟩
  exact ((declared_once hunraced).2.2.1 0 _ 12 p hfirst rfl rfl hp).1

/-- Two calls that check the name before either of them registers it. -/
def racing : List (Pool.Event (Fin 2) Call) :=
  [.enter 0 (.begin (.create "Point" none [])), .enter 1 (.begin (.create "Point" none [])),
   .work 0, .work 1, .work 0, .work 1]

def raced : Pool (Fin 2) Registry Call :=
  Pool.run Call.program (.idle initial) racing

/-- Both calls return, and the name leads to the type of the second one. -/
theorem declared_twice :
    Pool.Leads Call.program (.idle initial) raced ∧
      raced.threads 0 = some ⟨.create "Point" none [], .returned 12⟩ ∧
      raced.threads 1 = some ⟨.create "Point" none [], .returned 13⟩ ∧
      raced.shared.lookup "Point" = some 13 :=
  ⟨Pool.leads_run _ _ _, by decide +kernel, by decide +kernel, by decide +kernel⟩

end TypeLayer.Registry.Creating
