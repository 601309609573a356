import TypeLayer.Nominal.Registry
import TypeLayer.Proofs.Outcome

/-!
# Contracts

A contract says what calls rely on, and what they promise in return: how the registry
has moved when a call returns, how it has moved when a call is refused, and at which
faults a call can be.  A promise about a sequence of calls follows from the promises of
its parts, because moves compose, and because what is relied on is still so after a move.

There is one rule for each way calls are put together.
-/

namespace TypeLayer.Registry

open TypeLayer.Action

variable {α β : Type} {r r' : Registry}

/-- What calls on a registry rely on, and what they promise. -/
structure Contract where
  /-- What a call relies on. -/
  relies : Registry → Prop
  /-- What a call that returns does to the registry. -/
  moves : Registry → Registry → Prop
  /-- What a call that is refused does to the registry. -/
  refuses : Registry → DatatypeError → Registry → Prop
  /-- The faults that a call can be at. -/
  faults : Fault → Prop
  refl : ∀ {r : Registry}, relies r → moves r r
  trans : ∀ {r r' r'' : Registry}, moves r r' → moves r' r'' → moves r r''
  relies_of_moves : ∀ {r r' : Registry}, relies r → moves r r' → relies r'
  refuses_of_moves : ∀ {r r' r'' : Registry} {e : DatatypeError}, moves r r' → refuses r' e r'' →
    refuses r e r''

namespace Contract

variable {c : Contract}

/-- From the registry, the call does what the contract promises, and a value that it
returns is as promised of the registry it leaves. -/
def Meets (c : Contract) (r : Registry) (x : Register α) (V : α → Registry → Prop) : Prop :=
  match x r with
  | .ok a r' => c.moves r r' ∧ V a r'
  | .error e r' => c.refuses r e r'
  | .fault f => c.faults f

section Rules

variable {x : Register α} {f : α → Register β} {V : α → Registry → Prop}
  {W : β → Registry → Prop} {a : α} {e : DatatypeError}

theorem Meets.ok (h : c.Meets r x V) (hrun : x r = .ok a r') : c.moves r r' ∧ V a r' := by
  unfold Meets at h
  rw [hrun] at h
  exact h

theorem Meets.error (h : c.Meets r x V) (hrun : x r = .error e r') : c.refuses r e r' := by
  unfold Meets at h
  rw [hrun] at h
  exact h

theorem Meets.fault {fault : Fault} (h : c.Meets r x V) (hrun : x r = .fault fault) :
    c.faults fault := by
  unfold Meets at h
  rw [hrun] at h
  exact h

theorem meets_iff : c.Meets r x V ↔
    (∀ a r', x r = .ok a r' → c.moves r r' ∧ V a r') ∧
      (∀ e r', x r = .error e r' → c.refuses r e r') ∧
        ∀ fault, x r = .fault fault → c.faults fault := by
  refine ⟨fun h => ⟨fun _ _ => h.ok, fun _ _ => h.error, fun _ => h.fault⟩, fun h => ?_⟩
  unfold Meets
  cases hrun : x r with
  | ok a r' => exact h.1 a r' hrun
  | error e r' => exact h.2.1 e r' hrun
  | fault fault => exact h.2.2 fault hrun

theorem meets_pure (hr : c.relies r) (ha : V a r) : c.Meets r (pure a) V :=
  ⟨c.refl hr, ha⟩

theorem meets_fail (he : c.refuses r e r) : c.Meets r (fail e) V :=
  he

theorem meets_fault {fault : Fault} (h : c.faults fault) : c.Meets r (fun _ => .fault fault) V :=
  h

theorem meets_modify {change : Registry → Registry} {V : Unit → Registry → Prop}
    (h : c.moves r (change r)) (hV : V () (change r)) : c.Meets r (modify change) V :=
  ⟨h, hV⟩

theorem Meets.outcome (hx : c.Meets r x V) :
    (x r).Meets (fun a r' => c.moves r r' ∧ V a r') (c.refuses r) := by
  cases hrun : x r with
  | ok a r' => exact hx.ok hrun
  | error e r' => exact hx.error hrun
  | fault fault => trivial

theorem Meets.returns (hx : c.Meets r x V) (hfaults : ∀ fault, ¬ c.faults fault) :
    (x r).Returns := by
  cases hrun : x r with
  | ok a r' => exact Outcome.returns_ok a r'
  | error e r' => exact Outcome.returns_error e r'
  | fault fault => exact absurd (hx.fault hrun) (hfaults fault)

/-- What is promised however a call comes back holds of the registry that it leaves. -/
theorem Meets.state {P : Registry → Prop} (hx : c.Meets r x V)
    (hmoves : ∀ r', c.moves r r' → P r') (hrefuses : ∀ e r', c.refuses r e r' → P r')
    (hrun : (x r).state? = some r') : P r' :=
  Outcome.meets_state_iff.1 (hx.outcome.mono (fun _ r' h => hmoves r' h.1) hrefuses) r' hrun

theorem Meets.mono {V' : α → Registry → Prop} (hx : c.Meets r x V)
    (hV : ∀ a r', c.moves r r' → V a r' → V' a r') : c.Meets r x V' := by
  refine meets_iff.2 ⟨fun a r' hrun => ?_, fun _ _ => hx.error, fun _ => hx.fault⟩
  obtain ⟨hmoves, ha⟩ := hx.ok hrun
  exact ⟨hmoves, hV a r' hmoves ha⟩

/-- What a call does from the registry is all that matters. -/
theorem Meets.congr {y : Register α} (hy : c.Meets r y V) (h : x r = y r) : c.Meets r x V := by
  unfold Meets
  rw [h]
  exact hy

/-- A call that meets one contract meets another that asks for less. -/
theorem Meets.under {c' : Contract} (hx : c.Meets r x V)
    (hmoves : ∀ r', c.moves r r' → c'.moves r r')
    (hrefuses : ∀ e r', c.refuses r e r' → c'.refuses r e r')
    (hfaults : ∀ fault, c.faults fault → c'.faults fault) : c'.Meets r x V := by
  refine meets_iff.2 ⟨fun a r' hrun => ?_, fun e r' hrun => ?_, fun fault hrun => ?_⟩
  · exact ⟨hmoves r' (hx.ok hrun).1, (hx.ok hrun).2⟩
  · exact hrefuses e r' (hx.error hrun)
  · exact hfaults fault (hx.fault hrun)

/-- The second call starts where the first one leads. -/
theorem Meets.bind (hx : c.Meets r x V)
    (hf : ∀ a r', c.moves r r' → V a r' → c.Meets r' (f a) W) : c.Meets r (x >>= f) W := by
  unfold Meets
  rw [bind_apply]
  cases hrun : x r with
  | ok a r' =>
    obtain ⟨hmoves, ha⟩ := hx.ok hrun
    have hfa := hf a r' hmoves ha
    dsimp only
    cases hrun' : f a r' with
    | ok b r'' =>
      obtain ⟨hmoves', hb⟩ := hfa.ok hrun'
      exact ⟨c.trans hmoves hmoves', hb⟩
    | error e r'' => exact c.refuses_of_moves hmoves (hfa.error hrun')
    | fault fault => exact hfa.fault hrun'
  | error e r' => exact hx.error hrun
  | fault fault => exact hx.fault hrun

theorem meets_read_bind {q : Registry → Except Fault α}
    (hfault : ∀ fault, q r = .error fault → c.faults fault)
    (h : ∀ a, q r = .ok a → c.Meets r (f a) W) : c.Meets r (read q >>= f) W := by
  unfold Meets at h ⊢
  rw [bind_apply, Action.read]
  cases hq : q r with
  | ok a => exact h a hq
  | error fault => exact hfault fault hq

theorem meets_query_bind {q : Registry → Ask α}
    (hrefused : ∀ e, q r = Query.fail e → c.refuses r e r)
    (hfault : ∀ fault, q r = .error (.fault fault) → c.faults fault)
    (h : ∀ a, q r = .ok a → c.Meets r (f a) W) : c.Meets r (query q >>= f) W := by
  unfold Meets at h ⊢
  rw [bind_apply, Action.query]
  cases hq : q r with
  | ok a => exact h a hq
  | error failure =>
    cases failure with
    | error e => exact hrefused e hq
    | fault fault => exact hfault fault hq

theorem meets_get_bind {f : Registry → Register β} (h : c.Meets r (f r) W) :
    c.Meets r (Action.get >>= f) W :=
  h

end Rules

end Contract

end TypeLayer.Registry
