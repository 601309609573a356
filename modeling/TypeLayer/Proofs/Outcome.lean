import TypeLayer.Outcome

/-!
# What calls promise

`Outcome.Meets Q E` says what is known of a call that came back: `Q` of its value
and state if it returned, `E` of its error and state if it was refused.  A call
at fault promises nothing, since it leaves no state.  The lemmas below give one
rule for each way calls are put together; with them, the promise of a call is
proved from the promises of its parts.

`Outcome.state?` is the state that a call leaves, and `Outcome.Returns` says that
there is one; `Outcome.value?` is the value that it returns, and `Outcome.result?` the
value or the error, without the state.  `Action.Keeps` is the
promise that a call, however it came back, leaves a state with a given property;
`Action.Yields` adds a promise of the value that it returns.

`Outcome.Alongside` compares two calls that end in the same way, and has its own rules
for calls that are put together in the same way.
-/

namespace TypeLayer

namespace Outcome

variable {σ τ ε α β : Type}

/-- The state a call leaves, if it comes back. -/
def state? : Outcome σ ε α → Option σ
  | .ok _ s => some s
  | .error _ s => some s
  | .fault _ => none

@[simp] theorem state?_ok (a : α) (s : σ) : (ok a s : Outcome σ ε α).state? = some s :=
  rfl

@[simp] theorem state?_error (e : ε) (s : σ) : (error e s : Outcome σ ε α).state? = some s :=
  rfl

@[simp] theorem state?_fault (f : Fault) : (fault f : Outcome σ ε α).state? = none :=
  rfl

/-- The value a call returns, if it returns one. -/
def value? : Outcome σ ε α → Option α
  | .ok a _ => some a
  | .error _ _ | .fault _ => none

theorem exists_ok {o : Outcome σ ε α} {a : α} (h : o.value? = some a) : ∃ s, o = .ok a s := by
  cases o with
  | ok b s =>
    cases h
    exact ⟨s, rfl⟩
  | error e s => cases h
  | fault f => cases h

theorem eq_ok {o : Outcome σ ε α} {a : α} {s : σ} (ha : o.value? = some a)
    (hs : o.state? = some s) : o = .ok a s := by
  obtain ⟨s', rfl⟩ := exists_ok ha
  obtain rfl := Option.some.inj hs
  rfl

theorem exists_ok_of_isSome {o : Outcome σ ε α} (h : o.value?.isSome = true) :
    ∃ a s, o = .ok a s := by
  obtain ⟨a, ha⟩ := Option.isSome_iff_exists.1 h
  exact ⟨a, exists_ok ha⟩

/-- The value that a call returns, or the error with which it is refused. -/
def result? : Outcome σ ε α → Option (Except ε α)
  | .ok a _ => some (.ok a)
  | .error e _ => some (.error e)
  | .fault _ => none

theorem result?_eq_error_iff {o : Outcome σ ε α} {e : ε} :
    o.result? = some (.error e) ↔ ∃ s, o = .error e s := by
  cases o <;> simp [result?]

/-- The call comes back. -/
def Returns (o : Outcome σ ε α) : Prop :=
  ∃ s, o.state? = some s

theorem returns_ok (a : α) (s : σ) : (ok a s : Outcome σ ε α).Returns :=
  ⟨s, rfl⟩

theorem returns_error (e : ε) (s : σ) : (error e s : Outcome σ ε α).Returns :=
  ⟨s, rfl⟩

theorem Returns.exists_result {o : Outcome σ ε α} (h : o.Returns) :
    ∃ result, o.result? = some result := by
  obtain ⟨s, hs⟩ := h
  cases o with
  | ok a s => exact ⟨.ok a, rfl⟩
  | error e s => exact ⟨.error e, rfl⟩
  | fault f => cases hs

/-- The call keeps its promise: `Q` where it returned, `E` where it was
refused. -/
def Meets (Q : α → σ → Prop) (E : ε → σ → Prop) : Outcome σ ε α → Prop
  | .ok a s => Q a s
  | .error e s => E e s
  | .fault _ => True

variable {Q Q' : α → σ → Prop} {E E' : ε → σ → Prop} {P : σ → Prop}

theorem Meets.mono {o : Outcome σ ε α} (h : o.Meets Q E) (hQ : ∀ a s, Q a s → Q' a s)
    (hE : ∀ e s, E e s → E' e s) : o.Meets Q' E' := by
  cases o with
  | ok a s => exact hQ a s h
  | error e s => exact hE e s h
  | fault f => trivial

/-- Two promises of one call are one. -/
theorem Meets.and {o : Outcome σ ε α} (h : o.Meets Q E) (h' : o.Meets Q' E') :
    o.Meets (fun a s => Q a s ∧ Q' a s) (fun e s => E e s ∧ E' e s) := by
  cases o with
  | ok a s => exact ⟨h, h'⟩
  | error e s => exact ⟨h, h'⟩
  | fault f => trivial

/-- A promise that does not depend on how the call came back is a promise of the
state it leaves. -/
theorem meets_state_iff {o : Outcome σ ε α} :
    o.Meets (fun _ => P) (fun _ => P) ↔ ∀ s, o.state? = some s → P s := by
  cases o <;> simp [Meets]

end Outcome

namespace Action

open Outcome

variable {σ τ ε α β : Type} {P : σ → Prop} {E : ε → σ → Prop}

/-! ## Rules -/

/-- The second call starts from what the first one promises. -/
theorem meets_bind {x : Action σ ε α} {f : α → Action σ ε β} {s : σ} {Q : α → σ → Prop}
    {R : β → σ → Prop} (hx : (x s).Meets Q E) (hf : ∀ a s', Q a s' → (f a s').Meets R E) :
    ((x >>= f) s).Meets R E := by
  rw [bind_apply]
  cases hxs : x s with
  | ok a s' =>
    rw [hxs] at hx
    exact hf a s' hx
  | error e s' =>
    rw [hxs] at hx
    exact hx
  | fault f => trivial

/-- A question leaves the state alone. -/
theorem meets_read {q : σ → Except Fault α} {s : σ} {Q : α → σ → Prop}
    (h : ∀ a, q s = .ok a → Q a s) : ((read q : Action σ ε α) s).Meets Q E := by
  unfold read
  cases hq : q s with
  | ok a => exact h a hq
  | error f => trivial

/-- What follows a question starts from its answer. -/
theorem meets_read_bind {q : σ → Except Fault α} {f : α → Action σ ε β} {s : σ}
    {R : β → σ → Prop} (h : ∀ a, q s = .ok a → (f a s).Meets R E) :
    ((read q >>= f) s).Meets R E := by
  refine meets_bind (Q := fun a s' => q s = .ok a ∧ s' = s) (meets_read fun a ha => ⟨ha, rfl⟩) ?_
  intro a s' ha
  obtain ⟨ha, rfl⟩ := ha
  exact h a ha

/-- A call on a part of the state keeps its promise about that part. -/
theorem meets_zoom {part : σ → τ} {put : τ → σ → σ} {x : Action τ ε α} {s : σ}
    {Q : α → σ → Prop} (h : (x (part s)).Meets (fun a t => Q a (put t s))
      (fun e t => E e (put t s))) : ((zoom part put x : Action σ ε α) s).Meets Q E := by
  unfold zoom
  cases hx : x (part s) with
  | ok a t =>
    rw [hx] at h
    exact h
  | error e t =>
    rw [hx] at h
    exact h
  | fault f => trivial

theorem returns_bind {x : Action σ ε α} {f : α → Action σ ε β} {s : σ} (hx : (x s).Returns)
    (hf : ∀ a s', x s = .ok a s' → (f a s').Returns) : ((x >>= f) s).Returns := by
  rw [bind_apply]
  cases hxs : x s with
  | ok a s' => exact hf a s' hxs
  | error e s' => exact returns_error e s'
  | fault f =>
    rw [hxs] at hx
    obtain ⟨s', hs'⟩ := hx
    cases hs'

theorem returns_read_bind {q : σ → Except Fault α} {f : α → Action σ ε β} {s : σ} {a : α}
    (hq : q s = .ok a) (hf : (f a s).Returns) : ((read q >>= f) s).Returns := by
  rw [bind_apply, read, hq]
  exact hf

theorem returns_zoom {part : σ → τ} {put : τ → σ → σ} {x : Action τ ε α} {s : σ}
    (h : (x (part s)).Returns) : ((zoom part put x : Action σ ε α) s).Returns := by
  unfold zoom
  cases hx : x (part s) with
  | ok a t => exact returns_ok a _
  | error e t => exact returns_error e _
  | fault f =>
    rw [hx] at h
    obtain ⟨t, ht⟩ := h
    cases ht

/-! ## Calls that returned -/

theorem bind_eq_ok_iff {x : Action σ ε α} {f : α → Action σ ε β} {s s'' : σ} {b : β} :
    (x >>= f) s = .ok b s'' ↔ ∃ a s', x s = .ok a s' ∧ f a s' = .ok b s'' := by
  rw [bind_apply]
  cases x s <;> simp [and_assoc]

theorem read_eq_ok_iff {q : σ → Except Fault α} {s s' : σ} {a : α} :
    (read q : Action σ ε α) s = .ok a s' ↔ q s = .ok a ∧ s' = s := by
  unfold read
  cases q s <;> simp [eq_comm]

theorem zoom_eq_ok_iff {part : σ → τ} {put : τ → σ → σ} {x : Action τ ε α} {s s' : σ} {a : α} :
    (zoom part put x : Action σ ε α) s = .ok a s' ↔ ∃ t, x (part s) = .ok a t ∧ s' = put t s := by
  unfold zoom
  cases x (part s) <;> simp [eq_comm, and_assoc]

/-! ## Kept properties -/

/-- However the call comes back, the property still holds. -/
def Keeps (P : σ → Prop) (x : Action σ ε α) : Prop :=
  ∀ s, P s → (x s).Meets (fun _ => P) (fun _ => P)

theorem keeps_pure (a : α) : Keeps P (pure a : Action σ ε α) :=
  fun _ hs => hs

theorem keeps_fail (e : ε) : Keeps P (fail e : Action σ ε α) :=
  fun _ hs => hs

theorem keeps_get : Keeps P (get : Action σ ε σ) :=
  fun _ hs => hs

theorem keeps_read (q : σ → Except Fault α) : Keeps P (read q : Action σ ε α) :=
  fun _ hs => meets_read fun _ _ => hs

theorem keeps_query (q : σ → Query ε α) : Keeps P (query q : Action σ ε α) := by
  intro s hs
  unfold query
  split
  · exact hs
  · exact hs
  · trivial

theorem keeps_modify {f : σ → σ} (h : ∀ s, P s → P (f s)) :
    Keeps P (modify f : Action σ ε Unit) :=
  h

theorem Keeps.bind {x : Action σ ε α} {f : α → Action σ ε β} (hx : Keeps P x)
    (hf : ∀ a, Keeps P (f a)) : Keeps P (x >>= f) :=
  fun s hs => meets_bind (hx s hs) fun a s' hs' => hf a s' hs'

theorem Keeps.zoom {part : σ → τ} {put : τ → σ → σ} {P : τ → Prop} {x : Action τ ε α}
    (hput : ∀ t s, part (put t s) = t) (hx : Keeps P x) :
    Keeps (fun s => P (part s)) (zoom part put x) := by
  intro s hs
  refine meets_zoom ((hx (part s) hs).mono ?_ ?_)
  · intro _ t ht
    rw [hput]
    exact ht
  · intro _ t ht
    rw [hput]
    exact ht

theorem Keeps.state {x : Action σ ε α} (hx : Keeps P x) {s s' : σ} (hs : P s)
    (h : (x s).state? = some s') : P s' :=
  meets_state_iff.1 (hx s hs) s' h

/-! ## Kept properties and returned values -/

/-- However the call comes back, the property still holds, and a value that it
returns is as promised. -/
def Yields (P : σ → Prop) (V : α → Prop) (x : Action σ ε α) : Prop :=
  ∀ s, P s → (x s).Meets (fun a s' => P s' ∧ V a) (fun _ => P)

variable {V : α → Prop} {W : β → Prop}

theorem Keeps.yields {x : Action σ ε α} (hx : Keeps P x) : Yields P (fun _ => True) x :=
  fun s hs => (hx s hs).mono (fun _ _ h => ⟨h, trivial⟩) (fun _ _ h => h)

theorem Yields.keeps {x : Action σ ε α} (hx : Yields P V x) : Keeps P x :=
  fun s hs => (hx s hs).mono (fun _ _ h => h.1) (fun _ _ h => h)

theorem yields_pure {a : α} (ha : V a) : Yields P V (pure a : Action σ ε α) :=
  fun _ hs => ⟨hs, ha⟩

theorem yields_fail (e : ε) : Yields P V (fail e : Action σ ε α) :=
  fun _ hs => hs

theorem Yields.bind {x : Action σ ε α} {f : α → Action σ ε β} (hx : Yields P V x)
    (hf : ∀ a, V a → Yields P W (f a)) : Yields P W (x >>= f) :=
  fun s hs => meets_bind (hx s hs) fun a s' hs' => hf a hs'.2 s' hs'.1

theorem Yields.mapM {f : α → Action σ ε β} {xs : List α} (hf : ∀ a ∈ xs, Yields P W (f a)) :
    Yields P (fun bs : List β => ∀ b ∈ bs, W b) (xs.mapM f) := by
  induction xs with
  | nil =>
    rw [List.mapM_nil]
    exact yields_pure fun b hb => nomatch hb
  | cons x xs ih =>
    rw [List.mapM_cons]
    refine (hf x List.mem_cons_self).bind fun b hb => ?_
    refine (ih fun a ha => hf a (List.mem_cons_of_mem _ ha)).bind fun bs hbs => ?_
    exact yields_pure (List.forall_mem_cons.2 ⟨hb, hbs⟩)

theorem Keeps.mapM {f : α → Action σ ε β} {xs : List α} (hf : ∀ a ∈ xs, Keeps P (f a)) :
    Keeps P (xs.mapM f) :=
  (Yields.mapM fun a ha => (hf a ha).yields).keeps

end Action

/-! ## Two calls side by side -/

/-- Two calls end in the same way: both return, with values and states that are related, or
both are refused, with errors and states that are related, or both are at fault. -/
inductive Outcome.Alongside {σ τ ε δ α β : Type} (S : σ → τ → Prop) (E : ε → δ → Prop)
    (V : α → β → Prop) : Outcome σ ε α → Outcome τ δ β → Prop
  | ok {a : α} {b : β} {s : σ} {t : τ} (value : V a b) (state : S s t) :
    Alongside S E V (.ok a s) (.ok b t)
  | error {e : ε} {d : δ} {s : σ} {t : τ} (cause : E e d) (state : S s t) :
    Alongside S E V (.error e s) (.error d t)
  | fault (f f' : Fault) : Alongside S E V (.fault f) (.fault f')

theorem Outcome.Alongside.mono {σ τ ε δ α β : Type} {S : σ → τ → Prop} {E E' : ε → δ → Prop}
    {V V' : α → β → Prop} {o : Outcome σ ε α} {o' : Outcome τ δ β} (h : Alongside S E V o o')
    (hE : ∀ e d, E e d → E' e d) (hV : ∀ a b, V a b → V' a b) : Alongside S E' V' o o' := by
  cases h with
  | ok hvalue hstate => exact .ok (hV _ _ hvalue) hstate
  | error hcause hstate => exact .error (hE _ _ hcause) hstate
  | fault f f' => exact .fault f f'

theorem Outcome.Alongside.result?_eq {σ τ ε α : Type} {S : σ → τ → Prop} {V : α → α → Prop}
    {o : Outcome σ ε α} {o' : Outcome τ ε α} (h : Alongside S Eq V o o')
    (hV : ∀ a b, V a b → a = b) : o.result? = o'.result? := by
  cases h with
  | ok hvalue _ => rw [result?, result?, hV _ _ hvalue]
  | error hcause _ => rw [result?, result?, hcause]
  | fault => rfl

namespace Action

open Outcome

variable {σ τ ε δ α β α' β' : Type} {S : σ → τ → Prop} {E : ε → δ → Prop} {V : α → β → Prop}
  {W : α' → β' → Prop} {f : α → Action σ ε α'} {g : β → Action τ δ β'} {s : σ} {t : τ}

theorem alongside_bind {x : Action σ ε α} {y : Action τ δ β}
    (h : Alongside S E V (x s) (y t))
    (hfg : ∀ a b s' t', V a b → S s' t' → Alongside S E W (f a s') (g b t')) :
    Alongside S E W ((x >>= f) s) ((y >>= g) t) := by
  rw [bind_apply, bind_apply]
  generalize x s = o, y t = o' at h
  cases h with
  | ok hvalue hstate => exact hfg _ _ _ _ hvalue hstate
  | error hcause hstate => exact .error hcause hstate
  | fault fault fault' => exact .fault fault fault'

theorem alongside_read_bind {p : σ → Except Fault α} {q : τ → Except Fault β} {a : α} {b : β}
    (hp : p s = .ok a) (hq : q t = .ok b) (h : Alongside S E W (f a s) (g b t)) :
    Alongside S E W ((read p >>= f) s) ((read q >>= g) t) := by
  rw [bind_apply, bind_apply, read, read, hp, hq]
  exact h

theorem alongside_query_bind {p : σ → Query ε α} {q : τ → Query δ β} {a : α} {b : β}
    (hp : p s = .ok a) (hq : q t = .ok b) (h : Alongside S E W (f a s) (g b t)) :
    Alongside S E W ((query p >>= f) s) ((query q >>= g) t) := by
  rw [bind_apply, bind_apply, query, query, hp, hq]
  exact h

theorem alongside_refused_bind {p : σ → Query ε α} {q : τ → Query δ β} {e : ε} {d : δ}
    (hp : p s = Query.fail e) (hq : q t = Query.fail d) (hcause : E e d) (hstate : S s t) :
    Alongside S E W ((query p >>= f) s) ((query q >>= g) t) := by
  rw [bind_apply, bind_apply, query, query, hp, hq]
  exact .error hcause hstate

end Action

end TypeLayer
