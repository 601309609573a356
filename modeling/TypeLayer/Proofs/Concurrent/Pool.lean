import Mathlib.Logic.Function.Basic
import Mathlib.Logic.Relation

/-!
# Threads that share a state

A pool is a number of threads at work on one state.  A `Program` says how they work: which
threads can begin, and what the next step of a thread does to the thread and to the state.  A
thread that has to wait, or is done, has no next step.  Threads begin at any time and take
their steps one at a time, in any order: `Leads` relates a pool to all that can become of it.

`Discipline` lists what has to be known of single steps.  A thread relies on a state that is
`Sound`, in which it is `Valid` itself, and on being `Apart` from each other thread; its step
must leave the state sound, itself valid, and every thread that it was apart from as it found
it.  Then all this holds of a pool at any time (`Discipline.orderly`).
-/

namespace TypeLayer

/-- How threads work on a state. -/
structure Program (σ θ : Type) where
  /-- The thread can begin. -/
  starts : θ → σ → Bool
  /-- The next step of a thread, if it has one. -/
  step : θ → σ → Option (θ × σ)

/-- A thread by itself goes from one state to the other. -/
abbrev Program.Runs {σ θ : Type} (P : Program σ θ) : θ × σ → θ × σ → Prop :=
  Relation.ReflTransGen fun s s' => P.step s.1 s.2 = some s'

/-- A shared state and the threads that have begun. -/
structure Pool (ι σ θ : Type) where
  shared : σ
  threads : ι → Option θ

namespace Pool

variable {ι σ θ : Type} [DecidableEq ι] {P : Program σ θ} {p p' : Pool ι σ θ}

/-- The pool in which no thread has begun. -/
def idle (s : σ) : Pool ι σ θ :=
  ⟨s, fun _ => none⟩

/-- The pool after the thread `i` came to be `t` and the shared state `s`. -/
def set (p : Pool ι σ θ) (i : ι) (t : θ) (s : σ) : Pool ι σ θ :=
  ⟨s, Function.update p.threads i (some t)⟩

theorem threads_set_self (p : Pool ι σ θ) (i : ι) (t : θ) (s : σ) :
    (p.set i t s).threads i = some t := by
  simp [set]

theorem threads_set_of_ne {i j : ι} (p : Pool ι σ θ) (t : θ) (s : σ) (h : j ≠ i) :
    (p.set i t s).threads j = p.threads j := by
  simp [set, h]

/-- A thread of the changed pool is the one that changed, or it was there before. -/
theorem threads_set_cases {i j : ι} {t u : θ} {s : σ} (h : (p.set i t s).threads j = some u) :
    j = i ∧ u = t ∨ j ≠ i ∧ p.threads j = some u := by
  by_cases hj : j = i
  · subst hj
    rw [threads_set_self] at h
    exact .inl ⟨rfl, (Option.some.inj h).symm⟩
  · rw [threads_set_of_ne _ _ _ hj] at h
    exact .inr ⟨hj, h⟩

/-! ## What can happen -/

inductive Event (ι θ : Type) where
  /-- A thread begins. -/
  | enter (i : ι) (t : θ)
  /-- A thread takes its next step. -/
  | work (i : ι)

/-- The pool after an event, if the event can happen. -/
def after (P : Program σ θ) (p : Pool ι σ θ) : Event ι θ → Option (Pool ι σ θ)
  | .enter i t =>
    if (p.threads i).isNone && P.starts t p.shared then some (p.set i t p.shared) else none
  | .work i =>
    match p.threads i with
    | none => none
    | some t => (P.step t p.shared).map fun (t, s) => p.set i t s

theorem after_cases {e : Event ι θ} (h : after P p e = some p') :
    (∃ i t, p.threads i = none ∧ P.starts t p.shared = true ∧ p' = p.set i t p.shared) ∨
      ∃ i t t' s, p.threads i = some t ∧ P.step t p.shared = some (t', s) ∧ p' = p.set i t' s := by
  cases e with
  | enter i t =>
    rw [after] at h
    split at h
    · next hstarts =>
      rw [Bool.and_eq_true, Option.isNone_iff_eq_none] at hstarts
      exact .inl ⟨i, t, hstarts.1, hstarts.2, (Option.some.inj h).symm⟩
    · cases h
  | work i =>
    rw [after] at h
    split at h
    · cases h
    · next t ht =>
      obtain ⟨⟨t', s⟩, hstep, rfl⟩ := Option.map_eq_some_iff.1 h
      exact .inr ⟨i, t, t', s, ht, hstep, rfl⟩

/-- An event leaves a thread as it is, or it is the next step of this thread. -/
theorem threads_after {e : Event ι θ} {i : ι} {t : θ} (h : after P p e = some p')
    (ht : p.threads i = some t) :
    p'.threads i = some t ∨ ∃ t', P.step t p.shared = some (t', p'.shared) ∧
      p'.threads i = some t' := by
  rcases after_cases h with ⟨j, u, hidle, -, rfl⟩ | ⟨j, u, u', s, hu, hstep, rfl⟩
  · have hne : i ≠ j := by
      rintro rfl
      cases ht.symm.trans hidle
    exact .inl ((threads_set_of_ne p u p.shared hne).trans ht)
  · by_cases hij : i = j
    · subst hij
      obtain rfl := Option.some.inj (ht.symm.trans hu)
      exact .inr ⟨u', hstep, threads_set_self p i u' s⟩
    · exact .inl ((threads_set_of_ne p u' s hij).trans ht)

/-- Some interleaving of the threads leads from one pool to the other. -/
abbrev Leads (P : Program σ θ) : Pool ι σ θ → Pool ι σ θ → Prop :=
  Relation.ReflTransGen fun p p' => ∃ e, after P p e = some p'

/-- What every event keeps, every interleaving keeps. -/
theorem Leads.keeps {I : Pool ι σ θ → Prop} (h : Leads P p p')
    (hafter : ∀ {p p' e}, I p → after P p e = some p' → I p') (hp : I p) : I p' := by
  induction h with
  | refl => exact hp
  | tail _ hstep ih =>
    obtain ⟨e, hstep⟩ := hstep
    exact hafter ih hstep

/-- The pool after a number of events, if they can happen one after the other. -/
def afterAll (P : Program σ θ) (p : Pool ι σ θ) : List (Event ι θ) → Option (Pool ι σ θ)
  | [] => some p
  | e :: rest =>
    match after P p e with
    | none => none
    | some p => afterAll P p rest

theorem leads_of_afterAll {es : List (Event ι θ)} (h : afterAll P p es = some p') :
    Leads P p p' := by
  induction es generalizing p with
  | nil =>
    obtain rfl := Option.some.inj h
    exact .refl
  | cons e rest ih =>
    unfold afterAll at h
    split at h
    · cases h
    · next hafter => exact .head ⟨e, hafter⟩ (ih h)

/-- The pool that a number of events lead to, or the pool as it is if they cannot happen. -/
def run (P : Program σ θ) (p : Pool ι σ θ) (es : List (Event ι θ)) : Pool ι σ θ :=
  (afterAll P p es).getD p

theorem afterAll_eq_run {es : List (Event ι θ)} (h : (afterAll P p es).isSome = true) :
    afterAll P p es = some (run P p es) := by
  obtain ⟨p', hp'⟩ := Option.isSome_iff_exists.1 h
  rw [run, hp']
  rfl

theorem leads_run (P : Program σ θ) (p : Pool ι σ θ) (es : List (Event ι θ)) :
    Leads P p (run P p es) := by
  unfold run
  cases h : afterAll P p es with
  | none => exact .refl
  | some p' => exact leads_of_afterAll h

/-! ## What single steps say of all interleavings -/

/-- What is known of the threads of a pool, one by one and in pairs. -/
structure Orderly (Sound : σ → Prop) (Valid : σ → θ → Prop) (Apart : θ → θ → Prop)
    (p : Pool ι σ θ) : Prop where
  sound : Sound p.shared
  valid : ∀ {i t}, p.threads i = some t → Valid p.shared t
  apart : ∀ {i j t u}, i ≠ j → p.threads i = some t → p.threads j = some u → Apart t u

/-- What is known of the steps of one thread. -/
structure Discipline (P : Program σ θ) (Sound : σ → Prop) (Valid : σ → θ → Prop)
    (Apart : θ → θ → Prop) : Prop where
  symm : ∀ {t u}, Apart t u → Apart u t
  enter : ∀ {s t}, Sound s → P.starts t s = true → Valid s t ∧ ∀ u, Apart t u
  work : ∀ {s s' t t'}, Sound s → Valid s t → P.step t s = some (t', s') →
    Sound s' ∧ Valid s' t' ∧ ∀ u, Valid s u → Apart t u → Valid s' u ∧ Apart t' u

section Discipline

variable {Sound : σ → Prop} {Valid : σ → θ → Prop} {Apart : θ → θ → Prop}

omit [DecidableEq ι] in
theorem orderly_idle {s : σ} (h : Sound s) :
    Orderly Sound Valid Apart (idle s : Pool ι σ θ) where
  sound := h
  valid h := by cases h
  apart _ h := by cases h

/-- A change of one thread leaves the pool in order, if the thread is valid afterwards, and
every other thread is valid still and apart from it. -/
theorem Orderly.set {i : ι} {t : θ} {s : σ} (h : Orderly Sound Valid Apart p)
    (hsymm : ∀ {t u}, Apart t u → Apart u t) (hs : Sound s) (ht : Valid s t)
    (hothers : ∀ {j u}, j ≠ i → p.threads j = some u → Valid s u ∧ Apart t u) :
    Orderly Sound Valid Apart (p.set i t s) where
  sound := hs
  valid hset := by
    rcases threads_set_cases hset with ⟨-, rfl⟩ | ⟨hj, hu⟩
    · exact ht
    · exact (hothers hj hu).1
  apart hne hset hset' := by
    rcases threads_set_cases hset with ⟨rfl, rfl⟩ | ⟨hj, hu⟩ <;>
      rcases threads_set_cases hset' with ⟨rfl, rfl⟩ | ⟨hk, hv⟩
    · exact absurd rfl hne
    · exact (hothers hk hv).2
    · exact hsymm (hothers hj hu).2
    · exact h.apart hne hu hv

theorem Discipline.after {e : Event ι θ} (hP : Discipline P Sound Valid Apart)
    (h : Orderly Sound Valid Apart p) (hafter : Pool.after P p e = some p') :
    Orderly Sound Valid Apart p' := by
  rcases after_cases hafter with ⟨i, t, -, hstarts, rfl⟩ | ⟨i, t, t', s, ht, hstep, rfl⟩
  · obtain ⟨hvalid, hapart⟩ := hP.enter h.sound hstarts
    exact h.set hP.symm h.sound hvalid fun _ hu => ⟨h.valid hu, hapart _⟩
  · obtain ⟨hsound, hvalid, hothers⟩ := hP.work h.sound (h.valid ht) hstep
    exact h.set hP.symm hsound hvalid fun hj hu => hothers _ (h.valid hu) (h.apart hj.symm ht hu)

/-- Threads that keep to the discipline leave the pool in order, however their steps are
interleaved. -/
theorem Discipline.orderly (hP : Discipline P Sound Valid Apart) (hleads : Leads P p p')
    (h : Orderly Sound Valid Apart p) : Orderly Sound Valid Apart p' :=
  Leads.keeps hleads hP.after h

end Discipline

end Pool

end TypeLayer
