/-!
# How calls end

A call on a piece of state ends in one of three ways.  It returns a value.  It
is refused with an error, and what it did to the state until then stays done.
Or it is at fault: the caller passed a number that names nothing, or asked for
something that has no end; then there is no state to go on with.
-/

namespace TypeLayer

/-- Misuse of the library, after which nothing can be said of the state. -/
inductive Fault where
  /-- An unknown that was never created. -/
  | unknownVariable (v : Nat)
  /-- A value that its function does not have. -/
  | unknownValue (v : Nat)
  /-- A block that its function does not have. -/
  | unknownBlock (b : Nat)
  /-- A nominal type, or a family of them, that the registry does not have. -/
  | unknownType (id : Nat)
  /-- A parameter that a nominal type of its kind should have and does not. -/
  | missingParameter
  /-- A recursion that does not end. -/
  | endless
deriving Repr, DecidableEq

/-- Why a question has no answer. -/
inductive Failure (ε : Type) where
  | error (cause : ε)
  | fault (f : Fault)
deriving Repr, DecidableEq

/-- A question about a state that leaves it alone. -/
abbrev Query (ε α : Type) :=
  Except (Failure ε) α

namespace Query

variable {ε α : Type}

def fail (cause : ε) : Query ε α :=
  .error (.error cause)

/-- A question that can only be at fault. -/
def ofExcept (x : Except Fault α) : Query ε α :=
  x.mapError .fault

end Query

/-- The end of a call, with the state after it. -/
inductive Outcome (σ ε α : Type) where
  | ok (value : α) (state : σ)
  | error (cause : ε) (state : σ)
  | fault (f : Fault)
deriving Repr, DecidableEq

/-- A call on a state. -/
def Action (σ ε α : Type) :=
  σ → Outcome σ ε α

namespace Action

variable {σ ε α β : Type}

@[inline] protected def pure (a : α) : Action σ ε α :=
  fun s => .ok a s

/-- The second call takes up the state where the first one left it. -/
@[inline] protected def bind (x : Action σ ε α) (f : α → Action σ ε β) : Action σ ε β :=
  fun s => match x s with
    | .ok a s => f a s
    | .error e s => .error e s
    | .fault f => .fault f

instance : Monad (Action σ ε) where
  pure := Action.pure
  bind := Action.bind

@[simp] theorem pure_apply (a : α) (s : σ) : (pure a : Action σ ε α) s = .ok a s :=
  rfl

theorem bind_apply (x : Action σ ε α) (f : α → Action σ ε β) (s : σ) :
    (x >>= f) s = match x s with
      | .ok a s => f a s
      | .error e s => .error e s
      | .fault f => .fault f :=
  rfl

instance : LawfulMonad (Action σ ε) :=
  LawfulMonad.mk' _
    (fun x => by
      funext s
      simp only [Functor.map, Action.bind, Function.comp]
      cases x s <;> rfl)
    (fun _ _ => rfl)
    (fun x f g => by
      funext s
      simp only [bind, Action.bind]
      cases x s <;> rfl)

/-- Refuses, leaving the state as it is. -/
@[inline] def fail (cause : ε) : Action σ ε α :=
  fun s => .error cause s

@[inline] def get : Action σ ε σ :=
  fun s => .ok s s

@[inline] def set (s : σ) : Action σ ε Unit :=
  fun _ => .ok () s

@[inline] def modify (f : σ → σ) : Action σ ε Unit :=
  fun s => .ok () (f s)

/-- Asks a question that can only be at fault. -/
@[inline] def read (question : σ → Except Fault α) : Action σ ε α :=
  fun s => match question s with
    | .ok a => .ok a s
    | .error f => .fault f

/-- Asks a question. -/
@[inline] def query (question : σ → Query ε α) : Action σ ε α :=
  fun s => match question s with
    | .ok a => .ok a s
    | .error (.error cause) => .error cause s
    | .error (.fault f) => .fault f

@[simp] theorem fail_apply (cause : ε) (s : σ) :
    (fail cause : Action σ ε α) s = .error cause s :=
  rfl

@[simp] theorem get_apply (s : σ) : (get : Action σ ε σ) s = .ok s s :=
  rfl

@[simp] theorem set_apply (s s' : σ) : (set s' : Action σ ε Unit) s = .ok () s' :=
  rfl

@[simp] theorem modify_apply (f : σ → σ) (s : σ) :
    (modify f : Action σ ε Unit) s = .ok () (f s) :=
  rfl

/-- Runs a call on a part of the state. -/
@[inline] def zoom {τ : Type} (part : σ → τ) (put : τ → σ → σ) (x : Action τ ε α) :
    Action σ ε α :=
  fun s => match x (part s) with
    | .ok a t => .ok a (put t s)
    | .error e t => .error e (put t s)
    | .fault f => .fault f

end Action

end TypeLayer
