import TypeLayer.Application

/-!
# Structural types

A structural type is an unknown or a constructor applied to types.  Two of them
are the same type when they are equal as trees.  A scheme is a type with some of
its unknowns quantified.
-/

namespace TypeLayer

/-- The number of an unknown. -/
abbrev TyVar := Nat

inductive Ty where
  | var (v : TyVar)
  | con (name : String) (args : List Ty)
deriving Repr, Inhabited

namespace Ty

mutual
/-- Equality of types is decided on the trees. -/
def decEq : (a b : Ty) → Decidable (a = b)
  | .var v, .var w => if h : v = w then isTrue (by rw [h]) else isFalse (by simpa using h)
  | .con c as, .con d bs =>
    if h : c = d then
      match decEqAll as bs with
      | isTrue h' => isTrue (by rw [h, h'])
      | isFalse h' => isFalse (by simp [h'])
    else isFalse (by simp [h])
  | .var _, .con _ _ => isFalse (by simp)
  | .con _ _, .var _ => isFalse (by simp)
def decEqAll : (as bs : List Ty) → Decidable (as = bs)
  | [], [] => isTrue rfl
  | a :: as, b :: bs =>
    match decEq a b, decEqAll as bs with
    | isTrue h, isTrue h' => isTrue (by rw [h, h'])
    | isFalse h, _ => isFalse (by simp [h])
    | _, isFalse h => isFalse (by simp [h])
  | [], _ :: _ => isFalse (by simp)
  | _ :: _, [] => isFalse (by simp)
end

instance : DecidableEq Ty :=
  decEq

/-- To prove something of all types, prove it of the unknowns, and of an
application from its arguments. -/
@[elab_as_elim]
theorem induction_on {motive : Ty → Prop} (var : ∀ v, motive (.var v))
    (con : ∀ name args, (∀ a ∈ args, motive a) → motive (.con name args)) (t : Ty) : motive t :=
  @Ty.rec motive (fun args => ∀ a ∈ args, motive a) var con (by simp)
    (fun _ _ ha has => by simpa using ⟨ha, has⟩) t

/-! ## Constructions -/

def arrow (domain codomain : Ty) : Ty :=
  .con arrowName [domain, codomain]

def tuple (items : List Ty) : Ty :=
  .con tupleName items

def unit : Ty :=
  tuple []

def int : Ty :=
  .con "Int" []

def float : Ty :=
  .con "Float" []

def bool : Ty :=
  .con "Bool" []

/-- The type of a function that takes its arguments one by one. Without
arguments it takes the unit value. -/
def curried (domains : List Ty) (codomain : Ty) : Ty :=
  match domains with
  | [] => arrow unit codomain
  | domains => domains.foldr arrow codomain

/-- Domain and codomain of an arrow. -/
def asArrow? : Ty → Option (Ty × Ty)
  | .con name [domain, codomain] => if name = arrowName then some (domain, codomain) else none
  | _ => none

def asVar? : Ty → Option TyVar
  | .var v => some v
  | .con _ _ => none

/-! ## Unknowns -/

mutual
/-- The unknowns of a type from left to right, with repetitions. -/
def occurrences : Ty → List TyVar
  | .var v => [v]
  | .con _ args => occurrencesAll args
def occurrencesAll : List Ty → List TyVar
  | [] => []
  | a :: rest => occurrences a ++ occurrencesAll rest
end

theorem occurrencesAll_eq_flatMap (ts : List Ty) :
    occurrencesAll ts = ts.flatMap occurrences := by
  induction ts with
  | nil => rfl
  | cons t rest ih => simp [occurrencesAll, ih]

/-- The unknowns of a type, each once, in the order of first occurrence. -/
def vars (t : Ty) : List TyVar :=
  t.occurrences.eraseDups

/-! ## Written form -/

/-- The written form of an unknown. -/
def varName (v : TyVar) : String :=
  "t" ++ v.repr

mutual
/-- The type as text. Arrows are always parenthesized. -/
def render : Ty → String
  | .var v => varName v
  | .con name args => Application.written name (renderAll args)
def renderAll : List Ty → List String
  | [] => []
  | a :: rest => render a :: renderAll rest
end

theorem renderAll_eq_map (ts : List Ty) : renderAll ts = ts.map render := by
  induction ts with
  | nil => rfl
  | cons t rest ih => simp [renderAll, ih]

end Ty

/-! ## Schemes -/

/-- A type of which every instance of the quantified unknowns may be used. -/
structure Scheme where
  vars : List TyVar
  ty : Ty
deriving Repr, DecidableEq, Inhabited

namespace Scheme

/-- The scheme that quantifies nothing. -/
def mono (t : Ty) : Scheme :=
  ⟨[], t⟩

def render (s : Scheme) : String :=
  if s.vars.isEmpty then s.ty.render
  else "forall " ++ " ".intercalate (s.vars.map Ty.varName) ++ ". " ++ s.ty.render

end Scheme

end TypeLayer
