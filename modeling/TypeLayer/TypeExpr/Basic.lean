import TypeLayer.Application
import TypeLayer.Source.Span

/-!
# Type expressions

The tree of a type as it was written: each node has a name, its arguments, and
the span it was read from.  A node is either a type parameter or a constructor.
Nothing keeps a parameter from having arguments; the conversions reject that.
-/

namespace TypeLayer

structure TypeExpr where
  name : String
  params : List TypeExpr
  /-- Whether the name is a type parameter, and not a constructor. -/
  parameter : Bool
  span : Span
deriving Repr, Inhabited

namespace TypeExpr

mutual
/-- Equality of type expressions, spans included, is decided on the trees. -/
def decEq : (a b : TypeExpr) → Decidable (a = b)
  | ⟨name, params, parameter, span⟩, ⟨name', params', parameter', span'⟩ =>
    if h : name = name' ∧ parameter = parameter' ∧ span = span' then
      match decEqAll params params' with
      | isTrue h' => isTrue (by rw [h.1, h.2.1, h.2.2, h'])
      | isFalse h' => isFalse (by simp [h'])
    else isFalse (by simp only [mk.injEq]; exact fun e => h ⟨e.1, e.2.2.1, e.2.2.2⟩)
def decEqAll : (as bs : List TypeExpr) → Decidable (as = bs)
  | [], [] => isTrue rfl
  | a :: as, b :: bs =>
    match decEq a b, decEqAll as bs with
    | isTrue h, isTrue h' => isTrue (by rw [h, h'])
    | isFalse h, _ => isFalse (by simp [h])
    | _, isFalse h => isFalse (by simp [h])
  | [], _ :: _ => isFalse (by simp)
  | _ :: _, [] => isFalse (by simp)
end

instance : DecidableEq TypeExpr :=
  decEq

/-- To prove something of all type expressions, prove it of a node from its
arguments. -/
@[elab_as_elim]
theorem induction_on {motive : TypeExpr → Prop}
    (node : ∀ name params parameter span, (∀ p ∈ params, motive p) →
      motive ⟨name, params, parameter, span⟩) (e : TypeExpr) : motive e :=
  @TypeExpr.rec motive (fun params => ∀ p ∈ params, motive p)
    (fun name params parameter span ih => node name params parameter span ih) (by simp)
    (fun _ _ hp hps => by simpa using ⟨hp, hps⟩) e

/-- A constructor applied to arguments. -/
def apply (name : String) (params : List TypeExpr) (span : Span) : TypeExpr :=
  { name, params, parameter := false, span }

/-- The arrow between two type expressions, spanning both. -/
def arrow (domain codomain : TypeExpr) : TypeExpr :=
  apply arrowName [domain, codomain] (domain.span.merge codomain.span)

def tuple (items : List TypeExpr) (span : Span) : TypeExpr :=
  apply tupleName items span

/-- The expression written `[element]`. -/
def slice (element : TypeExpr) (span : Span) : TypeExpr :=
  apply sliceName [element] span

def isArrow (a : TypeExpr) : Bool :=
  !a.parameter && a.name == arrowName && a.params.length == 2

def isTuple (a : TypeExpr) : Bool :=
  !a.parameter && a.name == tupleName

mutual
/-- The expression as text. Arrows are always parenthesized. -/
def render : TypeExpr → String
  | { name, params, parameter, span := _ } =>
    if parameter then Application.plain name (renderAll params)
    else Application.written name (renderAll params)
def renderAll : List TypeExpr → List String
  | [] => []
  | a :: rest => render a :: renderAll rest
end

theorem renderAll_eq_map (as : List TypeExpr) : renderAll as = as.map render := by
  induction as with
  | nil => rfl
  | cons a rest ih => simp [renderAll, ih]

end TypeExpr

end TypeLayer
