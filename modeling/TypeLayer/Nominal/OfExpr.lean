import TypeLayer.Nominal.Specialize
import TypeLayer.TypeExpr.Basic

/-!
# Nominal types of type expressions

A type expression denotes a nominal type: a constructor denotes the declared type
of its name, specialized with its arguments, and a chain of arrows denotes one
method type that takes all the domains.  Type parameters are looked up in a
scope.
-/

namespace TypeLayer

/-- What a type expression asks of a registry. -/
inductive Request where
  /-- A parameter of the scope. -/
  | param (name : String) (span : Span)
  /-- A parameter with arguments, which is refused. -/
  | appliedParam (name : String) (span : Span)
  /-- A method, with the domains of a chain of arrows. -/
  | method (result : Request) (domains : List Request)
  /-- A declared type with its parameters. -/
  | application (name : String) (span : Span) (params : List Request)
deriving Repr, Inhabited

namespace Request

/-- To prove something of all requests, prove it of parameters, of methods from
their results and domains, and of applications from their parameters. -/
@[elab_as_elim]
theorem induction_on {motive : Request → Prop}
    (param : ∀ name span, motive (.param name span))
    (appliedParam : ∀ name span, motive (.appliedParam name span))
    (method : ∀ result domains, motive result → (∀ d ∈ domains, motive d) →
      motive (.method result domains))
    (application : ∀ name span params, (∀ p ∈ params, motive p) →
      motive (.application name span params)) (q : Request) : motive q :=
  @Request.rec motive (fun params => ∀ p ∈ params, motive p) param appliedParam method application
    (by simp) (fun _ _ hp hps => by simpa using ⟨hp, hps⟩) q

/-- Puts a domain in front of a method, or makes a method of any other type. -/
def arrow (domain : Request) : Request → Request
  | .method result domains => .method result (domain :: domains)
  | result => .method result [domain]

/-- The unit type. -/
def isUnit : Request → Bool
  | .application name _ [] => name == tupleName
  | _ => false

/-- A chain of one arrow from the unit type is a method without arguments. -/
def isThunk : List Request → Bool
  | [domain] => domain.isUnit
  | _ => false

mutual
/-- The request of a type expression. -/
def ofExpr : TypeExpr → Request
  | { name, params, parameter, span } =>
    if parameter then
      if params.isEmpty then .param name span else .appliedParam name span
    else
      match ofExprAll params with
      | [domain, codomain] =>
        if name = arrowName then arrow domain codomain
        else .application name span [domain, codomain]
      | params => .application name span params
def ofExprAll : List TypeExpr → List Request
  | [] => []
  | e :: rest => ofExpr e :: ofExprAll rest
end

end Request

namespace Registry

/-- The declared type that a constructor names. -/
def declared (name : String) (span : Span) : Register TypeId :=
  if name = tupleName then pure Builtin.tuple
  else do
    match (← Action.get).lookup name with
    | some id => return id
    | none => Action.fail (.unknownType name span)

mutual
/-- The type that a request denotes. The result of a method comes before its
arguments. -/
def answer (scope : Assoc String TypeId) : Request → Register TypeId
  | .param name span =>
    match scope.get? name with
    | some id => pure id
    | none => Action.fail (.unknownType name span)
  | .appliedParam name span => Action.fail (.parameterArity name span)
  | .method result domains => do
    let result ← answer scope result
    let args ← if Request.isThunk domains then pure [] else answerAll scope domains
    method result args
  | .application name span params => do
    let generic ← declared name span
    let params ← answerAll scope params
    specialize generic params
def answerAll (scope : Assoc String TypeId) : List Request → Register (List TypeId)
  | [] => pure []
  | request :: rest => do
    let id ← answer scope request
    let ids ← answerAll scope rest
    return id :: ids
end

/-- The nominal type that a type expression denotes. -/
def denote (e : TypeExpr) (scope : Assoc String TypeId) : Register TypeId :=
  answer scope (Request.ofExpr e)

end Registry

end TypeLayer
