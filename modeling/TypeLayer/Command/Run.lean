import TypeLayer.Command.Arguments
import TypeLayer.Diagnostic.Report
import TypeLayer.Nominal.Image
import TypeLayer.Nominal.Lowering
import TypeLayer.Nominal.OfExpr
import TypeLayer.Nominal.Subtype
import TypeLayer.Structural.OfExpr
import TypeLayer.TypeExpr.Reader

/-!
# Carrying out commands

Each subcommand works on a table or a registry of its own.  Its result is either
the lines to print, or a diagnostic together with the operand it is about.
-/

namespace TypeLayer.Command

/-- An operand and what is wrong with it. -/
structure Complaint where
  source : String
  diagnostic : Diagnostic
deriving Repr, DecidableEq

/-- A piece of work on the operands of a command. -/
abbrev Work (α : Type) :=
  Query Complaint α

/-- Does a call on a state as work on an operand. -/
def attempt {σ ε α : Type} (diagnose : ε → Diagnostic) (source : String) (x : Outcome σ ε α) :
    Work (α × σ) :=
  match x with
  | .ok a s => .ok (a, s)
  | .error e _ => Query.fail ⟨source, diagnose e⟩
  | .fault f => .error (.fault f)

/-- Reads an operand. -/
def parseOperand (source : String) : Work TypeExpr :=
  match TypeExpr.parse source with
  | .ok e => .ok e
  | .error e => Query.fail ⟨source, e.diagnostic⟩

/-- The nominal type that an operand denotes. -/
def denoteOperand (source : String) (r : Registry) : Work (TypeId × Registry) := do
  let e ← parseOperand source
  attempt DatatypeError.diagnostic source (Registry.denote e ∅ r)

/-! ## Unification -/

/-- A solved equation: the common type, and the values of the parameters of both
sides by name. -/
structure Solution where
  ty : Ty
  left : List (String × Ty)
  right : List (String × Ty)
deriving Repr, DecidableEq

/-- The parameters in the order of their names, with their values. -/
def solvedParams (T : Table) (params : Assoc String TyVar) : Except Fault (List (String × Ty)) :=
  (params.entries.mergeSort fun a b => a.1 ≤ b.1).mapM fun (name, v) =>
    return (name, ← T.resolve (.var v))

/-- Solves the equation of two operands. Each side has its own parameters. -/
def solve (left right : String) : Work Solution := do
  let leftExpr ← parseOperand left
  let rightExpr ← parseOperand right
  let ((leftTy, leftParams), T) ← attempt TypeError.diagnostic left (leftExpr.toTy .empty)
  let ((rightTy, rightParams), T) ← attempt TypeError.diagnostic right (rightExpr.toTy T)
  let ((), T) ← attempt TypeError.diagnostic right
    (Table.unify leftTy rightTy (.written rightExpr.span) T)
  return {
    ty := ← Query.ofExcept (T.resolve leftTy)
    left := ← Query.ofExcept (solvedParams T leftParams)
    right := ← Query.ofExcept (solvedParams T rightParams) }

/-- The common type, and one line for each parameter. -/
def Solution.lines (s : Solution) : List String :=
  let param (side : String) : String × Ty → String := fun (name, t) =>
    "  " ++ side ++ "." ++ name ++ " = " ++ t.render
  s.ty.render :: s.left.map (param "left") ++ s.right.map (param "right")

/-! ## Nominal types -/

/-- Whether the first operand denotes a subtype of what the second denotes. -/
def isSubtype (sub sup : String) : Work Bool := do
  let (a, r) ← denoteOperand sub .initial
  let (b, r) ← denoteOperand sup r
  match r.subtype a b with
  | .ok holds => return holds
  | .error (.error e) => Query.fail ⟨sub, e.diagnostic⟩
  | .error (.fault f) => .error (.fault f)

/-- The layout of what an operand denotes. -/
def layoutOf (ty : String) : Work Layout := do
  let (id, r) ← denoteOperand ty .initial
  let (lowered, _) ← attempt DatatypeError.diagnostic ty (Registry.layout id r)
  return lowered

/-- The written forms of what an operand denotes. -/
def describeLines (ty : String) : Work (List String) := do
  let (id, r) ← denoteOperand ty .initial
  let family ← Query.ofExcept (r.family id)
  return [
    "type:       " ++ (← Query.ofExcept (r.display id)),
    "style:      " ++ family.style.render,
    "supertype:  " ++ (← Query.ofExcept (r.display family.supertype)),
    "mangled:    " ++ (← Query.ofExcept (r.mangled id)),
    "structural: " ++ (← Query.ofExcept (r.image id)).render]

/-! ## Replies -/

/-- What the program leaves behind: its exit code and what it printed. -/
structure Reply where
  exit : Nat
  out : String
  err : String
deriving Repr, DecidableEq

/-- Exit codes: success, an error in an operand, a command line that is refused,
and a fault. -/
def exitOk : Nat := 0
def exitError : Nat := 1
def exitUsage : Nat := 2
def exitFault : Nat := 101

def unlines (lines : List String) : String :=
  String.join (lines.map (· ++ "\n"))

/-- Prints the lines that a piece of work gave, or what was wrong. -/
def Reply.ofWork (form : Diagnostic.Form) (work : Work (List String)) : Reply :=
  match work with
  | .ok lines => ⟨exitOk, unlines lines, ""⟩
  | .error (.error c) =>
    ⟨exitError, "", unlines [c.diagnostic.render c.source "<argument>" form]⟩
  | .error (.fault _) => ⟨exitFault, "", ""⟩

/-- Prints a layout and its size. The layout has been printed when the size turns
out to be too large. -/
def Reply.ofLayout (form : Diagnostic.Form) (work : Work Layout) : Reply :=
  match work with
  | .ok lowered =>
    match lowered.size? with
    | some size =>
      ⟨exitOk, unlines [lowered.toJson.indented, "size: " ++ size.repr ++ " bytes"], ""⟩
    | none => ⟨exitFault, unlines [lowered.toJson.indented], ""⟩
  | .error e => Reply.ofWork form (.error e)

/-- Carries out a command. -/
def perform (form : Diagnostic.Form) : Command → Reply
  | .unify left right => Reply.ofWork form (Solution.lines <$> solve left right)
  | .subtype sub sup =>
    Reply.ofWork form ((fun holds => [if holds then "true" else "false"]) <$> isSubtype sub sup)
  | .layout ty => Reply.ofLayout form (layoutOf ty)
  | .describe ty => Reply.ofWork form (describeLines ty)

/-- The form of diagnostics that the flags ask for. -/
def formOf (flags : List Flag) : Diagnostic.Form :=
  if .json ∈ flags then .json else .text (.noColor ∉ flags)

def versionLine : String :=
  "helionc 0.1.0"

def helpLines : List String :=
  ["Usage: helionc [OPTIONS] <COMMAND>",
   "",
   "Commands:",
   "  unify <LEFT> <RIGHT>  Unify two type annotations",
   "  subtype <SUB> <SUP>   Check whether the first type is a subtype of the second",
   "  layout <TY>           Print the memory layout of a type",
   "  show <TY>             Print the canonical forms of a type",
   "",
   "Options:",
   "      --json      Output diagnostics as JSON",
   "      --no-color  Disable colorized output",
   "  -v, --verbose   Log type-core events at debug level",
   "  -h, --help      Print help",
   "  -V, --version   Print version"]

/-- Carries out a command line. -/
def run (args : List String) : Reply :=
  match parse? args with
  | none => ⟨exitUsage, "", unlines helpLines⟩
  | some .version => ⟨exitOk, unlines [versionLine], ""⟩
  | some .help => ⟨exitOk, unlines helpLines, ""⟩
  | some (.run flags command) => perform (formOf flags) command

end TypeLayer.Command
