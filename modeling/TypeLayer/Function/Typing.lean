import TypeLayer.Function.Basic
import TypeLayer.Structural.Polymorphism

/-!
# Typing functions

`deduce` finds the type of a value from the types of its operands, imposing the
equations of its instruction.  Values that are known already are not typed again.
Functions of a program are typed one after the other, and each is published with
its type generalized, for the later ones to use.
-/

namespace TypeLayer

/-- The state of typing one function. -/
structure Deduction where
  table : Table
  known : Context

namespace Deduction

/-- A call on a deduction. -/
abbrev Deduce (α : Type) :=
  Action Deduction TypeError α

/-- Runs a call on the table. -/
def solve {α : Type} (x : Table.Solve α) : Deduce α :=
  Action.zoom Deduction.table (fun table d => { d with table }) x

/-- Makes two types equal. -/
def unify (a b : Ty) (origin : Origin) : Deduce Unit :=
  solve (Table.unify a b origin)

/-- Makes the type of a value known. -/
def record (v : ValueId) (t : Ty) : Deduce Unit :=
  Action.modify fun d => { d with known := d.known.insert v t }

/-- The type of an instruction, from the types that `operand` finds for its
operands. `own` is the type the instruction was given when it was added. -/
def instrType (f : Func) (operand : ValueId → Deduce Ty) (id : ValueId) (own : Ty) :
    Instr → Deduce Ty
  | .alloc => pure own
  | .store dst src => do
    let dstTy ← operand dst
    let srcTy ← operand src
    unify dstTy srcTy (.store id)
    return dstTy
  | .load src => do
    let srcTy ← operand src
    unify own srcTy .builtin
    return srcTy
  | .ret value => do
    let valueTy ← operand value
    unify f.ret valueTy (.ret f.name)
    return valueTy
  | .binary _ lhs rhs => do
    let lhsTy ← operand lhs
    let rhsTy ← operand rhs
    unify lhsTy rhsTy (.binary id)
    unify own lhsTy (.binary id)
    return own
  | .call callee args => do
    let calleeTy ← operand callee
    let argTys ← args.mapM operand
    unify calleeTy (Ty.curried argTys own) (.call id)
    return own
  | .branch cond _ _ => do
    let condTy ← operand cond
    unify Ty.bool condTy (.branch id)
    return Ty.unit
  | .jump _ => pure Ty.unit

/-- The type of a value, likewise from the types of its operands. -/
def valueType (env : Env) (f : Func) (operand : ValueId → Deduce Ty) (id : ValueId)
    (value : Value) : Deduce Ty :=
  match value.kind with
  | .int _ | .float | .arg _ => pure value.ty
  | .global name =>
    match env.get? name with
    | none => Action.fail (.unknownGlobal name)
    | some scheme => do
      let t ← solve (Table.instantiate scheme)
      unify value.ty t .builtin
      return value.ty
  | .instr i => instrType f operand id value.ty i

/-- The type of a value, with a bound on the values typed one inside the other. -/
def deduceWithin (env : Env) (f : Func) : Nat → ValueId → Deduce Ty
  | 0, _ => fun _ => .fault .endless
  | depth + 1, id => do
    match (← Action.get).known.get? id with
    | some t => return t
    | none =>
      let value ← Action.read fun _ => f.value id
      let t ← valueType env f (deduceWithin env f depth) id value
      record id t
      return t

/-- The type of a value. The values typed one inside the other are different
values of the function unless one of them uses itself. -/
def deduce (env : Env) (f : Func) (id : ValueId) : Deduce Ty :=
  deduceWithin env f (f.values.size + 1) id

/-- Types some values in order. -/
def deduceEach (env : Env) (f : Func) : List ValueId → Deduce Unit
  | [] => pure ()
  | v :: rest => do
    let _ ← deduce env f v
    deduceEach env f rest

/-- Types the arguments and then all instructions. -/
def deduceAll (env : Env) (f : Func) : Deduce Unit :=
  deduceEach env f (f.args ++ f.instrs)

end Deduction

/-- The type of a function, typed from the start. -/
def Func.infer (f : Func) (env : Env) : Table.Solve Ty :=
  fun T => match Deduction.deduceAll env f ⟨T, ∅⟩ with
    | .ok () d => Action.read (fun T => do T.resolve (← f.signature)) d.table
    | .error e d => .error e d.table
    | .fault f => .fault f

/-! ## Programs -/

/-- The state of typing a program. -/
structure Inference where
  table : Table
  env : Env
deriving Repr, DecidableEq

namespace Inference

/-- Types one function and publishes its scheme. While it is typed it is known
under its unknown type, so that it can refer to itself. -/
def inferFunc (f : Func) : Action Inference TypeError Scheme := do
  let own ← Action.read fun _ => f.signature
  Action.modify fun s => { s with env := s.env.insert f.name (.mono own) }
  let env := (← Action.get).env
  let t ← Action.zoom Inference.table (fun table s => { s with table }) (f.infer env)
  let scheme ← Action.read fun s => s.table.generalize t ∅
  Action.modify fun s => { s with env := s.env.insert f.name scheme }
  return scheme

/-- Types the functions of a program in order, up to the first that is
refused. -/
def inferProgram (funcs : List Func) : Action Inference TypeError (List Scheme) :=
  funcs.mapM inferFunc

end Inference

end TypeLayer
