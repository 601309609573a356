import TypeLayer.Outcome
import TypeLayer.Structural.TypeError

/-!
# Functions to be typed

A function is a list of values: constants, arguments, references to other
functions, and instructions that use values by number.  Its blocks list the
instructions in the order in which they run.  Every value has a type of its own,
which is an unknown unless it is fixed from the start.
-/

namespace TypeLayer

/-- The number of a block in its function. -/
abbrev BlockId := Nat

/-- The written form of a block. -/
def BlockId.render (b : BlockId) : String :=
  "bb" ++ Nat.repr b

inductive BinOp where
  | add
  | sub
  | mul
  | div
deriving Repr, DecidableEq

inductive Instr where
  /-- A new memory cell. -/
  | alloc
  | store (dst src : ValueId)
  | load (src : ValueId)
  | ret (value : ValueId)
  | binary (op : BinOp) (lhs rhs : ValueId)
  | call (callee : ValueId) (args : List ValueId)
  | branch (cond : ValueId) (thenBlock elseBlock : BlockId)
  | jump (target : BlockId)
deriving Repr, DecidableEq

/-- Whether an instruction ends its block. -/
def Instr.isTerminator : Instr → Bool
  | .ret _ | .branch _ _ _ | .jump _ => true
  | _ => false

/-- The values that an instruction uses. -/
def Instr.operands : Instr → List ValueId
  | .alloc => []
  | .store dst src => [dst, src]
  | .load src => [src]
  | .ret value => [value]
  | .binary _ lhs rhs => [lhs, rhs]
  | .call callee args => callee :: args
  | .branch cond _ _ => [cond]
  | .jump _ => []

inductive ValueKind where
  | int (n : Int)
  /-- A floating-point constant. Which one it is plays no part in typing. -/
  | float
  /-- The argument at a position. -/
  | arg (index : Nat)
  /-- A function by name. -/
  | global (name : String)
  | instr (i : Instr)
deriving Repr, DecidableEq

structure Value where
  kind : ValueKind
  ty : Ty
deriving Repr, DecidableEq

structure Func where
  name : String
  values : Array Value
  /-- The instructions of each block. -/
  blocks : Array (List ValueId)
  args : List ValueId
  ret : Ty
deriving Repr, DecidableEq

namespace Func

def value (f : Func) (v : ValueId) : Except Fault Value :=
  match f.values[v]? with
  | some value => .ok value
  | none => .error (.unknownValue v)

/-- The type of the function, from the types of its arguments and result. -/
def signature (f : Func) : Except Fault Ty := do
  let args ← f.args.mapM f.value
  return Ty.curried (args.map Value.ty) f.ret

/-- All instructions, block by block. -/
def instrs (f : Func) : List ValueId :=
  f.blocks.toList.flatten

end Func

end TypeLayer
