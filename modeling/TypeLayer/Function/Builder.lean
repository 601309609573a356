import TypeLayer.Function.Basic
import TypeLayer.Structural.Table

/-!
# Building functions

A function is built by a sequence of calls.  Each value that is not of a fixed
type gets a new unknown when it is added.  Operands are not checked: they are
looked up when the function is typed.
-/

namespace TypeLayer

/-- A function under construction, the table its unknowns are created in, and
the block that instructions are appended to. -/
structure Builder where
  table : Table
  func : Func
  current : BlockId

namespace Builder

/-- One call of the builder. -/
inductive Call where
  | arg
  | int (n : Int)
  | float
  | global (name : String)
  /-- Adds an empty block. -/
  | block
  /-- Makes a block the one that instructions are appended to. -/
  | at (block : BlockId)
  | instr (i : Instr)
deriving Repr, DecidableEq

/-- A function with one empty block and an unknown result. -/
def start (name : String) (T : Table) : Builder :=
  let (ret, table) := T.fresh
  { table, current := 0
    func := { name, values := #[], blocks := #[[]], args := [], ret := .var ret } }

/-- Adds a value of a given type. -/
def push (b : Builder) (kind : ValueKind) (ty : Ty) : Builder :=
  { b with func := { b.func with values := b.func.values.push ⟨kind, ty⟩ } }

/-- Adds a value of an unknown type. -/
def pushFresh (b : Builder) (kind : ValueKind) : Builder :=
  let (v, table) := b.table.fresh
  { b with table }.push kind (.var v)

/-- Lists a value as an argument. -/
def listArg (b : Builder) (v : ValueId) : Builder :=
  { b with func := { b.func with args := b.func.args ++ [v] } }

/-- Appends a value to the current block. -/
def append (b : Builder) (v : ValueId) : Except Fault Builder :=
  if b.current < b.func.blocks.size then
    .ok { b with func := { b.func with blocks := b.func.blocks.modify b.current (· ++ [v]) } }
  else
    .error (.unknownBlock b.current)

/-- Performs one call. Jumps and branches yield the unit value. -/
def perform (b : Builder) : Call → Except Fault Builder
  | .arg => .ok ((b.pushFresh (.arg b.func.args.length)).listArg b.func.values.size)
  | .int n => .ok (b.push (.int n) Ty.int)
  | .float => .ok (b.push .float Ty.float)
  | .global name => .ok (b.pushFresh (.global name))
  | .block => .ok { b with func := { b.func with blocks := b.func.blocks.push [] } }
  | .at block => .ok { b with current := block }
  | .instr i =>
    let added := match i with
      | .branch _ _ _ | .jump _ => b.push (.instr i) Ty.unit
      | _ => b.pushFresh (.instr i)
    added.append b.func.values.size

end Builder

/-- The function that a sequence of calls builds. -/
def Func.build (name : String) (calls : List Builder.Call) (T : Table) :
    Except Fault (Func × Table) := do
  let b ← calls.foldlM Builder.perform (Builder.start name T)
  return (b.func, b.table)

end TypeLayer
