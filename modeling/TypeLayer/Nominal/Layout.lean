import TypeLayer.Text.Json

/-!
# Memory layouts

How a nominal type lies in memory: as a number of some width, as a pointer, or
as a record of slots.  A slot holds a word of the runtime, a reference to another
type, or a layout in place.
-/

namespace TypeLayer

/-- The number of a nominal type in its registry. -/
abbrev TypeId := Nat

/-- What a slot of one word holds. -/
inductive Word where
  /-- The header of an object. -/
  | header
  /-- The part of an object that belongs to its supertype. -/
  | supertype (id : TypeId)
  /-- A reference to an object. -/
  | ref (id : TypeId)
  | length
  | capacity
  /-- A pointer to the elements of a slice. -/
  | elements (id : TypeId)
deriving Repr, DecidableEq

mutual
inductive Layout where
  | int (bits : Nat)
  | float (bits : Nat)
  | pointer
  | record (name : String) (slots : List Slot)
inductive Slot where
  | word (name : String) (word : Word)
  /-- A layout stored in place. -/
  | inline (name : String) (layout : Layout)
end

mutual
/-- Equality of layouts is decided on the trees. -/
def Layout.decEq : (a b : Layout) → Decidable (a = b)
  | .int m, .int n => if h : m = n then isTrue (by rw [h]) else isFalse (by simpa using h)
  | .float m, .float n => if h : m = n then isTrue (by rw [h]) else isFalse (by simpa using h)
  | .pointer, .pointer => isTrue rfl
  | .record name slots, .record name' slots' =>
    if h : name = name' then
      match Slot.decEqAll slots slots' with
      | isTrue h' => isTrue (by rw [h, h'])
      | isFalse h' => isFalse (by simp [h'])
    else isFalse (by simp [h])
  | .int _, .float _ => isFalse (by simp)
  | .int _, .pointer => isFalse (by simp)
  | .int _, .record _ _ => isFalse (by simp)
  | .float _, .int _ => isFalse (by simp)
  | .float _, .pointer => isFalse (by simp)
  | .float _, .record _ _ => isFalse (by simp)
  | .pointer, .int _ => isFalse (by simp)
  | .pointer, .float _ => isFalse (by simp)
  | .pointer, .record _ _ => isFalse (by simp)
  | .record _ _, .int _ => isFalse (by simp)
  | .record _ _, .float _ => isFalse (by simp)
  | .record _ _, .pointer => isFalse (by simp)
def Slot.decEq : (a b : Slot) → Decidable (a = b)
  | .word name word, .word name' word' =>
    if h : name = name' ∧ word = word' then isTrue (by rw [h.1, h.2])
    else isFalse (by simpa using h)
  | .inline name layout, .inline name' layout' =>
    if h : name = name' then
      match Layout.decEq layout layout' with
      | isTrue h' => isTrue (by rw [h, h'])
      | isFalse h' => isFalse (by simp [h'])
    else isFalse (by simp [h])
  | .word _ _, .inline _ _ => isFalse (by simp)
  | .inline _ _, .word _ _ => isFalse (by simp)
def Slot.decEqAll : (as bs : List Slot) → Decidable (as = bs)
  | [], [] => isTrue rfl
  | a :: as, b :: bs =>
    match Slot.decEq a b, Slot.decEqAll as bs with
    | isTrue h, isTrue h' => isTrue (by rw [h, h'])
    | isFalse h, _ => isFalse (by simp [h])
    | _, isFalse h => isFalse (by simp [h])
  | [], _ :: _ => isFalse (by simp)
  | _ :: _, [] => isFalse (by simp)
end

instance : DecidableEq Layout :=
  Layout.decEq

instance : DecidableEq Slot :=
  Slot.decEq

/-! ## Sizes -/

/-- The bytes of a pointer. -/
def pointerSize : Nat := 8

/-- The bytes of a length or a capacity. -/
def countSize : Nat := 4

def Word.size : Word → Nat
  | .length | .capacity => countSize
  | .header | .supertype _ | .ref _ | .elements _ => pointerSize

mutual
/-- The bytes that a layout takes. Slots follow each other without gaps. -/
def Layout.bytes : Layout → Nat
  | .int bits | .float bits => (bits + 7) / 8
  | .pointer => pointerSize
  | .record _ slots => Slot.bytesAll slots
def Slot.bytes : Slot → Nat
  | .word _ word => word.size
  | .inline _ layout => layout.bytes
def Slot.bytesAll : List Slot → Nat
  | [] => 0
  | slot :: rest => slot.bytes + Slot.bytesAll rest
end

/-- A number of bytes, if 32 bits can hold it. -/
def inWord? (bytes : Nat) : Option Nat :=
  if bytes < UInt32.size then some bytes else none

mutual
/-- The size of a layout, counted in 32 bits. The sizes of slots are added up one after
the other, and there is no size once the sum does not fit. -/
def Layout.size? : Layout → Option Nat
  | .int bits | .float bits => inWord? ((bits + 7) / 8)
  | .pointer => inWord? pointerSize
  | .record _ slots => Slot.sizeFrom? 0 slots
def Slot.size? : Slot → Option Nat
  | .word _ word => inWord? word.size
  | .inline _ layout => layout.size?
/-- The sum of sizes, starting from what has been added up before. -/
def Slot.sizeFrom? (sum : Nat) : List Slot → Option Nat
  | [] => some sum
  | slot :: rest => do
    let size ← slot.size?
    let sum ← inWord? (sum + size)
    Slot.sizeFrom? sum rest
end

/-! ## JSON form -/

def Word.toJson : Word → Json
  | .header => .object [("kind", .string "header")]
  | .supertype id => .object [("kind", .string "supertype"), ("ty", .number id)]
  | .ref id => .object [("kind", .string "ref"), ("ty", .number id)]
  | .length => .object [("kind", .string "length")]
  | .capacity => .object [("kind", .string "capacity")]
  | .elements id => .object [("kind", .string "elements"), ("ty", .number id)]

mutual
def Layout.toJson : Layout → Json
  | .int bits => .object [("kind", .string "int"), ("bits", .number bits)]
  | .float bits => .object [("kind", .string "float"), ("bits", .number bits)]
  | .pointer => .object [("kind", .string "pointer")]
  | .record name slots => .object [("kind", .string "struct"), ("name", .string name),
      ("slots", .array (Slot.toJsonAll slots))]
def Slot.toJson : Slot → Json
  | .word name word => .object [("name", .string name), ("repr", word.toJson)]
  | .inline name layout => .object [("name", .string name),
      ("repr", .object [("kind", .string "inline"), ("layout", layout.toJson)])]
def Slot.toJsonAll : List Slot → List Json
  | [] => []
  | slot :: rest => slot.toJson :: Slot.toJsonAll rest
end

end TypeLayer
