import TypeLayer.Proofs.Nominal.Defects

/-!
# Sizes of layouts

A size is counted in 32 bits, slot by slot.  As long as the total of all bytes fits, no sum on the
way to it can fail, so that the size is the total or there is none (`Layout.size?_eq`).

The total can be read off the registry.  Each type that is met on the walk over members in place
adds bytes of its own: the width of a number, rounded up, or its pointers.  There is no padding, so
that the sum over the walk is the total of the layout (`Evolved.extent_plainWithin`).  The widths of
numbers are chosen by the caller, and nothing keeps the sum below 32 bits.
-/

namespace TypeLayer

/-! ## Sums that are checked -/

theorem inWord?_of_lt {n : Nat} (h : n < UInt32.size) : inWord? n = some n :=
  if_pos h

theorem inWord?_of_le {n : Nat} (h : UInt32.size ≤ n) : inWord? n = none :=
  if_neg (Nat.not_lt_of_le h)

theorem inWord?_eq_some_iff {n m : Nat} : inWord? n = some m ↔ m = n ∧ n < UInt32.size := by
  unfold inWord?
  split
  · next h => simp [h, eq_comm]
  · next h => simp [h]

/-- A slot is added to a sum if the new sum fits, and the slot itself fits if the sum does. -/
theorem Slot.sizeFrom?_cons {slot : Slot} {rest : List Slot} {sum : Nat}
    (hslot : slot.size? = inWord? slot.bytes)
    (hrest : ∀ sum < UInt32.size, sizeFrom? sum rest = inWord? (sum + bytesAll rest)) :
    sizeFrom? sum (slot :: rest) = inWord? (sum + bytesAll (slot :: rest)) := by
  have hunfold : sizeFrom? sum (slot :: rest) = slot.size?.bind fun size =>
      (inWord? (sum + size)).bind fun sum => sizeFrom? sum rest := rfl
  rw [hunfold, hslot, bytesAll, ← Nat.add_assoc]
  by_cases hfits : sum + slot.bytes < UInt32.size
  · rw [inWord?_of_lt (Nat.lt_of_le_of_lt (Nat.le_add_left _ _) hfits), Option.bind_some,
      inWord?_of_lt hfits, Option.bind_some, hrest _ hfits]
  · have hover := Nat.le_of_not_lt hfits
    rw [inWord?_of_le (Nat.le_trans hover (Nat.le_add_right _ _))]
    by_cases hslot : slot.bytes < UInt32.size
    · rw [inWord?_of_lt hslot, Option.bind_some, inWord?_of_le hover, Option.bind_none]
    · rw [inWord?_of_le (Nat.le_of_not_lt hslot), Option.bind_none]

/-- The size of a layout is the total of its bytes, if that can be counted in 32 bits: no sum on the
way is larger. -/
theorem Layout.size?_eq (l : Layout) : l.size? = inWord? l.bytes := by
  induction l using Layout.induction_on (S := fun slot => slot.size? = inWord? slot.bytes)
    (L := fun slots => ∀ sum < UInt32.size,
      Slot.sizeFrom? sum slots = inWord? (sum + Slot.bytesAll slots)) with
  | int bits => rfl
  | float bits => rfl
  | pointer => rfl
  | record name slots ih => rw [size?, bytes, ih 0 (by decide), Nat.zero_add]
  | word name w => rfl
  | inline name l ih => exact ih
  | nil sum hsum => exact (inWord?_of_lt hsum).symm
  | cons slot rest ih ih' sum hsum => exact Slot.sizeFrom?_cons ih ih'

namespace Registry

open TypeLayer.Action TypeLayer.Outcome

variable {α β : Type} {r r' : Registry} {id : TypeId} {t : Datatype} {f : Family} {l : Layout}

/-! ## Bytes of types -/

/-- The number of members that a type has by reference. -/
def references (r : Registry) (t : Datatype) (f : Family) : Nat :=
  ((members t f).filter fun x => !r.isPlaced x).length

/-- The bytes that a type adds to a layout, apart from its members in place: a number its width,
rounded up; a method or union a pointer; a slice two counts and a pointer; a tuple a pointer for
each object in it; and an object the same, with its header and the part of its supertype. -/
def ownBytes (r : Registry) (t : Datatype) (f : Family) : Nat :=
  match f.style with
  | .integer | .floating => (f.bits + 7) / 8
  | .method | .union => pointerSize
  | .slice => countSize + (countSize + pointerSize)
  | .tuple => r.references t f * pointerSize
  | .object => pointerSize + (pointerSize + r.references t f * pointerSize)

/-- The bytes that the types in a list add. -/
def bytesOfAll (r : Registry) : List TypeId → Nat
  | [] => 0
  | id :: rest =>
    match r.entry id with
    | .ok (t, f) => r.ownBytes t f + r.bytesOfAll rest
    | .error _ => r.bytesOfAll rest

/-- The bytes that a type takes, with all that it has in place. -/
def extent (r : Registry) (id : TypeId) : Nat :=
  r.bytesOfAll (r.walk id)

theorem bytesOfAll_cons (hentry : r.entry id = .ok (t, f)) (rest : List TypeId) :
    r.bytesOfAll (id :: rest) = r.ownBytes t f + r.bytesOfAll rest := by
  rw [bytesOfAll, hentry]

theorem bytesOfAll_append (xs ys : List TypeId) :
    r.bytesOfAll (xs ++ ys) = r.bytesOfAll xs + r.bytesOfAll ys := by
  induction xs with
  | nil => rw [List.nil_append, bytesOfAll, Nat.zero_add]
  | cons x rest ih =>
    rw [List.cons_append, bytesOfAll, bytesOfAll]
    split
    · rw [ih, Nat.add_assoc]
    · exact ih

/-! ## Bytes of layouts -/

/-- A member by reference takes a pointer, and one in place takes its extent. -/
def Takes (r : Registry) (m : String × TypeId) (slot : Slot) : Prop :=
  slot.bytes = if r.isPlaced m.2 then r.extent m.2 else pointerSize

theorem bytesAll_of_takes {ms : List (String × TypeId)} {slots : List Slot}
    (h : List.Forall₂ r.Takes ms slots) :
    Slot.bytesAll slots =
      ((ms.map Prod.snd).filter fun x => !r.isPlaced x).length * pointerSize +
        r.bytesOfAll (r.walkAll ms) := by
  induction h with
  | nil => rfl
  | @cons m slot ms slots hslot _ ih =>
    have hwalk : r.walkAll (m :: ms) = r.walkAll [m] ++ r.walkAll ms := walkAll_append [m] ms
    rw [Slot.bytesAll, hslot, ih, hwalk, walkAll_singleton, bytesOfAll_append, List.map_cons,
      List.filter_cons]
    cases r.isPlaced m.2 with
    | true =>
      rw [if_pos rfl, if_pos rfl, Bool.not_true, if_neg Bool.false_ne_true, extent]
      omega
    | false =>
      rw [if_neg Bool.false_ne_true, if_neg Bool.false_ne_true, Bool.not_false, if_pos rfl,
        List.length_cons, Nat.succ_mul, bytesOfAll]
      omega

/-- The bytes of a type are its own, and those of its members in place. -/
theorem bytes_of_lowered {ms : List (String × TypeId)} (hr : initial.Evolved r)
    (hentry : r.entry id = .ok (t, f)) (hmembers : r.HasMembers id t f ms)
    (h : Lowered r.Takes t f ms l) : l.bytes = r.extent id := by
  have hslots : ∀ {slots}, List.Forall₂ r.Takes ms slots →
      Slot.bytesAll slots = r.references t f * pointerSize + r.bytesOfAll (r.walkAll ms) := by
    intro slots hfit
    rw [bytesAll_of_takes hfit, hmembers.map_snd hr hentry, references]
  rw [extent, hmembers.walk_eq hr hentry, bytesOfAll_cons hentry, ownBytes]
  cases h with
  | int style | float style | slice style =>
    rw [HasMembers, style] at hmembers
    rw [style, hmembers]
    rfl
  | pointer style =>
    rcases style with style | style <;>
    · rw [HasMembers, style] at hmembers
      rw [style, hmembers]
      rfl
  | object style slots_fit =>
    rw [style, Layout.bytes, Slot.bytesAll, Slot.bytesAll, hslots slots_fit, Nat.add_assoc,
      Nat.add_assoc]
    rfl
  | tuple style slots_fit =>
    rw [style, Layout.bytes, hslots slots_fit]

/-- What the members in place take is known from their layouts. -/
theorem takes_lowers {layoutOf : TypeId → Register Layout} (hr : initial.Evolved r)
    (hentry : r.entry id = .ok (t, f))
    (h : ∀ x ∈ r.placed t f,
      (keeping (· = r)).Meets r (layoutOf x) fun l _ => l.bytes = r.extent x) :
    (keeping (· = r)).Lowers layoutOf r id t f r.Takes fun _ _ => True where
  relies := rfl
  start := trivial
  member {r' before after m} hmembers hsame _ := by
    obtain rfl : r' = r := hsame
    have hm : m ∈ before ++ m :: after := List.mem_append_cons_self
    refine Contract.meets_slotOf rfl (fun _ _ => trivial) (fun g hg hobject => ⟨?_, trivial⟩)
      fun g hg hstyle => ?_
    · have hreference : r'.isPlaced m.2 = false := by simp [isPlaced, hg, hobject]
      rw [Takes, hreference]
      rfl
    · have hplaced : r'.isPlaced m.2 = true := by simp [isPlaced, hg, hstyle]
      refine (h m.2 (hmembers.mem_placed hr hentry hm hplaced)).mono fun l _ _ hl => ⟨?_, trivial⟩
      rw [Takes, hplaced]
      exact hl
  refused _ _ := rfl
  unanswered _ _ := trivial
  width _ _ := rfl
  missing _ _ := trivial
  unnamed _ _ := trivial

/-- The layout of a type takes the bytes of all that is met on its walk. -/
theorem Evolved.extent_plainWithin (hr : initial.Evolved r) (hid : id < r.size) :
    ∀ depth, r.Beyond depth id →
      (keeping (· = r)).Meets r (plainWithin depth id) fun l _ => l.bytes = r.extent id := by
  refine hr.placed_induction (P := fun id => ∀ depth, r.Beyond depth id →
    (keeping (· = r)).Meets r (plainWithin depth id) fun l _ => l.bytes = r.extent id) ?_ hid
  intro id t f hentry ih depth hbeyond
  obtain ⟨depth, rfl⟩ := Nat.exists_eq_add_one_of_ne_zero (Nat.ne_zero_of_lt hbeyond.1)
  rcases hr.usable_cases (entry_eq_ok_iff.1 hentry).1 with ⟨husable, -⟩ | ⟨husable, -⟩
  · refine Contract.Meets.congr ?_ (plainWithin_usable hentry husable)
    refine (Contract.meets_lower (takes_lowers hr hentry fun x hx => ?_)).mono ?_
    · exact ih x hx depth (hr.beyond_of_mem_placed hentry hbeyond hx)
    · rintro l r' - ⟨ms, hmembers, hlowered, -⟩
      exact bytes_of_lowered hr hentry hmembers hlowered
  · exact Contract.Meets.congr (Contract.meets_fail rfl) (plainWithin_unusable hentry husable)

/-- Whatever calls were made, the size of a layout that is given is the total of its bytes, exactly
if that total can be counted in 32 bits, and else there is no size. For a type that is stored in
place, and for an object whose layout is given for the first time, the total is the sum of what the
types that are met on the walk over members in place take. -/
theorem layout_size_iff (hr : r.Reachable) (hentry : r.entry id = .ok (t, f))
    (h : layout id r = .ok l r') :
    (∀ n, l.size? = some n ↔ n = l.bytes ∧ l.bytes < UInt32.size) ∧
      (f.style ≠ .object ∨ t.layout = none → l.bytes = r.extent id) := by
  refine ⟨fun n => ?_, fun hnew => ?_⟩
  · rw [l.size?_eq]
    exact inWord?_eq_some_iff
  · have hid := lt_size (entry_eq_ok_iff.1 hentry).1
    have hplain := hr.layout_plain hentry hnew (Nat.lt_succ_self r.size)
    have hextent := hr.evolved.extent_plainWithin hid (r.size + 1)
      ⟨Nat.lt_succ_of_lt hid, .inr (Nat.lt_succ_self _)⟩
    rw [h] at hplain
    cases hrun : plainWithin (r.size + 1) id r with
    | ok l' r₁ =>
      rw [hrun] at hplain
      cases hplain
      exact (hextent.ok hrun).2
    | error e r₁ =>
      rw [hrun] at hplain
      cases hplain
    | fault fault =>
      rw [hrun] at hplain
      cases hplain

/-- Numbers of the largest width that 32 bits can hold: a tuple of seven, a tuple of eight, and an
object that has the first tuple in place, and refers to itself. -/
def hoard : Registry :=
  Operation.build
    [.createInteger "Huge" 4294967295, .tuple [12, 12, 12, 12, 12, 12, 12],
     .tuple [12, 12, 12, 12, 12, 12, 12, 12], .create "Chest" none [],
     .addField 15 "content" (.concrete 13), .addField 15 "next" (.concrete 15)]

/-- Seven of the numbers, and the three pointers of the object. -/
theorem layout_size_iff_hoard :
    hoard.Reachable ∧ ∃ l r', layout 15 hoard = .ok l r' ∧ hoard.extent 15 = 3758096408 ∧
      l.bytes = 3758096408 ∧ l.size? = some 3758096408 := by
  have hr : hoard.Reachable := reachable_build _
  have hid : 15 < hoard.size := by decide +kernel
  obtain ⟨t, f, hentry⟩ := hr.evolved.wellFormed.exists_entry hid
  have hnone : ∀ t ∈ hoard.types, t.layout = none := by decide +kernel
  have hlayout := hnone t (Array.mem_of_getElem? (entry_eq_ok_iff.1 hentry).1)
  obtain ⟨l, r', hrun⟩ : ∃ l r', layout 15 hoard = .ok l r' :=
    exists_ok_of_isSome (by decide +kernel)
  have hextent : hoard.extent 15 = 3758096408 := by decide +kernel
  obtain ⟨hsize, hbytes⟩ := layout_size_iff hr hentry hrun
  have htotal : l.bytes = 3758096408 := (hbytes (.inr hlayout)).trans hextent
  exact ⟨hr, l, r', hrun, hextent, htotal, (hsize _).2 ⟨htotal.symm, by rw [htotal]; decide⟩⟩

/-- The tuple of eight numbers has a layout, and its total is one more than 32 bits can hold. -/
theorem layout_size_overflow :
    hoard.Reachable ∧ ∃ l r', layout 14 hoard = .ok l r' ∧ l.bytes = 4294967296 ∧
      l.size? = none := by
  obtain ⟨l, r', hrun⟩ : ∃ l r', layout 14 hoard = .ok l r' :=
    exists_ok_of_isSome (by decide +kernel)
  have hsize : ∀ l ∈ (layout 14 hoard).value?, l.bytes = 4294967296 ∧ l.size? = none := by
    decide +kernel
  exact ⟨reachable_build _, l, r', hrun, hsize l (by rw [hrun]; rfl)⟩

end Registry

end TypeLayer
