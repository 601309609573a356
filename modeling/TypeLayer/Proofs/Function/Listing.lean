import TypeLayer.Proofs.Function.Typings

/-!
# What a sequence of calls builds

The values of a function are numbered in the order of the calls that add them.  An
argument is listed among the arguments, and an instruction in the block that is the
current one when it is added: the block that was named last.

Calls that name existing blocks only always build a function (`Builder.exists_follows`).
What is known about it has three parts: what it lists (`Func.Listed`), how that answers
the calls (`Func.Answers`), and the types of its values (`Func.NewlyTyped`).  One lemma
says what a call does that adds a value (`Builder.exists_adds`), and all of the first two
parts follow from it and from the two calls that add none.
-/

namespace TypeLayer

/-! ## Sequences of calls -/

def ValueKind.isArg : ValueKind → Bool
  | .arg _ => true
  | _ => false

def ValueKind.isInstr : ValueKind → Bool
  | .instr _ => true
  | _ => false

namespace Builder

/-- The kind of the value that a call adds if there are so many arguments. -/
def Call.kind? (args : Nat) : Call → Option ValueKind
  | .arg => some (.arg args)
  | .int n => some (.int n)
  | .float => some .float
  | .global name => some (.global name)
  | .instr i => some (.instr i)
  | .block | .at _ => none

/-- The block that a call names. -/
def Call.target? : Call → Option BlockId
  | .at named => some named
  | _ => none

/-- The number of values that some calls add. -/
def valueCount (calls : List Call) : Nat :=
  calls.countP fun call => (call.kind? 0).isSome

/-- The number of arguments that some calls add. -/
def argCount (calls : List Call) : Nat :=
  calls.count .arg

/-- The number of blocks after some calls. One block is there from the start. -/
def blockCount (calls : List Call) : Nat :=
  calls.count .block + 1

/-- The current block after some calls: the one named last, or else the first one. -/
def currentAfter (calls : List Call) : BlockId :=
  (calls.filterMap Call.target?).getLast?.getD 0

/-- Every block that is named exists by then. -/
def Positioned (calls : List Call) : Prop :=
  ∀ before block after, calls = before ++ .at block :: after → block < blockCount before

variable {calls : List Call} {call : Call}

theorem valueCount_concat (args : Nat) :
    valueCount (calls ++ [call]) =
      valueCount calls + if (call.kind? args).isSome then 1 else 0 := by
  cases call <;> simp [valueCount, Call.kind?]

theorem argCount_concat (args : Nat) :
    argCount (calls ++ [call]) =
      argCount calls + if (call.kind? args).any ValueKind.isArg then 1 else 0 := by
  cases call <;> simp [argCount, Call.kind?, ValueKind.isArg]

theorem currentAfter_concat :
    currentAfter (calls ++ [call]) = call.target?.getD (currentAfter calls) := by
  cases h : call.target? <;> simp [currentAfter, List.filterMap_append, h]

theorem blockCount_concat {args : Nat} {kind : ValueKind} (h : call.kind? args = some kind) :
    blockCount (calls ++ [call]) = blockCount calls := by
  cases call <;> cases h <;> simp [blockCount]

theorem blockCount_le_concat : blockCount calls ≤ blockCount (calls ++ [call]) := by
  simp [blockCount]

theorem Positioned.init (h : Positioned (calls ++ [call])) : Positioned calls := by
  rintro before block after rfl
  exact h before block (after ++ [call]) (by simp)

theorem target?_eq_some {block : BlockId} (h : call.target? = some block) : call = .at block := by
  cases call <;> cases h
  rfl

/-- That blocks exist when they are named is checked call by call. -/
theorem positioned_iff : Positioned calls ↔ (List.range calls.length).all (fun i =>
    (calls[i]?.bind Call.target?).all (· < blockCount (calls.take i))) = true := by
  rw [List.all_eq_true]
  constructor
  · intro h i hi
    rw [List.mem_range] at hi
    rw [List.getElem?_eq_getElem hi, Option.bind_some]
    cases htarget : calls[i].target? with
    | none => rfl
    | some block =>
      rw [Option.all_some, decide_eq_true_iff]
      refine h (calls.take i) block (calls.drop (i + 1)) ?_
      rw [← target?_eq_some htarget, ← List.drop_eq_getElem_cons hi, List.take_append_drop]
  · rintro h before block after rfl
    have hcheck := h before.length (by simp)
    simpa [Call.target?] using hcheck

instance : DecidablePred Positioned :=
  fun _ => decidable_of_iff _ positioned_iff.symm

/-- The current block exists. -/
theorem Positioned.currentAfter_lt (h : Positioned calls) :
    currentAfter calls < blockCount calls := by
  induction calls using List.reverseRecOn with
  | nil => exact Nat.one_pos
  | append_singleton calls call ih =>
    refine Nat.lt_of_lt_of_le ?_ blockCount_le_concat
    rw [currentAfter_concat]
    cases call with
    | «at» block => exact h calls block [] rfl
    | _ => exact ih h.init

end Builder

/-! ## The numbers of values -/

namespace Func

/-- The numbers of the values of some kinds, in increasing order. -/
def numbers (f : Func) (test : ValueKind → Bool) : List ValueId :=
  (List.range f.values.size).filter fun v => f.values[v]?.any fun value => test value.kind

variable {f f' : Func} {test : ValueKind → Bool} {value : Value}

theorem lt_size_of_mem_numbers {v : ValueId} (h : v ∈ f.numbers test) : v < f.values.size :=
  List.mem_range.1 (List.mem_filter.1 h).1

/-- A new value has the next number. -/
theorem numbers_push (h : f'.values = f.values.push value) :
    f'.numbers test =
      f.numbers test ++ if test value.kind then [f.values.size] else [] := by
  unfold numbers
  rw [h, Array.size_push, List.range_succ, List.filter_append]
  congr 1
  · refine List.filter_congr fun v hv => ?_
    rw [Array.getElem?_push, if_neg (Nat.ne_of_lt (List.mem_range.1 hv))]
  · simp [List.filter_cons]

/-! ## What a function lists -/

/-- What the lists of a function hold. -/
structure Listed (f : Func) : Prop where
  /-- The blocks together list each instruction once, and nothing else. -/
  instrs : f.instrs.Perm (f.numbers ValueKind.isInstr)
  increasing : ∀ block ∈ f.blocks, block.Pairwise (· < ·)
  args : f.args = f.numbers ValueKind.isArg
  /-- An argument has the position at which it is listed. -/
  position : ∀ (i : Nat) v, f.args[i]? = some v → ∃ own, f.values[v]? = some ⟨.arg i, own⟩

/-- The function has the values and blocks that the calls ask for. -/
structure Answers (f : Func) (calls : List Builder.Call) : Prop where
  size : f.values.size = Builder.valueCount calls
  args : f.args.length = Builder.argCount calls
  blocks : f.blocks.size = Builder.blockCount calls
  /-- Values are numbered in the order of the calls that add them. -/
  kind : ∀ before call after kind, calls = before ++ call :: after →
    call.kind? (Builder.argCount before) = some kind →
    ∃ own, f.values[Builder.valueCount before]? = some ⟨kind, own⟩
  /-- An instruction is in the block that was the current one. -/
  home : ∀ before i after, calls = before ++ .instr i :: after →
    ∃ block, f.blocks[Builder.currentAfter before]? = some block ∧
      Builder.valueCount before ∈ block

/-- Nothing that the function has is lost. -/
structure KeptIn (f f' : Func) : Prop where
  values : ∀ (v : ValueId) value, f.values[v]? = some value → f'.values[v]? = some value
  blocks : ∀ (k : BlockId) block, f.blocks[k]? = some block →
    ∃ more, f'.blocks[k]? = some (block ++ more)

/-- Constants, branches and jumps have the types that are theirs. -/
def Fixed (f : Func) : Prop :=
  ∀ (v : ValueId) (value : Value) (t : Ty), f.values[v]? = some value →
    value.kind.fixed? = some t → value.ty = t

end Func

/-! ## One call -/

/-- One more entry of one list is one more over all lists. -/
theorem perm_flatten_modify {α : Type} {ls : List (List α)} {k : Nat} (hk : k < ls.length) (a : α) :
    (ls.modify k (· ++ [a])).flatten.Perm (ls.flatten ++ [a]) := by
  induction ls generalizing k with
  | nil => cases hk
  | cons l ls ih =>
    cases k with
    | zero =>
      simp only [List.modify_zero_cons, List.flatten_cons, List.append_assoc]
      exact List.perm_append_comm.append_left l
    | succ k =>
      simp only [List.modify_succ_cons, List.flatten_cons, List.append_assoc]
      exact (ih (Nat.lt_of_succ_lt_succ hk)).append_left l

/-- What stands in a list with one more entry is that entry, or stands in the list. -/
theorem eq_or_exists_of_concat {α : Type} {as before after : List α} {a c : α}
    (h : as ++ [a] = before ++ c :: after) :
    as = before ∧ a = c ∨ ∃ tail, as = before ++ c :: tail := by
  rcases List.eq_nil_or_concat after with rfl | ⟨tail, d, rfl⟩
  · exact .inl (List.append_singleton_inj.1 h)
  · rw [List.concat_eq_append, ← List.cons_append, ← List.append_assoc] at h
    exact .inr ⟨tail, (List.append_singleton_inj.1 h).1⟩

namespace Builder

/-- What it is to add a value. It comes last; an argument is listed, and an instruction is
appended to the current block. -/
structure Adds (b b' : Builder) (value : Value) : Prop where
  values : b'.func.values = b.func.values.push value
  args : b'.func.args = b.func.args ++ if value.kind.isArg then [b.func.values.size] else []
  blocks : b'.func.blocks =
    if value.kind.isInstr then b.func.blocks.modify b.current (· ++ [b.func.values.size])
    else b.func.blocks
  current : b'.current = b.current
  fixed : ∀ t, value.kind.fixed? = some t → value.ty = t

variable {b b' : Builder} {calls : List Call} {call : Call} {value : Value}

theorem append_eq_ok {v : ValueId} (h : b.current < b.func.blocks.size) :
    b.append v =
      .ok { b with func := { b.func with blocks := b.func.blocks.modify b.current (· ++ [v]) } } :=
  if_pos h

theorem exists_adds_instr (h : b.current < b.func.blocks.size) (i : Instr) :
    ∃ b' ty, b.perform (.instr i) = .ok b' ∧ b.Adds b' ⟨.instr i, ty⟩ := by
  cases i with
  | branch | jump =>
    refine ⟨_, Ty.unit, append_eq_ok h, ⟨rfl, ?_, rfl, rfl, fun t ht => Option.some.inj ht⟩⟩
    simp [push, ValueKind.isArg]
  | _ =>
    refine ⟨_, .var b.table.size, append_eq_ok h, ⟨rfl, ?_, rfl, rfl, fun t ht => ?_⟩⟩
    · simp [pushFresh, push, ValueKind.isArg]
    · cases ht

/-- A call that asks for a value adds it. -/
theorem exists_adds (h : b.current < b.func.blocks.size) {kind : ValueKind}
    (hkind : call.kind? b.func.args.length = some kind) :
    ∃ b' ty, b.perform call = .ok b' ∧ b.Adds b' ⟨kind, ty⟩ := by
  cases call with
  | arg =>
    cases hkind
    exact ⟨_, _, rfl, ⟨rfl, rfl, rfl, rfl, fun t ht => by cases ht⟩⟩
  | int n | float =>
    cases hkind
    refine ⟨_, _, rfl, ⟨rfl, ?_, rfl, rfl, fun t ht => Option.some.inj ht⟩⟩
    simp [push, ValueKind.isArg]
  | global name =>
    cases hkind
    refine ⟨_, _, rfl, ⟨rfl, ?_, rfl, rfl, fun t ht => by cases ht⟩⟩
    simp [pushFresh, push, ValueKind.isArg]
  | block | «at» block => cases hkind
  | instr i =>
    cases hkind
    exact exists_adds_instr h i

namespace Adds

variable (h : b.Adds b' value)
include h

theorem getElem?_blocks (k : BlockId) :
    b'.func.blocks[k]? = b.func.blocks[k]?.map fun block =>
      if value.kind.isInstr ∧ b.current = k then block ++ [b.func.values.size] else block := by
  rw [h.blocks]
  by_cases hinstr : value.kind.isInstr
  · by_cases hk : b.current = k <;> simp [hinstr, hk, Array.getElem?_modify]
  · simp [hinstr]

theorem kept : b.func.KeptIn b'.func where
  values v old hv := by
    rw [h.values, Array.getElem?_push, if_neg, hv]
    exact Nat.ne_of_lt (Array.getElem?_eq_some_iff.1 hv).1
  blocks k block hk := by
    rw [h.getElem?_blocks, hk]
    split
    · exact ⟨_, rfl⟩
    · exact ⟨[], by simp⟩

theorem instrs (hlt : b.current < b.func.blocks.size) :
    b'.func.instrs.Perm
      (b.func.instrs ++ if value.kind.isInstr then [b.func.values.size] else []) := by
  unfold Func.instrs
  rw [h.blocks]
  split
  · rw [Array.toList_modify]
    exact perm_flatten_modify hlt _
  · rw [List.append_nil]

theorem listed (hb : b.func.Listed) (hlt : b.current < b.func.blocks.size)
    (hposition : ∀ i, value.kind = .arg i → i = b.func.args.length) : b'.func.Listed where
  instrs := by
    rw [Func.numbers_push h.values]
    exact (h.instrs hlt).trans (hb.instrs.append_right _)
  increasing block hblock := by
    obtain ⟨k, hk⟩ := Array.mem_iff_getElem?.1 hblock
    rw [h.getElem?_blocks] at hk
    obtain ⟨old, hold, rfl⟩ := Option.map_eq_some_iff.1 hk
    have hmem : old ∈ b.func.blocks := Array.mem_of_getElem? hold
    split
    · refine List.pairwise_append.2 ⟨hb.increasing old hmem, List.pairwise_singleton _ _, ?_⟩
      intro v hv w hw
      obtain rfl := List.mem_singleton.1 hw
      have hinstrs : v ∈ b.func.instrs :=
        List.mem_flatten.2 ⟨old, Array.mem_toList_iff.2 hmem, hv⟩
      exact Func.lt_size_of_mem_numbers (hb.instrs.mem_iff.1 hinstrs)
    · exact hb.increasing old hmem
  args := by rw [h.args, Func.numbers_push h.values, hb.args]
  position i v hv := by
    rw [h.args, List.getElem?_append] at hv
    split at hv
    · obtain ⟨own, hown⟩ := hb.position i v hv
      exact ⟨own, h.kept.values v _ hown⟩
    · obtain ⟨kind, own⟩ := value
      cases kind with
      | arg j =>
        obtain rfl := hposition j rfl
        rw [ValueKind.isArg, if_pos rfl, List.getElem?_singleton] at hv
        split at hv
        · obtain rfl := Option.some.inj hv
          obtain rfl : i = b.func.args.length := by omega
          exact ⟨own, by rw [h.values, Array.getElem?_push_size]⟩
        · cases hv
      | _ => cases hv

theorem fixed_adds (hb : b.func.Fixed) : b'.func.Fixed := by
  intro v other t hv ht
  rw [h.values, Array.getElem?_push] at hv
  split at hv
  · obtain rfl := Option.some.inj hv
    exact h.fixed t ht
  · exact hb v other t hv ht

end Adds

end Builder

namespace Func

variable {f f' : Func} {calls : List Builder.Call} {call : Builder.Call}

/-- What answered the calls so far still does, and the last call is answered too. -/
theorem Answers.concat (h : f.Answers calls) (hkept : f.KeptIn f')
    (hsize : f'.values.size = Builder.valueCount (calls ++ [call]))
    (hargs : f'.args.length = Builder.argCount (calls ++ [call]))
    (hblocks : f'.blocks.size = Builder.blockCount (calls ++ [call]))
    (hkind : ∀ kind, call.kind? (Builder.argCount calls) = some kind →
      ∃ own, f'.values[Builder.valueCount calls]? = some ⟨kind, own⟩)
    (hhome : ∀ i, call = .instr i → ∃ block,
      f'.blocks[Builder.currentAfter calls]? = some block ∧ Builder.valueCount calls ∈ block) :
    f'.Answers (calls ++ [call]) := by
  refine ⟨hsize, hargs, hblocks, fun before c after kind hcalls hc => ?_,
    fun before i after hcalls => ?_⟩
  -- A call among these is the last one, or one of those before it.
  · rcases eq_or_exists_of_concat hcalls with ⟨rfl, rfl⟩ | ⟨tail, hcalls⟩
    · exact hkind kind hc
    · obtain ⟨own, hown⟩ := h.kind before c tail kind hcalls hc
      exact ⟨own, hkept.values _ _ hown⟩
  · rcases eq_or_exists_of_concat hcalls with ⟨rfl, rfl⟩ | ⟨tail, hcalls⟩
    · exact hhome i rfl
    · obtain ⟨block, hblock, hmem⟩ := h.home before i tail hcalls
      obtain ⟨more, hmore⟩ := hkept.blocks _ _ hblock
      exact ⟨_, hmore, List.mem_append_left more hmem⟩

/-- A call that adds no value leaves what there is. -/
theorem Answers.concat_none (h : f.Answers calls) (hcall : call.kind? 0 = none)
    (hvalues : f'.values = f.values) (hargs : f'.args = f.args)
    (hsize : f'.blocks.size = Builder.blockCount (calls ++ [call]))
    (hblocks : ∀ (k : BlockId) block, f.blocks[k]? = some block → f'.blocks[k]? = some block) :
    f'.Answers (calls ++ [call]) := by
  refine h.concat ⟨fun v value hv => hvalues ▸ hv, fun k block hk => ⟨[], ?_⟩⟩ ?_ ?_ hsize ?_ ?_
  · rw [List.append_nil]
    exact hblocks k block hk
  · rw [hvalues, h.size, Builder.valueCount_concat 0, hcall]
    rfl
  · rw [hargs, h.args, Builder.argCount_concat 0, hcall]
    rfl
  · intro kind hkind
    cases call <;> cases hcall <;> cases hkind
  · rintro i rfl
    cases hcall

end Func

/-! ## All calls -/

namespace Builder

/-- What holds after some calls. -/
structure Follows (b : Builder) (calls : List Call) : Prop where
  listed : b.func.Listed
  answers : b.func.Answers calls
  fixed : b.func.Fixed
  current : b.current = currentAfter calls

variable {b b' : Builder} {calls : List Call} {call : Call}

theorem follows_start (name : String) (T : Table) : (start name T).Follows [] where
  listed :=
    { instrs := .refl _
      increasing := by simp [start]
      args := rfl
      position := by simp [start] }
  answers :=
    { size := rfl
      args := rfl
      blocks := rfl
      kind := by simp
      home := by simp }
  fixed := by simp [Func.Fixed, start]
  current := rfl

/-- A value that is added answers the call for it. -/
theorem Adds.answers {kind : ValueKind} {ty : Ty} (h : b.Adds b' ⟨kind, ty⟩)
    (hb : b.Follows calls) (hlt : b.current < b.func.blocks.size)
    (hkind : call.kind? (argCount calls) = some kind) : b'.func.Answers (calls ++ [call]) := by
  have hanswers := hb.answers
  refine hanswers.concat h.kept ?_ ?_ ?_ (fun kind' hkind' => ?_) fun i hi => ?_
  · rw [h.values, Array.size_push, hanswers.size, valueCount_concat (argCount calls), hkind]
    rfl
  · rw [h.args, List.length_append, hanswers.args, argCount_concat (argCount calls), hkind,
      Option.any_some]
    split <;> rfl
  · rw [blockCount_concat hkind, ← hanswers.blocks, h.blocks]
    split
    · exact Array.size_modify
    · rfl
  · obtain rfl := Option.some.inj (hkind.symm.trans hkind')
    exact ⟨ty, by rw [h.values, ← hanswers.size, Array.getElem?_push_size]⟩
  · subst hi
    cases hkind
    refine ⟨b.func.blocks[b.current] ++ [b.func.values.size], ?_, ?_⟩
    · rw [h.getElem?_blocks, ← hb.current, Array.getElem?_eq_getElem hlt]
      simp [ValueKind.isInstr]
    · rw [← hanswers.size]
      exact List.mem_append_right _ (List.mem_singleton_self _)

theorem Adds.follows {kind : ValueKind} {ty : Ty} (h : b.Adds b' ⟨kind, ty⟩)
    (hb : b.Follows calls) (hlt : b.current < b.func.blocks.size)
    (hkind : call.kind? (argCount calls) = some kind) : b'.Follows (calls ++ [call]) := by
  refine ⟨h.listed hb.listed hlt fun i hi => ?_, h.answers hb hlt hkind, h.fixed_adds hb.fixed, ?_⟩
  · rw [hb.answers.args]
    cases call <;> cases hkind <;> cases hi
    rfl
  · rw [h.current, hb.current, currentAfter_concat]
    cases call <;> cases hkind <;> rfl

/-- A new block is empty. -/
theorem Follows.block (hb : b.Follows calls) :
    Follows { b with func := { b.func with blocks := b.func.blocks.push [] } }
      (calls ++ [.block]) := by
  have hanswers := hb.answers
  refine ⟨?_, ?_, hb.fixed, ?_⟩
  · refine ⟨?_, fun block hblock => ?_, hb.listed.args, hb.listed.position⟩
    · have hinstrs : (b.func.blocks.push []).toList.flatten = b.func.instrs := by
        simp [Func.instrs]
      rw [Func.instrs, hinstrs]
      exact hb.listed.instrs
    · rcases Array.mem_push.1 hblock with hblock | rfl
      · exact hb.listed.increasing block hblock
      · exact .nil
  · refine hanswers.concat_none rfl rfl rfl ?_ fun k block hk => ?_
    · rw [Array.size_push, hanswers.blocks]
      simp [blockCount]
    · rw [Array.getElem?_push, if_neg, hk]
      exact Nat.ne_of_lt (Array.getElem?_eq_some_iff.1 hk).1
  · rw [currentAfter_concat]
    exact hb.current

/-- Naming a block changes the current one only. -/
theorem Follows.at (hb : b.Follows calls) (block : BlockId) :
    Follows { b with current := block } (calls ++ [.at block]) := by
  refine ⟨hb.listed, ?_, hb.fixed, by rw [currentAfter_concat]; rfl⟩
  refine hb.answers.concat_none rfl rfl rfl ?_ fun k block hk => hk
  rw [hb.answers.blocks]
  simp [blockCount]

/-- Every call goes on. -/
theorem Follows.perform (hb : b.Follows calls) (hlt : b.current < b.func.blocks.size)
    (call : Call) : ∃ b', b.perform call = .ok b' ∧ b'.Follows (calls ++ [call]) := by
  cases hkind : call.kind? (argCount calls) with
  | some kind =>
    obtain ⟨b', ty, hperform, hadds⟩ := exists_adds hlt (hb.answers.args ▸ hkind)
    exact ⟨b', hperform, hadds.follows hb hlt hkind⟩
  | none =>
    cases call with
    | block => exact ⟨_, rfl, hb.block⟩
    | «at» next => exact ⟨_, rfl, hb.at next⟩
    | _ => cases hkind

/-- Calls that name existing blocks are all performed. -/
theorem exists_follows (name : String) (T : Table) (h : Positioned calls) :
    ∃ b, calls.foldlM perform (start name T) = .ok b ∧ b.Follows calls := by
  -- From the end: each call finds what those before it have left.
  induction calls using List.reverseRecOn with
  | nil => exact ⟨_, rfl, follows_start name T⟩
  | append_singleton calls call ih =>
    obtain ⟨b, hrun, hb⟩ := ih h.init
    have hlt : b.current < b.func.blocks.size := by
      rw [hb.current, hb.answers.blocks]
      exact h.init.currentAfter_lt
    obtain ⟨b', hperform, hb'⟩ := hb.perform hlt call
    refine ⟨b', ?_, hb'⟩
    rw [List.foldlM_append, hrun]
    show [call].foldlM Builder.perform b = .ok b'
    rw [List.foldlM_cons, hperform]
    rfl

end Builder

/-! ## The types of a new function -/

namespace Func

/-- The types of the values that have none from the start, in order. -/
def openTypes (f : Func) : List Ty :=
  (f.values.toList.filter fun value => value.kind.fixed?.isNone).map Value.ty

/-- The types of a function that has just been built in a table. -/
structure NewlyTyped (f : Func) (T T' : Table) : Prop where
  fixed : f.Fixed
  /-- The result and the values without a fixed type have unknowns, which are numbered one
  after the other. -/
  unknowns : f.ret :: f.openTypes = (List.range' T.size (f.openTypes.length + 1)).map .var
  /-- No such unknown existed before, and now it is free and alone in its class. -/
  free : ∀ u, .var u ∈ f.ret :: f.openTypes → T.classOf u = .error (.unknownVariable u) ∧
    T'.classOf u = .ok (u, none) ∧ ∀ w, T'.SameClass u w → w = u
  size : T'.size = T.size + (1 + f.openTypes.length)

variable {f : Func} {T T' : Table}

/-- The unknowns of some values are the types of those without a fixed one. -/
theorem map_var_occurrences {values : List Value}
    (hopen : ∀ value ∈ values, value.kind.fixed? = none → ∃ u, value.ty = .var u)
    (hfixed : ∀ value ∈ values, ∀ t, value.kind.fixed? = some t → value.ty = t) :
    (values.flatMap fun value => value.ty.occurrences).map Ty.var =
      (values.filter fun value => value.kind.fixed?.isNone).map Value.ty := by
  induction values with
  | nil => rfl
  | cons value values ih =>
    rw [List.forall_mem_cons] at hopen hfixed
    rw [List.flatMap_cons, List.map_append, ih hopen.2 hfixed.2, List.filter_cons]
    cases hkind : value.kind.fixed? with
    | none =>
      obtain ⟨u, hu⟩ := hopen.1 hkind
      rw [Option.isNone_none, if_pos rfl, List.map_cons, hu]
      rfl
    | some t =>
      rw [hfixed.1 t hkind, ValueKind.occurrences_fixed hkind]
      simp

theorem Built.map_var_unknowns (h : f.Built T T') (hfixed : f.Fixed) :
    f.unknowns.map Ty.var = f.ret :: f.openTypes := by
  obtain ⟨u, hu⟩ := h.ret
  have hmem : ∀ value ∈ f.values.toList, ∃ v : ValueId, f.values[v]? = some value := by
    intro value hvalue
    exact Array.mem_iff_getElem?.1 (Array.mem_toList_iff.1 hvalue)
  rw [Func.unknowns, List.map_append, hu, map_var_occurrences]
  · rfl
  · intro value hvalue hkind
    obtain ⟨v, hv⟩ := hmem value hvalue
    refine (h.own v value hv).resolve_right fun hown => ?_
    rw [hkind] at hown
    cases hown
  · intro value hvalue t ht
    obtain ⟨v, hv⟩ := hmem value hvalue
    exact hfixed v value t hv ht

theorem Built.newlyTyped (h : f.Built T T') (hT : T.WellFormed) (hfixed : f.Fixed) :
    f.NewlyTyped T T' := by
  have htypes := h.map_var_unknowns hfixed
  have hlength : f.unknowns.length = f.openTypes.length + 1 := by
    rw [← List.length_map (f := Ty.var), htypes, List.length_cons]
  refine ⟨hfixed, ?_, fun u hu => ?_, ?_⟩
  · rw [← htypes, ← hlength, ← h.unknowns]
  · have hmem : u ∈ f.unknowns := by
      rw [← htypes] at hu
      obtain ⟨w, hw, heq⟩ := List.mem_map.1 hu
      exact Ty.var.inj heq ▸ hw
    rw [h.unknowns] at hmem
    obtain ⟨i, hi, rfl⟩ := List.mem_range'.1 hmem
    rw [Nat.one_mul, h.table]
    exact ⟨Table.classOf_of_size_le (Nat.le_add_right _ _), Table.classOf_grow_new hT hi,
      fun w => Table.eq_of_sameClass_grow hT hi⟩
  · rw [h.table, Table.size_grow, hlength, Nat.add_comm 1]

/-- Building a function from calls that name existing blocks only always succeeds, on any
table. The function lists what it has, it has what the calls ask for, and it is typed by its
constants and by new unknowns. -/
theorem build_wellFormed {calls : List Builder.Call} (hT : T.Reachable)
    (hcalls : Builder.Positioned calls) (name : String) :
    ∃ f T', Func.build name calls T = .ok (f, T') ∧ f.Listed ∧ f.Answers calls ∧
      f.NewlyTyped T T' := by
  obtain ⟨b, hrun, hb⟩ := Builder.exists_follows name T hcalls
  have hbuild : Func.build name calls T = .ok (b.func, b.table) := by
    unfold Func.build
    rw [hrun]
    rfl
  exact ⟨b.func, b.table, hbuild, hb.listed, hb.answers,
    (built_build hbuild).newlyTyped hT.wellFormed hb.fixed⟩

/-- Instructions of two blocks by turns, in a table that has two unknowns already. -/
theorem build_wellFormed_turns :
    let calls : List Builder.Call := [.arg, .instr .alloc, .block, .at 1, .float,
      .instr (.ret 0), .at 0, .arg, .instr (.jump 1)]
    Builder.Positioned calls ∧ (Table.empty.grow 2).Reachable ∧
      ∃ f T', Func.build "turns" calls (Table.empty.grow 2) = .ok (f, T') ∧
        f.Listed ∧ f.Answers calls ∧ f.NewlyTyped (Table.empty.grow 2) T' ∧
        f.blocks = #[[1, 5], [3]] ∧ f.args = [0, 4] ∧
        f.ret :: f.openTypes = [.var 2, .var 3, .var 4, .var 5, .var 6] ∧ T'.size = 7 := by
  intro calls
  have hcalls : Builder.Positioned calls := by decide
  have hT : (Table.empty.grow 2).Reachable := .grow .refl 2
  obtain ⟨f, T', hbuild, hlisted, hanswers, htyped⟩ := build_wellFormed hT hcalls "turns"
  refine ⟨hcalls, hT, f, T', hbuild, hlisted, hanswers, htyped, ?_⟩
  cases hbuild
  exact ⟨rfl, rfl, rfl, rfl⟩

end Func

end TypeLayer
