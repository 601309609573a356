import TypeLayer.Proofs.Structural.Conversion
import TypeLayer.Proofs.TypeExpr.Spans

/-!
# Unknowns shared by name

A conversion numbers the names of the parameters in the order in which they first occur, and
puts one unknown for all occurrences of a name.  The order is that of the nodes from the root
on, every node before its arguments (`TypeExpr.nodes`).

If a parameter has arguments, the conversion ends at the first such node in that order: nothing
before the node is refused, and nothing after it is looked at (`convert_refused_at`).  The names
before it have got their unknowns by then.
-/

namespace TypeLayer

namespace Table

/-- The second table is the first one with so many new unknowns, which are free and alone in
their classes. -/
structure Gains (T : Table) (n : Nat) (T' : Table) : Prop where
  size : T'.size = T.size + n
  kept : ∀ v < T.size, T'.entries[v]? = T.entries[v]?
  new : ∀ v, T.size ≤ v → v < T'.size → T'.entries[v]? = some ⟨v, 0, none⟩

theorem gains_fresh (T : Table) : T.Gains 1 T.fresh.2 where
  size := size_fresh
  kept v hv := Array.getElem?_push.trans (if_neg (Nat.ne_of_lt hv))
  new v hle hlt := by
    rw [size_fresh] at hlt
    obtain rfl : v = T.size := Nat.le_antisymm (Nat.le_of_lt_succ hlt) hle
    exact Array.getElem?_push_size

theorem Gains.trans {T T' T'' : Table} {m n : Nat} (h : T.Gains m T') (h' : T'.Gains n T'') :
    T.Gains (m + n) T'' where
  size := by rw [h'.size, h.size, Nat.add_assoc]
  kept v hv := by
    have hle : T.size ≤ T'.size := by rw [h.size]; exact Nat.le_add_right _ _
    rw [h'.kept v (Nat.lt_of_lt_of_le hv hle), h.kept v hv]
  new v hle hlt := by
    by_cases hv : v < T'.size
    · rw [h'.kept v hv]
      exact h.new v hle hv
    · exact h'.new v (Nat.le_of_not_lt hv) hlt

theorem gains_grow (T : Table) (n : Nat) : T.Gains n (T.grow n) := by
  induction n generalizing T with
  | zero => exact ⟨rfl, fun _ _ => rfl, fun v hle hlt => absurd hlt (Nat.not_lt_of_le hle)⟩
  | succ n ih =>
    have hgains := (gains_fresh T).trans (ih T.fresh.2)
    rw [Nat.add_comm] at hgains
    exact hgains

end Table

/-! ## Nodes and their names -/

namespace TypeExpr

variable {e node bad : TypeExpr} {before after : List TypeExpr}

/-- The node is a parameter with arguments. -/
def Overapplied (node : TypeExpr) : Prop :=
  node.parameter = true ∧ node.params ≠ []

instance (node : TypeExpr) : Decidable node.Overapplied :=
  inferInstanceAs (Decidable (_ ∧ _))

/-- The names of the parameters among some nodes, with repetitions. -/
def namesOf (nodes : List TypeExpr) : List String :=
  (nodes.filter TypeExpr.parameter).map TypeExpr.name

/-- The names of the parameters among some nodes, each once, in the order of first
occurrence. -/
def distinctNames (nodes : List TypeExpr) : List String :=
  (namesOf nodes).eraseDups

theorem namesOf_append (nodes nodes' : List TypeExpr) :
    namesOf (nodes ++ nodes') = namesOf nodes ++ namesOf nodes' := by
  simp [namesOf]

theorem namesOf_flatMap {α : Type} (f : α → List TypeExpr) (as : List α) :
    namesOf (as.flatMap f) = as.flatMap fun a => namesOf (f a) := by
  induction as with
  | nil => rfl
  | cons a as ih => simp [namesOf_append, ih]

theorem parameters_eq_namesOf (e : TypeExpr) : e.parameters = namesOf e.nodes := by
  induction e using TypeExpr.induction_on with
  | node name params parameter span ih =>
    have hparams : params.flatMap parameters = namesOf (params.flatMap nodes) := by
      rw [namesOf_flatMap, List.flatMap_congr ih]
    rw [parameters, nodes, parametersAll_eq_flatMap, nodesAll_eq_flatMap, hparams]
    cases parameter <;> simp [namesOf]

theorem unapplied_iff : e.Unapplied ↔ ∀ node ∈ e.nodes, ¬ node.Overapplied := by
  induction e using TypeExpr.induction_on with
  | node name params parameter span ih =>
    rw [nodes, nodesAll_eq_flatMap, List.forall_mem_cons]
    cases parameter with
    | true =>
      rw [unapplied_parameter_iff]
      constructor
      · rintro rfl
        simp [Overapplied]
      · rintro ⟨hself, -⟩
        simpa [Overapplied] using hself
    | false =>
      rw [unapplied_constructor_iff]
      simp only [List.mem_flatMap]
      constructor
      · intro h
        refine ⟨by simp [Overapplied], ?_⟩
        rintro node ⟨p, hp, hnode⟩
        exact (ih p hp).1 (h p hp) node hnode
      · intro h p hp
        exact (ih p hp).2 fun node hnode => h.2 node ⟨p, hp, hnode⟩

end TypeExpr

/-! ## The first node that is refused -/

namespace Conversion

open TypeLayer.Action TypeExpr

variable {e bad : TypeExpr} {before after : List TypeExpr} {T : Table}

theorem convertAll_refused_at {es : List TypeExpr}
    (hconvert : ∀ e ∈ es, ∀ {before after : List TypeExpr}, e.nodes = before ++ bad :: after →
      (∀ node ∈ before, ¬ node.Overapplied) → ∀ c,
        convert e c = .error (.parameterArity bad.name bad.params.length bad.span)
          (c.meetAll (namesOf before)))
    (hnodes : es.flatMap nodes = before ++ bad :: after)
    (hbefore : ∀ node ∈ before, ¬ node.Overapplied) (c : Conversion) :
    convertAll es c = .error (.parameterArity bad.name bad.params.length bad.span)
      (c.meetAll (namesOf before)) := by
  induction es generalizing before c with
  | nil => simp at hnodes
  | cons e rest ih =>
    rw [List.forall_mem_cons] at hconvert
    rw [convertAll, bind_apply]
    rcases append_eq_append_cons hnodes with ⟨tail, hfirst⟩ | ⟨before', rfl, hrest⟩
    · rw [hconvert.1 hfirst hbefore c]
    · -- The first expression comes before the node, and is converted.
      rw [List.forall_mem_append] at hbefore
      have hfirst : convert e c = _ := convert_eq (unapplied_iff.2 hbefore.1) c
      rw [hfirst]
      simp only [bind_apply, ih hconvert.2 hrest hbefore.2, namesOf_append, meetAll_append,
        parameters_eq_namesOf]

/-- A conversion is refused at the first parameter with arguments. -/
theorem convert_refused_at (hbad : bad.Overapplied) (hnodes : e.nodes = before ++ bad :: after)
    (hbefore : ∀ node ∈ before, ¬ node.Overapplied) (c : Conversion) :
    convert e c = .error (.parameterArity bad.name bad.params.length bad.span)
      (c.meetAll (namesOf before)) := by
  induction e using TypeExpr.induction_on generalizing before after c with
  | node name params parameter span ih =>
    rw [nodes, nodesAll_eq_flatMap] at hnodes
    rw [convert]
    rcases List.cons_eq_append_iff.1 hnodes with ⟨rfl, hself⟩ | ⟨before', rfl, hparams⟩
    · -- The node is the root.
      cases hself
      obtain ⟨rfl, hne⟩ : parameter = true ∧ params ≠ [] := hbad
      rw [if_pos rfl, if_neg (by simpa using hne)]
      rfl
    · rw [List.forall_mem_cons] at hbefore
      cases parameter with
      | true =>
        -- A parameter before the node has no arguments, and hence no nodes after it.
        have hnil : params = [] := by simpa [Overapplied] using hbefore.1
        simp [hnil] at hparams
      | false =>
        rw [if_neg Bool.false_ne_true, bind_apply,
          convertAll_refused_at (fun p hp _ _ hp' hb c => ih p hp hp' hb c) hparams hbefore.2]
        rfl

/-! ## Numbers by first occurrence -/

/-- The names that have been met since the beginning, in order. -/
theorem keys_meetAll_empty (T : Table) (names : List String) :
    (Conversion.meetAll ⟨T, ∅⟩ names).params.keys = names.eraseDups := by
  induction names using List.reverseRecOn with
  | nil => rfl
  | append_singleton names name ih =>
    have hmet : (Conversion.meetAll ⟨T, ∅⟩ (names ++ [name])) =
        (Conversion.meetAll ⟨T, ∅⟩ names).meet name := meetAll_append _ _ _
    have hmem : name ∈ (Conversion.meetAll ⟨T, ∅⟩ names).params.keys ↔ name ∈ names := by
      rw [ih, List.mem_eraseDups]
    rw [hmet, List.eraseDups_append]
    unfold meet
    split
    · next v hv =>
      have hold : name ∈ names := hmem.1 (Assoc.mem_keys_iff.2 ⟨v, hv⟩)
      simp [List.removeAll, hold, ih]
    · next hnew =>
      have hfresh : name ∉ names := by
        rw [← hmem, Assoc.mem_keys_iff, hnew]
        simp
      simp [List.removeAll, List.eraseDups_cons, hfresh, Assoc.keys,
        Assoc.entries_insert_of_unknown hnew, ← ih]

/-- A name has the number of its first occurrence among the distinct names. -/
theorem unknown_meetAll_empty (T : Table) {names : List String} {n : String} (h : n ∈ names) :
    (Conversion.meetAll ⟨T, ∅⟩ names).unknown n = T.size + names.eraseDups.idxOf n := by
  refine unknown_eq (((numbered_empty T).meetAll names).get?_eq_some_iff.2
    ⟨Nat.le_add_right _ _, ?_⟩)
  rw [keys_meetAll_empty, Nat.add_sub_cancel_left]
  exact List.getElem?_idxOf (List.mem_eraseDups.2 h)

/-- Meeting some names changes the table by one new unknown for each distinct name. -/
theorem gains_meetAll (T : Table) (names : List String) :
    T.Gains names.eraseDups.length (Conversion.meetAll ⟨T, ∅⟩ names).table := by
  rw [((numbered_empty T).meetAll names).table, keys_meetAll_empty]
  exact T.gains_grow _

end Conversion

namespace TypeExpr

variable {e : TypeExpr}

theorem toTy_eq_shared (he : ∀ node ∈ e.nodes, ¬ node.Overapplied) (T : Table) :
    ∃ T', T.Gains (distinctNames e.nodes).length T' ∧
      e.toTy T = .ok (e.under fun n => .var (T.size + (distinctNames e.nodes).idxOf n),
        ⟨(distinctNames e.nodes).zipIdx T.size⟩) T' := by
  refine ⟨(e.converted T).table, ?_, ?_⟩
  · unfold converted distinctNames
    rw [parameters_eq_namesOf]
    exact Conversion.gains_meetAll T _
  · have hkeys : (e.converted T).params.keys = distinctNames e.nodes := by
      unfold converted distinctNames
      rw [Conversion.keys_meetAll_empty, parameters_eq_namesOf]
    have hentries := (e.numbered_converted T).entries
    rw [hkeys] at hentries
    have hunder : (e.under fun n => .var ((e.converted T).unknown n)) =
        e.under fun n => .var (T.size + (distinctNames e.nodes).idxOf n) := by
      refine under_congr fun n hn => ?_
      unfold converted distinctNames
      rw [Conversion.unknown_meetAll_empty T hn, parameters_eq_namesOf]
    rw [toTy_eq (unapplied_iff.2 he), hunder, ← hentries]

theorem exists_first_overapplied (he : ¬ ∀ node ∈ e.nodes, ¬ node.Overapplied) :
    ∃ before bad after, e.nodes = before ++ bad :: after ∧
      (∀ node ∈ before, ¬ node.Overapplied) ∧ bad.Overapplied := by
  cases hfind : e.nodes.find? fun node => decide node.Overapplied with
  | none =>
    refine absurd (fun node hnode => ?_) he
    simpa using List.find?_eq_none.1 hfind node hnode
  | some bad =>
    obtain ⟨hbad, before, after, hnodes, hbefore⟩ := List.find?_eq_some_iff_append.1 hfind
    refine ⟨before, bad, after, hnodes, fun node hnode => ?_, of_decide_eq_true hbad⟩
    simpa using hbefore node hnode

theorem toTy_eq_refused (he : ¬ ∀ node ∈ e.nodes, ¬ node.Overapplied) (T : Table) :
    ∃ before bad after, e.nodes = before ++ bad :: after ∧
      (∀ node ∈ before, ¬ node.Overapplied) ∧ bad.Overapplied ∧
      ∃ T', T.Gains (distinctNames before).length T' ∧
        e.toTy T = .error (.parameterArity bad.name bad.params.length bad.span) T' := by
  obtain ⟨before, bad, after, hnodes, hbefore, hbad⟩ := exists_first_overapplied he
  refine ⟨before, bad, after, hnodes, hbefore, hbad, _,
    Conversion.gains_meetAll T (namesOf before), ?_⟩
  rw [toTy, Conversion.convert_refused_at hbad hnodes hbefore]

/-- A conversion shares unknowns exactly by name.  It succeeds if and only if no parameter has
arguments.  Then the distinct names get the next unknowns in the order in which they first
occur; these stand for the parameters in the type, and they are what is returned for the names.
Otherwise the first parameter with arguments is reported, and the names before it have got
unknowns.  In both cases the table gains these unknowns, and nothing else in it changes. -/
theorem toTy_shares (e : TypeExpr) (T : Table) :
    ((∃ result T', e.toTy T = .ok result T') ↔ ∀ node ∈ e.nodes, ¬ node.Overapplied) ∧
    ((∀ node ∈ e.nodes, ¬ node.Overapplied) →
      ∃ T', T.Gains (distinctNames e.nodes).length T' ∧
        e.toTy T = .ok (e.under fun n => .var (T.size + (distinctNames e.nodes).idxOf n),
          ⟨(distinctNames e.nodes).zipIdx T.size⟩) T') ∧
    ((¬ ∀ node ∈ e.nodes, ¬ node.Overapplied) →
      ∃ before bad after, e.nodes = before ++ bad :: after ∧
        (∀ node ∈ before, ¬ node.Overapplied) ∧ bad.Overapplied ∧
        ∃ T', T.Gains (distinctNames before).length T' ∧
          e.toTy T = .error (.parameterArity bad.name bad.params.length bad.span) T') := by
  refine ⟨⟨?_, ?_⟩, fun he => toTy_eq_shared he T, fun he => toTy_eq_refused he T⟩
  · rintro ⟨result, T', hok⟩
    by_contra he
    obtain ⟨before, bad, after, -, -, -, T'', -, herror⟩ := toTy_eq_refused he T
    cases hok.symm.trans herror
  · intro he
    obtain ⟨T', -, hok⟩ := toTy_eq_shared he T
    exact ⟨_, T', hok⟩

/-- The expression `Map{b, List{a}, b}`. -/
def shared : TypeExpr :=
  apply "Map" [⟨"b", [], true, ⟨4, 5⟩⟩, apply "List" [⟨"a", [], true, ⟨12, 13⟩⟩] ⟨7, 14⟩,
    ⟨"b", [], true, ⟨16, 17⟩⟩] ⟨0, 18⟩

/-- The expression `Map{b, b, f{a}, g{b}}`, of which the last two arguments are refused. -/
def misused : TypeExpr :=
  apply "Map" [⟨"b", [], true, ⟨4, 5⟩⟩, ⟨"b", [], true, ⟨7, 8⟩⟩,
    ⟨"f", [⟨"a", [], true, ⟨12, 13⟩⟩], true, ⟨10, 14⟩⟩,
    ⟨"g", [⟨"b", [], true, ⟨18, 19⟩⟩], true, ⟨16, 20⟩⟩] ⟨0, 21⟩

theorem toTy_shares_map :
    (∃ T', Table.empty.Gains 2 T' ∧ shared.toTy Table.empty =
      .ok (.con "Map" [.var 0, .con "List" [.var 1], .var 0], ⟨[("b", 0), ("a", 1)]⟩) T') ∧
    (¬ ∃ result T', misused.toTy Table.empty = .ok result T') ∧
    ∃ T', Table.empty.Gains 1 T' ∧
      misused.toTy Table.empty = .error (.parameterArity "f" 1 ⟨10, 14⟩) T' := by
  have hshared : ∀ node ∈ shared.nodes, ¬ node.Overapplied := by decide +kernel
  have hmisused : ¬ ∀ node ∈ misused.nodes, ¬ node.Overapplied := by decide +kernel
  have hnames : distinctNames shared.nodes = ["b", "a"] := by decide +kernel
  have hrefused : misused.toTy Table.empty =
      .error (.parameterArity "f" 1 ⟨10, 14⟩) ⟨#[⟨0, 0, none⟩]⟩ := by decide +kernel
  obtain ⟨hiff, -, hfirst⟩ := toTy_shares misused Table.empty
  obtain ⟨T', hgains, hrun⟩ := (toTy_shares shared Table.empty).2.1 hshared
  rw [hnames] at hgains hrun
  refine ⟨⟨T', hgains, hrun⟩, fun hok => hmisused (hiff.1 hok), _, ?_, hrefused⟩
  obtain ⟨before, bad, after, -, -, -, T'', hgains', hrun'⟩ := hfirst hmisused
  obtain ⟨-, rfl⟩ := Outcome.error.inj (hrefused.symm.trans hrun')
  have hlength : 1 = (distinctNames before).length :=
    hgains'.size.trans (Nat.zero_add _)
  rw [hlength]
  exact hgains'

end TypeExpr

end TypeLayer
