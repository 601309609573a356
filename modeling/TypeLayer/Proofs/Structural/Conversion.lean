import TypeLayer.Proofs.Structural.Fresh
import TypeLayer.Structural.OfExpr

/-!
# What conversion makes of a type expression

A conversion walks over an expression from left to right and gives a new unknown to each
parameter, unless it has met the name before.  What it ends in can therefore be said in
advance: the names of the parameters have been met in the order in which they stand
(`Conversion.meetAll`), and the type is the expression with the unknowns in place of the
parameters (`TypeExpr.under`).

The groups are

* expressions under given types of their parameters, and how these read apart from spans;
* the run of a conversion: `convert_eq` where no parameter has arguments, `convert_refused`
  where one has;
* the numbers of the unknowns.  `Numbered` says that the names met so far are numbered in
  order from the size of the table on, so that a name and its unknown determine each other,
  and any types can be given to the unknowns (`Numbered.exists_assignment`).
-/

namespace TypeLayer

namespace TypeExpr

/-! ## Expressions under types of their parameters -/

/-- No parameter is applied to arguments. -/
inductive Unapplied : TypeExpr → Prop
  | parameter (name : String) (span : Span) : Unapplied ⟨name, [], true, span⟩
  | constructor {name : String} {params : List TypeExpr} {span : Span} :
    (∀ p ∈ params, Unapplied p) → Unapplied ⟨name, params, false, span⟩

mutual
/-- The names of the parameters from left to right, with repetitions. -/
def parameters : TypeExpr → List String
  | { name, params, parameter, .. } =>
    if parameter then name :: parametersAll params else parametersAll params
def parametersAll : List TypeExpr → List String
  | [] => []
  | e :: rest => parameters e ++ parametersAll rest
end

mutual
/-- The structural type of an expression for given types of its parameters. -/
def under (σ : String → Ty) : TypeExpr → Ty
  | { name, params, parameter, .. } => if parameter then σ name else .con name (underAll σ params)
def underAll (σ : String → Ty) : List TypeExpr → List Ty
  | [] => []
  | e :: rest => under σ e :: underAll σ rest
end

section
variable {σ τ : String → Ty} {e : TypeExpr} {es : List TypeExpr} {name : String} {span : Span}

theorem parametersAll_eq_flatMap (es : List TypeExpr) :
    parametersAll es = es.flatMap parameters := by
  induction es with
  | nil => rfl
  | cons e rest ih => simp [parametersAll, ih]

theorem underAll_eq_map (σ : String → Ty) (es : List TypeExpr) :
    underAll σ es = es.map (under σ) := by
  induction es with
  | nil => rfl
  | cons e rest ih => simp [underAll, ih]

@[simp] theorem parameters_parameter : parameters ⟨name, [], true, span⟩ = [name] := by
  simp [parameters, parametersAll]

@[simp] theorem parameters_constructor :
    parameters ⟨name, es, false, span⟩ = es.flatMap parameters := by
  simp [parameters, parametersAll_eq_flatMap]

@[simp] theorem under_parameter : under σ ⟨name, es, true, span⟩ = σ name := by
  simp [under]

@[simp] theorem under_constructor :
    under σ ⟨name, es, false, span⟩ = .con name (es.map (under σ)) := by
  simp [under, underAll_eq_map]

@[simp] theorem unapplied_parameter_iff : Unapplied ⟨name, es, true, span⟩ ↔ es = [] := by
  constructor
  · rintro ⟨⟩
    rfl
  · rintro rfl
    exact .parameter name span

@[simp] theorem unapplied_constructor_iff :
    Unapplied ⟨name, es, false, span⟩ ↔ ∀ p ∈ es, Unapplied p := by
  constructor
  · rintro ⟨⟩
    assumption
  · exact .constructor

/-- Only the types of parameters that occur count. -/
theorem under_congr (h : ∀ n ∈ e.parameters, σ n = τ n) : e.under σ = e.under τ := by
  induction e using TypeExpr.induction_on with
  | node name params parameter span ih =>
    cases parameter with
    | true => simpa using h name (by simp [parameters])
    | false =>
      simp only [parameters_constructor, List.mem_flatMap] at h
      simp only [under_constructor, Ty.con.injEq, true_and]
      refine List.map_congr_left fun p hp => ih p hp fun n hn => h n ⟨p, hp, hn⟩

theorem mem_occurrences_under {v : TyVar} (h : v ∈ (e.under σ).occurrences) :
    ∃ n ∈ e.parameters, v ∈ (σ n).occurrences := by
  induction e using TypeExpr.induction_on with
  | node name params parameter span ih =>
    cases parameter with
    | true => exact ⟨name, by simp [parameters], by simpa using h⟩
    | false =>
      rw [under_constructor, Ty.mem_occurrences_con] at h
      obtain ⟨t, ht, hv⟩ := h
      obtain ⟨p, hp, rfl⟩ := List.mem_map.1 ht
      obtain ⟨n, hn, hv⟩ := ih p hp hv
      exact ⟨n, by simpa using ⟨p, hp, hn⟩, hv⟩

end

end TypeExpr

/-! ## The run of a conversion -/

namespace Conversion

open TypeLayer.Action TypeExpr

variable {T : Table} {c : Conversion} {name n : String} {v : TyVar} {names : List String}

/-- The state after a parameter has been met. -/
def meet (c : Conversion) (name : String) : Conversion :=
  match c.params.get? name with
  | some _ => c
  | none => ⟨c.table.fresh.2, c.params.insert name c.table.size⟩

/-- The state after some parameters have been met. -/
def meetAll (c : Conversion) (names : List String) : Conversion :=
  names.foldl meet c

/-- The unknown of a parameter that has been met. -/
def unknown (c : Conversion) (name : String) : TyVar :=
  (c.params.get? name).getD 0

theorem unknown_eq (h : c.params.get? name = some v) : c.unknown name = v := by
  simp [unknown, h]

theorem meetAll_append (c : Conversion) (names names' : List String) :
    c.meetAll (names ++ names') = (c.meetAll names).meetAll names' :=
  List.foldl_append

/-- A parameter keeps its unknown when others are met. -/
theorem get?_meet (h : c.params.get? n = some v) : (c.meet name).params.get? n = some v := by
  unfold meet
  split
  · exact h
  · next hnew => exact Assoc.get?_insert_of_unknown hnew h

theorem get?_meetAll (h : c.params.get? n = some v) :
    (c.meetAll names).params.get? n = some v := by
  induction names generalizing c with
  | nil => exact h
  | cons name rest ih => exact ih (get?_meet h)

theorem exists_get?_meet (c : Conversion) (name : String) :
    ∃ v, (c.meet name).params.get? name = some v := by
  unfold meet
  split
  · next v hv => exact ⟨v, hv⟩
  · exact ⟨_, Assoc.get?_insert_self _ _ _⟩

theorem exists_get?_meetAll (h : n ∈ names) : ∃ v, (c.meetAll names).params.get? n = some v := by
  induction names generalizing c with
  | nil => cases h
  | cons name rest ih =>
    rcases List.mem_cons.1 h with rfl | h
    · obtain ⟨v, hv⟩ := c.exists_get?_meet n
      exact ⟨v, get?_meetAll (c := c.meet n) hv⟩
    · exact ih h

theorem param_eq (c : Conversion) (name : String) :
    param name c = .ok (.var ((c.meet name).unknown name)) (c.meet name) := by
  unfold param meet
  cases hname : c.params.get? name with
  | some v => simp [unknown, hname]
  | none => simp [unknown, Table.fresh]

/-- The unknowns that an expression has got are not changed by what is met after it. -/
theorem under_meetAll (e : TypeExpr) (c : Conversion) (names : List String) :
    (e.under fun n => .var (((c.meetAll e.parameters).meetAll names).unknown n)) =
      e.under fun n => .var ((c.meetAll e.parameters).unknown n) := by
  refine under_congr fun n hn => ?_
  obtain ⟨v, hv⟩ := exists_get?_meetAll (c := c) hn
  rw [unknown_eq hv, unknown_eq (get?_meetAll hv)]

/-- The conversion of an expression from a state ends as foreseen. -/
def Foreseen (e : TypeExpr) (c : Conversion) : Prop :=
  convert e c = .ok (e.under fun n => .var ((c.meetAll e.parameters).unknown n))
    (c.meetAll e.parameters)

theorem convertAll_eq {es : List TypeExpr} (h : ∀ e ∈ es, ∀ c, Foreseen e c) (c : Conversion) :
    convertAll es c =
      .ok (es.map (under fun n => .var ((c.meetAll (es.flatMap parameters)).unknown n)))
        (c.meetAll (es.flatMap parameters)) := by
  induction es generalizing c with
  | nil => rfl
  | cons e rest ih =>
    rw [List.forall_mem_cons] at h
    have hfirst : convert e c = _ := h.1 c
    rw [convertAll, bind_apply, hfirst]
    simp only [bind_apply, ih h.2, pure_apply, List.flatMap_cons, meetAll_append, List.map_cons,
      under_meetAll]

/-- Where no parameter has arguments, the conversion meets the parameters, and returns the
expression with their unknowns. -/
theorem convert_eq {e : TypeExpr} (he : e.Unapplied) (c : Conversion) : Foreseen e c := by
  induction he generalizing c with
  | parameter name span =>
    unfold Foreseen
    rw [convert, if_pos rfl]
    show param name c = _
    rw [param_eq]
    simp [meetAll]
  | constructor _ ih =>
    unfold Foreseen
    rw [convert, if_neg Bool.false_ne_true, bind_apply, convertAll_eq ih]
    simp

/-- The names met since the table was `T` are numbered in order, from the size of `T` on. -/
structure Numbered (T : Table) (c : Conversion) : Prop where
  table : c.table = T.grow c.params.keys.length
  entries : c.params.entries = c.params.keys.zipIdx T.size
  nodup : c.params.keys.Nodup

theorem numbered_empty (T : Table) : Numbered T ⟨T, ∅⟩ :=
  ⟨rfl, rfl, List.nodup_nil⟩

theorem keys_meet : n ∈ (c.meet name).params.keys ↔ n ∈ c.params.keys ∨ n = name := by
  unfold meet
  split
  · next v hv =>
    have hname : name ∈ c.params.keys := Assoc.mem_keys_iff.2 ⟨v, hv⟩
    constructor
    · exact Or.inl
    · rintro (h | rfl)
      · exact h
      · exact hname
  · next hnew => simp [Assoc.keys, Assoc.entries_insert_of_unknown hnew]

theorem keys_meetAll : n ∈ (c.meetAll names).params.keys ↔ n ∈ c.params.keys ∨ n ∈ names := by
  induction names generalizing c with
  | nil => simp [meetAll]
  | cons name rest ih =>
    show n ∈ ((c.meet name).meetAll rest).params.keys ↔ _
    rw [ih, keys_meet, List.mem_cons, or_assoc]

theorem Numbered.meet (hc : Numbered T c) (name : String) : Numbered T (c.meet name) := by
  unfold Conversion.meet
  split
  · exact hc
  · next hnew =>
    have hentries := Assoc.entries_insert_of_unknown (a := c.table.size) hnew
    have hkeys : (c.params.insert name c.table.size).keys = c.params.keys ++ [name] := by
      simp [Assoc.keys, hentries]
    have hname : name ∉ c.params.keys := by
      rw [Assoc.mem_keys_iff, hnew]
      simp
    have hsize : c.table.size = T.size + c.params.keys.length := by
      rw [hc.table, Table.size_grow]
    refine ⟨?_, ?_, ?_⟩
    · show c.table.fresh.2 = _
      rw [hkeys, List.length_append, Table.grow_add, ← hc.table]
      rfl
    · show (c.params.insert name c.table.size).entries = _
      rw [hentries, hkeys, List.zipIdx_append, hc.entries, hsize]
      rfl
    · show (c.params.insert name c.table.size).keys.Nodup
      rw [hkeys, List.nodup_append]
      refine ⟨hc.nodup, by simp, fun a ha b hb => ?_⟩
      rw [List.mem_singleton.1 hb]
      exact fun heq => hname (heq ▸ ha)

theorem Numbered.meetAll (hc : Numbered T c) (names : List String) :
    Numbered T (c.meetAll names) := by
  induction names generalizing c with
  | nil => exact hc
  | cons name rest ih => exact ih (hc.meet name)

/-- A name and its unknown determine each other. -/
theorem Numbered.get?_eq_some_iff (hc : Numbered T c) :
    c.params.get? n = some v ↔ T.size ≤ v ∧ c.params.keys[v - T.size]? = some n := by
  rw [Assoc.get?_eq_some_iff hc.nodup, hc.entries, List.mem_zipIdx_iff_le_and_getElem?_sub]

theorem Numbered.lt_size (hc : Numbered T c) (h : c.params.get? n = some v) :
    v < c.table.size := by
  obtain ⟨hle, hkey⟩ := hc.get?_eq_some_iff.1 h
  have hlt : v - T.size < c.params.keys.length := (List.getElem?_eq_some_iff.1 hkey).1
  rw [hc.table, Table.size_grow]
  exact (Nat.sub_lt_iff_lt_add' hle).1 hlt

theorem Numbered.eq_of_get? (hc : Numbered T c) {m : String} (hn : c.params.get? n = some v)
    (hm : c.params.get? m = some v) : n = m := by
  have hkey := (hc.get?_eq_some_iff.1 hn).2
  rw [(hc.get?_eq_some_iff.1 hm).2] at hkey
  exact (Option.some.inj hkey).symm

end Conversion

/-! ## Conversions from a table -/

namespace TypeExpr

variable {T : Table} {e : TypeExpr}

/-- The state that the conversion of an expression ends in. -/
def converted (e : TypeExpr) (T : Table) : Conversion :=
  Conversion.meetAll ⟨T, ∅⟩ e.parameters

theorem toTy_eq (he : e.Unapplied) (T : Table) :
    e.toTy T = .ok (e.under fun n => .var ((e.converted T).unknown n), (e.converted T).params)
      (e.converted T).table := by
  have hrun : Conversion.convert e ⟨T, ∅⟩ = _ := Conversion.convert_eq he ⟨T, ∅⟩
  rw [toTy, hrun]
  rfl

theorem numbered_converted (e : TypeExpr) (T : Table) :
    Conversion.Numbered T (e.converted T) :=
  (Conversion.numbered_empty T).meetAll e.parameters

theorem mem_keys_converted {n : String} :
    n ∈ (e.converted T).params.keys ↔ n ∈ e.parameters := by
  rw [converted, Conversion.keys_meetAll]
  simp [Assoc.keys, EmptyCollection.emptyCollection, Assoc.empty]

/-- The unknown of a parameter has been created by its conversion. -/
theorem unknown_converted_lt {n : String} (h : n ∈ e.parameters) :
    (e.converted T).unknown n < (e.converted T).table.size := by
  obtain ⟨v, hv⟩ := Assoc.mem_keys_iff.1 (TypeExpr.mem_keys_converted.2 h)
  rw [Conversion.unknown_eq hv]
  exact (e.numbered_converted T).lt_size hv

theorem size_le_converted (T : Table) (e : TypeExpr) : T.size ≤ (e.converted T).table.size := by
  rw [(e.numbered_converted T).table, Table.size_grow]
  exact Nat.le_add_right _ _

end TypeExpr

end TypeLayer
