import TypeLayer.Proofs.Structural.Substitution

/-!
# Solutions of a table

A table of unknowns says two things: which unknowns stand for the same type, and
to which application a class is bound.  An assignment that respects both is a
solution of the table (`Table.Solves`).  What a change of the table means is what
it does to the solutions:

* a new unknown changes nothing (`solves_fresh`);
* joining two classes leaves the solutions that give both the same type
  (`solves_merge`);
* binding a class leaves the solutions that give it the type it is bound to
  (`solves_bind`).

`Table.WellFormed` is the invariant of every table that calls of the library
lead to.  Its last part, that there is a solution, takes the place of a condition
on the bindings: a type that had to contain itself would be larger than itself.
The proofs below read the table through `Table.classOf` only; what each change
does to `classOf` is proved first.
-/

namespace TypeLayer.Table

variable {T : Table}

/-- All unknowns of the type have been created. -/
def Covers (T : Table) (t : Ty) : Prop :=
  ∀ v ∈ t.occurrences, v < T.size

instance (T : Table) (t : Ty) : Decidable (T.Covers t) :=
  inferInstanceAs (Decidable (∀ v ∈ t.occurrences, v < T.size))

@[simp] theorem covers_var {v : TyVar} : T.Covers (.var v) ↔ v < T.size := by
  simp [Covers]

theorem covers_con {name : String} {args : List Ty} :
    T.Covers (.con name args) ↔ ∀ a ∈ args, T.Covers a := by
  simp only [Covers, Ty.mem_occurrences_con]
  constructor
  · intro h a ha v hv
    exact h v ⟨a, ha, hv⟩
  · intro h v hmem
    rcases hmem with ⟨a, ha, hv⟩
    exact h a ha v hv

theorem covers_nullary (name : String) : T.Covers (.con name []) := by
  simp [covers_con]

theorem covers_curried {ts : List Ty} {t : Ty} :
    T.Covers (Ty.curried ts t) ↔ (∀ u ∈ ts, T.Covers u) ∧ T.Covers t := by
  simp only [Covers, Ty.mem_occurrences_curried]
  constructor
  · intro h
    exact ⟨fun u hu v hv => h v (.inl ⟨u, hu, hv⟩), fun v hv => h v (.inr hv)⟩
  · intro h v hv
    rcases hv with ⟨u, hu, hv⟩ | hv
    · exact h.1 u hu v hv
    · exact h.2 v hv

theorem Covers.mono {T' : Table} {t : Ty} (h : T.Covers t) (hle : T.size ≤ T'.size) :
    T'.Covers t :=
  fun v hv => Nat.lt_of_lt_of_le (h v hv) hle

/-! ## Classes -/

theorem classOf_eq_ok_iff {v r : TyVar} {b : Option Ty} :
    T.classOf v = .ok (r, b) ↔
      ∃ e e', T.entries[v]? = some e ∧ T.entries[e.root]? = some e' ∧
        e.root = r ∧ e'.binding = b := by
  unfold classOf
  cases hv : T.entries[v]? with
  | none => simp
  | some e =>
    cases hr : T.entries[e.root]? with
    | none => simp [hr]
    | some e' => simp [hr]

theorem lt_size_of_classOf {v r : TyVar} {b : Option Ty} (h : T.classOf v = .ok (r, b)) :
    v < T.size := by
  obtain ⟨e, _, he, _⟩ := classOf_eq_ok_iff.1 h
  exact (Array.getElem?_eq_some_iff.1 he).1

theorem root_lt_size_of_classOf {v r : TyVar} {b : Option Ty} (h : T.classOf v = .ok (r, b)) :
    r < T.size := by
  obtain ⟨e, e', _, he', rfl, _⟩ := classOf_eq_ok_iff.1 h
  exact (Array.getElem?_eq_some_iff.1 he').1

/-- An unknown that was not created has no class. -/
theorem classOf_of_size_le {v : TyVar} (h : T.size ≤ v) :
    T.classOf v = .error (.unknownVariable v) := by
  have hnone : T.entries[v]? = none := Array.getElem?_eq_none h
  unfold classOf
  rw [hnone]

/-! ## What each change does to the classes -/

@[simp] theorem size_fresh : T.fresh.2.size = T.size + 1 := by
  simp [fresh, size]

@[simp] theorem size_bind (root : TyVar) (t : Ty) : (T.bind root t).size = T.size := by
  simp [bind, size]

@[simp] theorem size_link (child parent : TyVar) : (T.link child parent).size = T.size := by
  simp [link, size]

@[simp] theorem size_setRank (v : TyVar) (n : Nat) : (T.setRank v n).size = T.size := by
  simp [setRank, size]

@[simp] theorem size_merge (a b : TyVar) : (T.merge a b).size = T.size := by
  unfold merge
  split
  · simp
  · split <;> simp

private theorem entries_bind (root : TyVar) (t : Ty) (w : TyVar) :
    (T.bind root t).entries[w]? =
      T.entries[w]?.map fun e => { e with binding := if w = root then some t else e.binding } := by
  simp only [bind, Array.getElem?_modify]
  by_cases hw : root = w
  · simp [hw]
  · simp [hw, Ne.symm hw]

/-- Binding a class shows at all its unknowns and nowhere else. -/
theorem classOf_bind {root v r : TyVar} {t : Ty} {b : Option Ty} :
    (T.bind root t).classOf v = .ok (r, b) ↔
      ∃ c, T.classOf v = .ok (r, c) ∧ b = if r = root then some t else c := by
  simp only [classOf_eq_ok_iff, entries_bind, Option.map_eq_some_iff]
  constructor
  · intro hentry
    rcases hentry with ⟨_, _, ⟨e, he, rfl⟩, ⟨e', he', rfl⟩, rfl, rfl⟩
    exact ⟨e'.binding, ⟨e, e', he, he', rfl, rfl⟩, rfl⟩
  · intro hentry
    rcases hentry with ⟨_, ⟨e, e', he, he', rfl, rfl⟩, rfl⟩
    exact ⟨_, _, ⟨e, he, rfl⟩, ⟨e', he', rfl⟩, rfl, rfl⟩

private theorem entries_setRank (v : TyVar) (n : Nat) (w : TyVar) :
    (T.setRank v n).entries[w]? =
      T.entries[w]?.map fun e => { e with rank := if w = v then n else e.rank } := by
  simp only [setRank, Array.getElem?_modify]
  by_cases hw : v = w
  · simp [hw]
  · simp [hw, Ne.symm hw]

theorem classOf_setRank {u v r : TyVar} {n : Nat} {b : Option Ty} :
    (T.setRank u n).classOf v = .ok (r, b) ↔ T.classOf v = .ok (r, b) := by
  simp only [classOf_eq_ok_iff, entries_setRank, Option.map_eq_some_iff]
  constructor
  · intro hentry
    rcases hentry with ⟨_, _, ⟨e, he, rfl⟩, ⟨e', he', rfl⟩, rfl, rfl⟩
    exact ⟨e, e', he, he', rfl, rfl⟩
  · intro hentry
    rcases hentry with ⟨e, e', he, he', rfl, rfl⟩
    exact ⟨_, _, ⟨e, he, rfl⟩, ⟨e', he', rfl⟩, rfl, rfl⟩

private theorem entries_link (child parent w : TyVar) :
    (T.link child parent).entries[w]? =
      T.entries[w]?.map fun e => { e with root := if e.root = child then parent else e.root } := by
  simp only [link, Array.getElem?_map]
  refine congrArg (fun g => Option.map g T.entries[w]?) (funext fun e => ?_)
  split <;> simp_all

/-- Moving a free class to a free one gives its unknowns the other
representative. -/
theorem classOf_link {child parent v r : TyVar} {b : Option Ty}
    (hchild : T.classOf child = .ok (child, none)) (hparent : T.classOf parent = .ok (parent, none)) :
    (T.link child parent).classOf v = .ok (r, b) ↔
      ∃ q, T.classOf v = .ok (q, b) ∧ r = if q = child then parent else q := by
  obtain ⟨c, c', hc, hc', hcroot, hcfree⟩ := classOf_eq_ok_iff.1 hchild
  obtain ⟨p, p', hp, hp', hproot, hpfree⟩ := classOf_eq_ok_iff.1 hparent
  rw [hcroot] at hc'
  rw [hproot] at hp'
  simp only [classOf_eq_ok_iff, entries_link, Option.map_eq_some_iff]
  constructor
  · intro hentry
    rcases hentry with ⟨_, _, ⟨e, he, rfl⟩, ⟨e', he', rfl⟩, rfl, rfl⟩
    by_cases hmoved : e.root = child
    · rw [if_pos hmoved, hp'] at he'
      obtain rfl := Option.some.inj he'
      refine ⟨child, ⟨e, c', he, by rw [hmoved]; exact hc', hmoved, ?_⟩, by simp [hmoved]⟩
      rw [hcfree, hpfree]
    · rw [if_neg hmoved] at he'
      exact ⟨e.root, ⟨e, e', he, he', rfl, rfl⟩, rfl⟩
  · intro hentry
    rcases hentry with ⟨_, ⟨e, e', he, he', rfl, rfl⟩, rfl⟩
    by_cases hmoved : e.root = child
    · rw [hmoved, hc'] at he'
      obtain rfl := Option.some.inj he'
      refine ⟨_, _, ⟨e, he, rfl⟩, ⟨p', ?_, rfl⟩, rfl, ?_⟩
      · simp only [if_pos hmoved]
        exact hp'
      · simp only
        rw [hcfree, hpfree]
    · refine ⟨_, _, ⟨e, he, rfl⟩, ⟨e', ?_, rfl⟩, rfl, rfl⟩
      simp only [if_neg hmoved]
      exact he'

/-- Joining two free classes: one of the two representatives stands for both, and
nothing else changes. -/
theorem classOf_merge {a b : TyVar} (ha : T.classOf a = .ok (a, none))
    (hb : T.classOf b = .ok (b, none)) :
    ∃ child parent, (child = a ∧ parent = b ∨ child = b ∧ parent = a) ∧
      ∀ v r c, (T.merge a b).classOf v = .ok (r, c) ↔
        ∃ q, T.classOf v = .ok (q, c) ∧ r = if q = child then parent else q := by
  unfold merge
  split
  · exact ⟨b, a, Or.inr ⟨rfl, rfl⟩, fun _ _ _ => classOf_link hb ha⟩
  · split
    · exact ⟨a, b, Or.inl ⟨rfl, rfl⟩, fun _ _ _ => classOf_link ha hb⟩
    · refine ⟨a, b, Or.inl ⟨rfl, rfl⟩, fun _ _ _ => ?_⟩
      rw [classOf_setRank]
      exact classOf_link ha hb

/-- A new unknown is free and alone, and the classes of the others stay. -/
theorem classOf_fresh (hcreated : ∀ v, v < T.size → ∃ r b, T.classOf v = .ok (r, b))
    {v r : TyVar} {b : Option Ty} :
    T.fresh.2.classOf v = .ok (r, b) ↔
      T.classOf v = .ok (r, b) ∨ v = T.size ∧ r = T.size ∧ b = none := by
  have hpush : ∀ w, T.fresh.2.entries[w]? =
      if w = T.size then some ⟨T.size, 0, none⟩ else T.entries[w]? := by
    intro w
    exact Array.getElem?_push
  have hold : ∀ {w e}, T.entries[w]? = some e → w ≠ T.size := by
    intro w e he
    have hlt : w < T.size := (Array.getElem?_eq_some_iff.1 he).1
    omega
  simp only [classOf_eq_ok_iff, hpush]
  constructor
  · intro hentry
    rcases hentry with ⟨e, e', he, he', rfl, rfl⟩
    by_cases hv : v = T.size
    · rw [if_pos hv] at he
      obtain rfl := Option.some.inj he
      rw [if_pos rfl] at he'
      obtain rfl := Option.some.inj he'
      exact Or.inr ⟨hv, rfl, rfl⟩
    · rw [if_neg hv] at he
      have hlt : v < T.size := (Array.getElem?_eq_some_iff.1 he).1
      obtain ⟨r, b, hclass⟩ := hcreated v hlt
      obtain ⟨f, f', hf, hf', _⟩ := classOf_eq_ok_iff.1 hclass
      rw [he] at hf
      obtain rfl := Option.some.inj hf
      rw [if_neg (hold hf')] at he'
      exact Or.inl ⟨e, e', he, he', rfl, rfl⟩
  · intro hentry
    rcases hentry with ⟨e, e', he, he', rfl, rfl⟩ | ⟨rfl, rfl, rfl⟩
    · exact ⟨e, e', by rw [if_neg (hold he)]; exact he, by rw [if_neg (hold he')]; exact he',
        rfl, rfl⟩
    · exact ⟨_, _, if_pos rfl, if_pos rfl, rfl, rfl⟩

/-! ## Solutions and well-formed tables -/

/-- Two unknowns stand for the same type. -/
def SameClass (T : Table) (v w : TyVar) : Prop :=
  ∃ r b, T.classOf v = .ok (r, b) ∧ T.classOf w = .ok (r, b)

/-- The assignment gives the unknowns of a class the same type, and the unknowns
of a bound class the type that the class is bound to. -/
structure Solves (T : Table) (s : Assignment) : Prop where
  same : ∀ {v w}, T.SameClass v w → s v = s w
  bound : ∀ {v r t}, T.classOf v = .ok (r, some t) → s v = t.subst s

structure WellFormed (T : Table) : Prop where
  /-- Every unknown that was created has a class. -/
  created : ∀ v, v < T.size → ∃ r b, T.classOf v = .ok (r, b)
  /-- A representative belongs to the class it represents. -/
  rooted : ∀ {v r b}, T.classOf v = .ok (r, b) → T.classOf r = .ok (r, b)
  /-- Classes are bound to applications. -/
  named : ∀ {v r t}, T.classOf v = .ok (r, some t) → ∃ name args, t = .con name args
  /-- Classes are bound to types of which the unknowns have been created. -/
  covered : ∀ {v r t}, T.classOf v = .ok (r, some t) → T.Covers t
  /-- No class is bound to a type that contains it. -/
  solvable : ∃ s, T.Solves s

theorem Solves.root {s : Assignment} {v r : TyVar} {b : Option Ty} (hs : T.Solves s)
    (hT : T.WellFormed) (h : T.classOf v = .ok (r, b)) : s v = s r :=
  hs.same ⟨r, b, h, hT.rooted h⟩

/-- A table without unknowns imposes nothing. -/
theorem solves_empty (s : Assignment) : empty.Solves s := by
  constructor
  · intro v w hsame
    rcases hsame with ⟨r, b, hv, _⟩
    exact absurd (lt_size_of_classOf hv) (Nat.not_lt_zero v)
  · intro v r t h
    exact absurd (lt_size_of_classOf h) (Nat.not_lt_zero v)

theorem wellFormed_empty : empty.WellFormed where
  created := fun v hv => absurd hv (Nat.not_lt_zero v)
  rooted := fun h => absurd (lt_size_of_classOf h) (Nat.not_lt_zero _)
  named := fun h => absurd (lt_size_of_classOf h) (Nat.not_lt_zero _)
  covered := fun h => absurd (lt_size_of_classOf h) (Nat.not_lt_zero _)
  solvable := ⟨Ty.var, solves_empty Ty.var⟩

/-! ## What each change does to the solutions -/

/-- A new unknown is not constrained. -/
theorem solves_fresh (hT : T.WellFormed) {s : Assignment} : T.fresh.2.Solves s ↔ T.Solves s := by
  constructor
  · intro hs
    constructor
    · intro v w hsame
      rcases hsame with ⟨r, b, hv, hw⟩
      exact hs.same ⟨r, b, (classOf_fresh hT.created).2 (Or.inl hv),
        (classOf_fresh hT.created).2 (Or.inl hw)⟩
    · intro v r t h
      exact hs.bound ((classOf_fresh hT.created).2 (Or.inl h))
  · intro hs
    constructor
    · intro v w hsame
      rcases hsame with ⟨r, b, hv, hw⟩
      rcases (classOf_fresh hT.created).1 hv with hv | ⟨rfl, rfl, rfl⟩ <;>
        rcases (classOf_fresh hT.created).1 hw with hw | ⟨rfl, hr, hb⟩
      · exact hs.same ⟨r, b, hv, hw⟩
      · exact absurd (root_lt_size_of_classOf hv) (hr ▸ Nat.lt_irrefl _)
      · exact absurd (root_lt_size_of_classOf hw) (Nat.lt_irrefl _)
      · rfl
    · intro v r t h
      rcases (classOf_fresh hT.created).1 h with h | ⟨_, _, h⟩
      · exact hs.bound h
      · cases h

/-- Joining two classes imposes that they stand for the same type. -/
theorem solves_merge (hT : T.WellFormed) {a b : TyVar} (ha : T.classOf a = .ok (a, none))
    (hb : T.classOf b = .ok (b, none)) {s : Assignment} :
    (T.merge a b).Solves s ↔ T.Solves s ∧ s a = s b := by
  obtain ⟨child, parent, hends, hclass⟩ := classOf_merge ha hb
  have hmove : ∀ {v q c}, T.classOf v = .ok (q, c) →
      (T.merge a b).classOf v = .ok (if q = child then parent else q, c) :=
    fun h => (hclass _ _ _).2 ⟨_, h, rfl⟩
  constructor
  · intro hs
    refine ⟨⟨?_, fun h => hs.bound (hmove h)⟩, ?_⟩
    · intro v w hsame
      rcases hsame with ⟨r, c, hv, hw⟩
      exact hs.same ⟨_, c, hmove hv, hmove hw⟩
    · have hchild : ∀ u, u = child ∨ u = parent → T.classOf u = .ok (u, none) →
          (T.merge a b).classOf u = .ok (parent, none) := by
        intro u hor hu
        rcases hor with rfl | rfl
        · simpa using hmove hu
        · simpa using hmove hu
      rcases hends with ⟨rfl, rfl⟩ | ⟨rfl, rfl⟩
      · exact hs.same ⟨_, _, hchild _ (Or.inl rfl) ha, hchild _ (Or.inr rfl) hb⟩
      · exact hs.same ⟨_, _, hchild _ (Or.inr rfl) ha, hchild _ (Or.inl rfl) hb⟩
  · intro hboth
    rcases hboth with ⟨hs, hab⟩
    have hjoin : s child = s parent := by
      rcases hends with ⟨rfl, rfl⟩ | ⟨rfl, rfl⟩
      · exact hab
      · exact hab.symm
    have hroot : ∀ {v r c}, (T.merge a b).classOf v = .ok (r, c) → s v = s r := by
      intro v r c h
      obtain ⟨q, hq, rfl⟩ := (hclass _ _ _).1 h
      rw [hs.root hT hq]
      split
      · rename_i hmoved
        rw [hmoved]
        exact hjoin
      · rfl
    constructor
    · intro v w hsame
      rcases hsame with ⟨r, c, hv, hw⟩
      rw [hroot hv, hroot hw]
    · intro v r t h
      obtain ⟨q, hq, _⟩ := (hclass _ _ _).1 h
      exact hs.bound hq

/-- Binding a class imposes the equation between the class and the type. -/
theorem solves_bind (hT : T.WellFormed) {root : TyVar} {t : Ty}
    (hroot : T.classOf root = .ok (root, none)) {s : Assignment} :
    (T.bind root t).Solves s ↔ T.Solves s ∧ s root = t.subst s := by
  constructor
  · intro hs
    refine ⟨⟨?_, ?_⟩, hs.bound (classOf_bind.2 ⟨none, hroot, by simp⟩)⟩
    · intro v w hsame
      rcases hsame with ⟨r, b, hv, hw⟩
      exact hs.same ⟨r, _, classOf_bind.2 ⟨b, hv, rfl⟩, classOf_bind.2 ⟨b, hw, rfl⟩⟩
    · intro v r u h
      have hne : r ≠ root := by
        intro heq
        subst heq
        have hfree := hT.rooted h
        rw [hroot] at hfree
        cases hfree
      exact hs.bound (classOf_bind.2 ⟨some u, h, by simp [hne]⟩)
  · intro hboth
    rcases hboth with ⟨hs, heq⟩
    constructor
    · intro v w hsame
      rcases hsame with ⟨r, b, hv, hw⟩
      obtain ⟨c, hv, _⟩ := classOf_bind.1 hv
      obtain ⟨d, hw, _⟩ := classOf_bind.1 hw
      rw [hs.root hT hv, hs.root hT hw]
    · intro v r u h
      obtain ⟨c, hv, hu⟩ := classOf_bind.1 h
      split at hu
      · rename_i hr
        obtain rfl := Option.some.inj hu
        rw [hs.root hT hv, hr]
        exact heq
      · subst hu
        exact hs.bound hv

end TypeLayer.Table
