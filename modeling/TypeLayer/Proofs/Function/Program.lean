import TypeLayer.Proofs.Function.Locality

/-!
# Programs

The functions of a program are typed one after the other on the same table.  As long as
nothing has been imposed on the unknowns of the functions that are still to be typed
(`Table.Ready`), each function ends up in a region of its own (`Table.Hosts`).  Hence
functions do not interfere (`Inference.inferProgram_separate`): later functions leave the
types of earlier ones alone, and types of different functions have no unknown in common.
-/

namespace TypeLayer

open TypeLayer.Action

/-! ## Functions that are still to be typed -/

/-- Functions that were built on the way to the table, each by calls of its own. They
may have been built in any order, with other operations in between. -/
inductive Table.Builds : List Func → Table → Prop
  | start : Builds [] Table.empty
  | operation {funcs : List Func} {T T' : Table} {op : Table.Operation} :
    Builds funcs T → op.after T = some T' → Builds funcs T'
  | build {before after : List Func} {T T' : Table} {name : String} {calls : List Builder.Call}
      {f : Func} :
    Builds (before ++ after) T → Func.build name calls T = .ok (f, T') →
    Builds (before ++ f :: after) T'

/-- The functions can be typed one after the other: nothing has been imposed on their
unknowns. -/
structure Table.Ready (T : Table) (funcs : List Func) : Prop where
  wellFormed : T.WellFormed
  built : ∀ f ∈ funcs, f.Scoped T
  inRange : ∀ f ∈ funcs, f.InRange
  acyclic : ∀ f ∈ funcs, f.Acyclic
  nodup : (funcs.flatMap Func.unknowns).Nodup
  free : T.Independent (funcs.flatMap Func.unknowns)

/-- The region holds a function. -/
structure Table.Hosts (T : Table) (R : Set TyVar) (f : Func) : Prop where
  region : T.Region R
  created : ∀ v ∈ R, v < T.size
  own : f.Within R

/-- The types of the values of two functions have no unknown in common. -/
def Table.Separate (T : Table) (f g : Func) : Prop :=
  ∀ a ∈ f.values, ∀ b ∈ g.values, ∀ t u, T.resolve a.ty = .ok t → T.resolve b.ty = .ok u →
    ∀ v ∈ t.occurrences, v ∉ u.occurrences

section
variable {T T' : Table} {f g : Func} {fs gs : List Func} {R Q : Set TyVar} {env : Env}
  {s' : Inference} {scheme : Scheme} {schemes : List Scheme}

/-- Built functions have created unknowns, and no two of them have one in common. -/
theorem Table.Builds.spec (h : Table.Builds fs T) :
    T.WellFormed ∧ (∀ f ∈ fs, f.Scoped T) ∧ (fs.flatMap Func.unknowns).Nodup ∧
      ∀ u ∈ fs.flatMap Func.unknowns, u < T.size := by
  induction h with
  | start => exact ⟨Table.wellFormed_empty, by simp, by simp, by simp⟩
  | operation _ hop ih =>
    obtain ⟨hT, hscoped, hnodup, hcreated⟩ := ih
    have hevolved := Table.Operation.evolved hop hT.evolved
    have hle := hevolved.steps.size_le
    exact ⟨hevolved.wellFormed, fun f hf => (hscoped f hf).mono hle, hnodup,
      fun u hu => Nat.lt_of_lt_of_le (hcreated u hu) hle⟩
  | @build before after T T' name calls f _ hbuild ih =>
    obtain ⟨hT, hscoped, hnodup, hcreated⟩ := ih
    have hevolved := Func.evolved_build hbuild hT.evolved
    have hle := hevolved.steps.size_le
    have hbuilt := Func.built_build hbuild
    have hperm : ((before ++ f :: after).flatMap Func.unknowns).Perm
        (f.unknowns ++ (before ++ after).flatMap Func.unknowns) :=
      List.perm_middle.flatMap_right Func.unknowns
    have hnew : ∀ u ∈ f.unknowns, T.size ≤ u ∧ u < T'.size := by
      intro u hu
      rw [hbuilt.unknowns] at hu
      obtain ⟨i, hi, rfl⟩ := List.mem_range'.1 hu
      have hbounds : T.size ≤ T.size + 1 * i ∧ T.size + 1 * i < T.size + f.unknowns.length := by
        omega
      rw [hbuilt.table, Table.size_grow]
      exact hbounds
    refine ⟨hevolved.wellFormed, fun g hg => ?_, ?_, fun u hu => ?_⟩
    · rcases List.mem_cons.1 (List.perm_middle.mem_iff.1 hg) with rfl | hg
      · exact Func.scoped_build hbuild
      · exact (hscoped g hg).mono hle
    · rw [hperm.nodup_iff, List.nodup_append]
      refine ⟨hbuilt.nodup, hnodup, fun u hu w hw heq => ?_⟩
      have hold := hcreated w hw
      have hge := (hnew u hu).1
      rw [heq] at hge
      exact absurd hold (Nat.not_lt.2 hge)
    · rcases List.mem_append.1 (hperm.mem_iff.1 hu) with hu | hu
      · exact (hnew u hu).2
      · exact Nat.lt_of_lt_of_le (hcreated u hu) hle

namespace Table.Ready

/-- What is left to be typed after some functions have been. -/
theorem advance (h : T.Ready (fs ++ gs))
    (hT' : T.Confined (T.zone (fs.flatMap Func.unknowns)) T') : T'.Ready gs := by
  have hfree := h.free
  have hnodup := h.nodup
  rw [List.flatMap_append] at hfree hnodup
  exact
    { wellFormed := hT'.wellFormed
      built := fun f hf => (h.built f (List.mem_append_right _ hf)).mono hT'.size_le
      inRange := fun f hf => h.inRange f (List.mem_append_right _ hf)
      acyclic := fun f hf => h.acyclic f (List.mem_append_right _ hf)
      nodup := (List.nodup_append.1 hnodup).2.1
      free := hT'.independent hfree hnodup }

theorem left (h : T.Ready (fs ++ gs)) : T.Ready fs := by
  have hfree := h.free
  have hnodup := h.nodup
  rw [List.flatMap_append] at hfree hnodup
  exact
    { wellFormed := h.wellFormed
      built := fun f hf => h.built f (List.mem_append_left _ hf)
      inRange := fun f hf => h.inRange f (List.mem_append_left _ hf)
      acyclic := fun f hf => h.acyclic f (List.mem_append_left _ hf)
      nodup := (List.nodup_append.1 hnodup).1
      free := hfree.mono (List.subset_append_left _ _) }

/-- Typing functions is confined to their zone. -/
theorem confined (h : T.Ready fs) (henv : env.Closed)
    (hrun : Inference.inferProgram fs ⟨T, env⟩ = .ok schemes s') :
    T.Confined (T.zone (fs.flatMap Func.unknowns)) s'.table := by
  have hstart : Inference.Local T (T.zone (fs.flatMap Func.unknowns)) ⟨T, env⟩ :=
    ⟨(h.free.region_zone h.wellFormed).confined h.wellFormed,
      fun name s hs u hu => absurd hu (henv name s hs).not_mem_loose⟩
  have hkeeps : Keeps (Inference.Local T (T.zone (fs.flatMap Func.unknowns)))
      (Inference.inferProgram fs) := by
    refine Keeps.mapM fun f hf => Inference.keeps_inferFunc_local
      (fun v hv => Table.mem_zone_of_size_le hv) (h.built f hf) fun u hu => ?_
    exact h.free.mem_zone (List.mem_flatMap.2 ⟨f, hf, hu⟩)
  have hend := hkeeps _ hstart
  rw [hrun] at hend
  exact hend.confined

/-- Typing the first function is confined to its zone and leaves the others ready. -/
theorem first (h : T.Ready (f :: fs)) (henv : env.Closed)
    (hrun : Inference.inferFunc f ⟨T, env⟩ = .ok scheme s') :
    T.Confined (T.zone f.unknowns) s'.table ∧ s'.table.Ready fs ∧ s'.env.Closed := by
  have hsplit : T.Ready ([f] ++ fs) := h
  have hsingle : Inference.inferProgram [f] ⟨T, env⟩ = .ok [scheme] s' := by
    simp [Inference.inferProgram, List.mapM_cons, bind_apply, hrun]
  have hconfined := hsplit.left.confined henv hsingle
  refine ⟨?_, hsplit.advance hconfined, ?_⟩
  · rw [List.flatMap_singleton] at hconfined
    exact hconfined
  · exact Inference.closed_inferFunc (h.built f List.mem_cons_self) henv hrun

/-- Once a function has been typed, a region of created unknowns holds it, which none of the
functions still to be typed has a part in. -/
theorem exists_hosts (h : T.Ready (f :: fs)) (hT' : T.Confined (T.zone f.unknowns) T') :
    ∃ R, T'.Hosts R f ∧ R ⊆ T.zone f.unknowns ∧ ∀ u ∈ fs.flatMap Func.unknowns, u ∉ R := by
  have hfree := h.free
  have hnodup := h.nodup
  rw [List.flatMap_cons] at hfree hnodup
  refine ⟨{v | v ∈ T.zone f.unknowns ∧ v < T'.size}, ⟨⟨?_, ?_⟩, ?_, ?_⟩, ?_, ?_⟩
  · intro v r b hclass
    have hv := Table.lt_size_of_classOf hclass
    have hr := Table.root_lt_size_of_classOf hclass
    simp only [Set.mem_ofPred_eq, hT'.region.root hclass, hv, hr]
  · intro v r t hclass hv w hw
    exact ⟨hT'.region.bound hclass hv.1 w hw, hT'.wellFormed.covered hclass w hw⟩
  · exact fun v hv => hv.2
  · intro u hu
    obtain ⟨r, hclass⟩ := hfree.free u (List.mem_append_left _ hu)
    have hlt := Nat.lt_of_lt_of_le (Table.lt_size_of_classOf hclass) hT'.size_le
    exact ⟨Or.inr ⟨u, hu, r, none, hclass, hclass⟩, hlt⟩
  · exact fun v hv => hv.1
  · exact fun u hu hR => hfree.not_mem_zone hnodup hu hR.1

end Table.Ready

namespace Table.Hosts

/-- Typing other functions leaves the region of a function alone. -/
theorem confined (h : T.Hosts R f) (hT : T.WellFormed) {vs : List TyVar}
    (hvs : ∀ u ∈ vs, u ∉ R) (hT' : T.Confined (T.zone vs) T') :
    T'.Hosts R f ∧ ∀ value ∈ f.values, ∃ t, T.resolve value.ty = .ok t ∧
      T'.resolve value.ty = .ok t := by
  have hdisjoint := h.region.disjoint_zone h.created hvs
  refine ⟨⟨hT'.region_of_disjoint h.region hdisjoint,
    fun v hv => Nat.lt_of_lt_of_le (h.created v hv) hT'.size_le, h.own⟩, fun value hvalue => ?_⟩
  have hover := h.own.own hvalue
  have hcovers : T.Covers value.ty := fun v hv => h.created v (hover v hv)
  obtain ⟨t, ht⟩ := Table.exists_resolve hT hcovers
  exact ⟨t, ht, (hT'.resolve_eq hT h.region hdisjoint hcovers hover).trans ht⟩

/-- The type of a value is resolved to a type over the region. -/
theorem over_of_resolve (h : T.Hosts R f) (hT : T.WellFormed) {value : Value}
    (hvalue : value ∈ f.values) {t : Ty} (ht : T.resolve value.ty = .ok t) : t.Over R :=
  h.region.over_resolve hT (h.own.own hvalue) ht

theorem separate (h : T.Hosts R f) (h' : T.Hosts Q g) (hT : T.WellFormed)
    (hRQ : ∀ v ∈ R, v ∉ Q) : T.Separate f g := by
  intro a ha b hb t u ht hu v hv hv'
  exact hRQ v (h.over_of_resolve hT ha ht v hv) (h'.over_of_resolve hT hb hu v hv')

end Table.Hosts

namespace Table.Ready

/-- Regions stay apart: if a region has no part in the functions to be typed, each of these
ends up in a region that is disjoint from it. -/
theorem exists_disjoint_hosts (h : T.Ready fs) (henv : env.Closed)
    (hrun : Inference.inferProgram fs ⟨T, env⟩ = .ok schemes s') (hR : T.Hosts R f)
    (hfs : ∀ u ∈ fs.flatMap Func.unknowns, u ∉ R) :
    ∀ g ∈ fs, ∃ Q, s'.table.Hosts Q g ∧ ∀ v ∈ R, v ∉ Q := by
  induction fs generalizing T env schemes with
  | nil => exact fun g hg => nomatch hg
  | cons g fs ih =>
    obtain ⟨scheme, ⟨T₁, env₁⟩, rest, hfirst, hrest, rfl⟩ := Inference.inferProgram_cons_eq_ok hrun
    rw [List.flatMap_cons, List.forall_mem_append] at hfs
    obtain ⟨hT₁, hready, henv₁⟩ := h.first henv hfirst
    intro g' hg'
    rcases List.mem_cons.1 hg' with rfl | hg'
    · obtain ⟨Q, hQ, hsub, hapart⟩ := h.exists_hosts hT₁
      have hzone := hR.region.disjoint_zone hR.created hfs.1
      exact ⟨Q, (hQ.confined hready.wellFormed hapart (hready.confined henv₁ hrest)).1,
        fun v hv hvQ => hzone v hv (hsub hvQ)⟩
    · exact ih hready henv₁ hrest (hR.confined h.wellFormed hfs.1 hT₁).1 hfs.2 g' hg'

theorem pairwise_separate (h : T.Ready fs) (henv : env.Closed)
    (hrun : Inference.inferProgram fs ⟨T, env⟩ = .ok schemes s') :
    fs.Pairwise s'.table.Separate := by
  induction fs generalizing T env schemes with
  | nil => exact List.Pairwise.nil
  | cons f fs ih =>
    obtain ⟨scheme, ⟨T₁, env₁⟩, rest, hfirst, hrest, rfl⟩ := Inference.inferProgram_cons_eq_ok hrun
    obtain ⟨hT₁, hready, henv₁⟩ := h.first henv hfirst
    have hend := hready.confined henv₁ hrest
    obtain ⟨R, hR, _, hapart⟩ := h.exists_hosts hT₁
    refine List.pairwise_cons.2 ⟨fun g hg => ?_, ih hready henv₁ hrest⟩
    obtain ⟨Q, hQ, hRQ⟩ := hready.exists_disjoint_hosts henv₁ hrest hR hapart g hg
    exact (hR.confined hready.wellFormed hapart hend).1.separate hQ hend.wellFormed hRQ

/-- Other functions are used at instances of their schemes. -/
theorem global_isInstance (h : T.Ready (f :: fs)) (henv : env.Closed)
    (hrun : Inference.inferFunc f ⟨T, env⟩ = .ok scheme s') {v : ValueId} {g : String} {own : Ty}
    (hv : f.Reaches v) (hvalue : f.values[v]? = some ⟨.global g, own⟩) (hg : g ≠ f.name) :
    ∃ published t, env.get? g = some published ∧ s'.table.resolve own = .ok t ∧
      published.IsInstance t := by
  have hf := h.built f List.mem_cons_self
  obtain ⟨t, T', hinfer, _, rfl⟩ := Inference.inferFunc_eq_ok hf hrun
  have hplain : (Inference.envFor f env).Plain := by
    intro name s hs
    rw [Inference.envFor, Assoc.get?_insert] at hs
    split at hs
    · obtain rfl := Option.some.inj hs
      exact Or.inr rfl
    · exact Or.inl (henv name s hs)
  obtain ⟨d, hall, rfl, _⟩ := Deduction.infer_eq_ok hinfer
  have hglobal := fun u => Deduction.known_global (t := u) h.wellFormed hall hvalue
  obtain ⟨S, rfl, hSenv, hheld, hS⟩ := Deduction.exists_setting
    (h.inRange f List.mem_cons_self) (h.acyclic f List.mem_cons_self) hplain h.wellFormed hf
  have hsound := (Deduction.Setting.ensures_deduceEach hS hS.built.lt_size).meets
  unfold Deduction.deduceAll at hall
  rw [hSenv, hall] at hsound
  obtain ⟨hadvance, hknown⟩ := hsound
  have hd := hadvance.sound
  -- The value is known under the type it was given, which agrees with an instance.
  obtain ⟨u, hu⟩ := hd.exists_known hknown hv
  obtain rfl := hglobal u hu
  obtain ⟨value, hvalue', htyped⟩ := hd.typed v u hu
  obtain rfl := Option.some.inj (hvalue.symm.trans hvalue')
  rw [hheld] at htyped
  obtain ⟨published, w, hpublished, hinstance, hagree⟩ := htyped
  rw [Inference.envFor, Assoc.get?_insert, if_neg (Ne.symm hg)] at hpublished
  obtain ⟨hcovers, hcovers', heq⟩ := (Table.agree_iff hd.wellFormed).1 hagree
  refine ⟨published, w.subst d.table.solution, hpublished, ?_, ?_⟩
  · rw [Table.resolve_eq hd.wellFormed hcovers]
    exact congrArg _ (heq _ (Table.solves_solution hd.wellFormed))
  · exact hinstance.subst (henv g published hpublished) _

end Table.Ready

end

namespace Inference

variable {T : Table} {env : Env} {funcs : List Func} {schemes : List Scheme} {s' : Inference}

/-- Functions of a program do not interfere. Let nothing have been imposed on their unknowns
since they were built, and let the schemes at the start be closed. If the program is typed,
then

* the schemes that are published are closed, with the quantified unknowns in the order of
  first occurrence;
* the values of each function keep the types they have when it has just been typed;
* a function uses the others at instances of the schemes that they have when it is typed;
* types of values of different functions have no unknown in common. -/
theorem inferProgram_separate (hbuilds : Table.Builds funcs T) (hrange : ∀ f ∈ funcs, f.InRange)
    (hacyclic : ∀ f ∈ funcs, f.Acyclic) (hfree : T.Independent (funcs.flatMap Func.unknowns))
    (henv : env.Closed) (hrun : inferProgram funcs ⟨T, env⟩ = .ok schemes s') :
    (∀ scheme ∈ schemes, scheme.Canonical) ∧
    (∀ before f after, funcs = before ++ f :: after →
      ∃ earlier s₁ scheme s₂ later, inferProgram before ⟨T, env⟩ = .ok earlier s₁ ∧
        inferFunc f s₁ = .ok scheme s₂ ∧ inferProgram after s₂ = .ok later s' ∧
        schemes = earlier ++ scheme :: later ∧ s₂.env.get? f.name = some scheme ∧
        (∀ value ∈ f.values, ∃ t, s₂.table.resolve value.ty = .ok t ∧
          s'.table.resolve value.ty = .ok t) ∧
        ∀ v g own, f.Reaches v → f.values[v]? = some ⟨.global g, own⟩ → g ≠ f.name →
          ∃ used t, s₁.env.get? g = some used ∧ s₂.table.resolve own = .ok t ∧
            used.IsInstance t) ∧
    funcs.Pairwise s'.table.Separate := by
  obtain ⟨hT, hbuilt, hnodup, _⟩ := hbuilds.spec
  have hready : T.Ready funcs := ⟨hT, hbuilt, hrange, hacyclic, hnodup, hfree⟩
  refine ⟨?_, fun before f after hsplit => ?_, hready.pairwise_separate henv hrun⟩
  · exact (inferProgram_published (fun f hf => ⟨T, hbuilt f hf⟩) henv hrun).2
  · subst hsplit
    obtain ⟨earlier, ⟨T₁, env₁⟩, rest, hbefore, hrest, rfl⟩ := inferProgram_append_eq_ok hrun
    obtain ⟨scheme, ⟨T₂, env₂⟩, later, hfirst, hafter, rfl⟩ := inferProgram_cons_eq_ok hrest
    have hready₁ := hready.advance (hready.left.confined henv hbefore)
    have henv₁ := (inferProgram_published
      (fun g hg => ⟨T, hbuilt g (List.mem_append_left _ hg)⟩) henv hbefore).1
    obtain ⟨hT₂, hready₂, henv₂⟩ := hready₁.first henv₁ hfirst
    obtain ⟨R, hR, _, hapart⟩ := hready₁.exists_hosts hT₂
    refine ⟨earlier, _, scheme, _, later, hbefore, hfirst, hafter, rfl, ?_, ?_, ?_⟩
    · obtain ⟨_, _, _, _, heq⟩ := inferFunc_eq_ok (hready₁.built f List.mem_cons_self) hfirst
      rw [heq]
      exact Assoc.get?_insert_self ..
    · exact (hR.confined hready₂.wellFormed hapart (hready₂.confined henv₂ hafter)).2
    · intro v g own hv hvalue hg
      exact hready₁.global_isInstance henv₁ hfirst hv hvalue hg

/-- The identity, and a function that uses it at two types. -/
theorem inferProgram_separate_identity :
    ∃ funcs T schemes s', Table.Builds funcs T ∧ (∀ f ∈ funcs, f.InRange) ∧
      (∀ f ∈ funcs, f.Acyclic) ∧ T.Independent (funcs.flatMap Func.unknowns) ∧
      inferProgram funcs ⟨T, ∅⟩ = .ok schemes s' ∧
      schemes = [⟨[1], .arrow (.var 1) (.var 1)⟩, ⟨[], .arrow Ty.unit Ty.float⟩] ∧
      (∀ scheme ∈ schemes, scheme.Canonical) ∧ funcs.Pairwise s'.table.Separate := by
  let identity : Func :=
    { name := "id"
      values := #[⟨.arg 0, .var 1⟩, ⟨.instr (.ret 0), .var 2⟩]
      blocks := #[[1]], args := [0], ret := .var 0 }
  let twice : Func :=
    { name := "twice"
      values := #[⟨.int 1, Ty.int⟩, ⟨.float, Ty.float⟩, ⟨.global "id", .var 4⟩,
        ⟨.instr (.call 2 [0]), .var 5⟩, ⟨.global "id", .var 6⟩, ⟨.instr (.call 4 [1]), .var 7⟩,
        ⟨.instr (.ret 5), .var 8⟩]
      blocks := #[[3, 5, 6]], args := [], ret := .var 3 }
  have hfirst : Func.build "id" [.arg, .instr (.ret 0)] Table.empty =
      .ok (identity, Table.empty.grow 3) := rfl
  have hsecond : Func.build "twice" [.int 1, .float, .global "id", .instr (.call 2 [0]),
      .global "id", .instr (.call 4 [1]), .instr (.ret 5)] (Table.empty.grow 3) =
        .ok (twice, Table.empty.grow 9) := rfl
  have hone : Table.Builds ([] ++ identity :: []) (Table.empty.grow 3) := .build .start hfirst
  have hbuilds : Table.Builds ([identity] ++ twice :: []) (Table.empty.grow 9) :=
    .build hone hsecond
  have hrange : ∀ f ∈ [identity, twice], f.InRange := by decide
  have hacyclic : ∀ f ∈ [identity, twice], f.Acyclic :=
    List.forall_mem_cons.2 ⟨Func.acyclic_of_rank id (by decide),
      List.forall_mem_singleton.2 (Func.acyclic_of_rank id (by decide))⟩
  have hfree : (Table.empty.grow 9).Independent ([identity, twice].flatMap Func.unknowns) :=
    Table.independent_grow Table.wellFormed_empty 9
  obtain ⟨s', hrun⟩ : ∃ s', inferProgram [identity, twice] ⟨Table.empty.grow 9, ∅⟩ =
      .ok [⟨[1], .arrow (.var 1) (.var 1)⟩, ⟨[], .arrow Ty.unit Ty.float⟩] s' :=
    Outcome.exists_ok (by decide +kernel)
  have henv : (∅ : Env).Closed := by
    intro _ _ hs
    cases hs
  have hseparate := inferProgram_separate hbuilds hrange hacyclic hfree henv hrun
  exact ⟨_, _, _, s', hbuilds, hrange, hacyclic, hfree, hrun, rfl, hseparate.1, hseparate.2.2⟩

end Inference

end TypeLayer
