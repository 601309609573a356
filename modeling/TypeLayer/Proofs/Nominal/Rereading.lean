import TypeLayer.Proofs.Nominal.Agreement
import TypeLayer.Proofs.Nominal.Arena
import TypeLayer.Proofs.Nominal.Declared
import TypeLayer.Proofs.Nominal.Instances
import TypeLayer.Proofs.Structural.Printing

/-!
# Reading nominal types back

A nominal type is written as an expression in two ways: in its shown form, and through its
structural image.  Either text, read as a type expression, denotes the type that it was written
for, and the registry stays as it is.

* `denote_of_bare_eq`: what an expression denotes does not depend on where its parts stand, so
  it is enough to know the tree that a text is read as;
* `ReadsAs.application`: a name that leads to the family of a type, applied to expressions of
  the parameters, denotes the type;
* `denote_display` for the shown form, of all types but methods;
* `denote_image_render` for the image.  Here methods are chains of arrows, which is why a method
  must not return a method, and must not take the unit type alone.
-/

namespace TypeLayer

open TypeLayer.Action

/-! ## Where an expression stands -/

namespace Request

mutual
/-- The request without its spans. -/
def bare : Request → Request
  | .param name _ => .param name default
  | .appliedParam name _ => .appliedParam name default
  | .method result domains => .method (bare result) (bareAll domains)
  | .application name _ params => .application name default (bareAll params)
def bareAll : List Request → List Request
  | [] => []
  | q :: rest => bare q :: bareAll rest
end

theorem bareAll_eq_map (qs : List Request) : bareAll qs = qs.map bare := by
  induction qs with
  | nil => rfl
  | cons q rest ih => rw [bareAll, ih, List.map_cons]

theorem bare_arrow (domain codomain : Request) :
    (arrow domain codomain).bare = arrow domain.bare codomain.bare := by
  cases codomain <;> simp [arrow, bare, bareAll]

theorem isUnit_bare (q : Request) : q.bare.isUnit = q.isUnit := by
  cases q with
  | application name span params => cases params <;> simp [bare, bareAll, isUnit]
  | param | appliedParam | method => simp [bare, isUnit]

theorem isThunk_bareAll (domains : List Request) : isThunk (bareAll domains) = isThunk domains := by
  cases domains with
  | nil => rfl
  | cons domain rest => cases rest <;> simp [bareAll, isThunk, isUnit_bare]

theorem ofExpr_application {name : String} {params : List TypeExpr} {span : Span}
    (h : ¬ (name = arrowName ∧ params.length = 2)) :
    ofExpr ⟨name, params, false, span⟩ = .application name span (params.map ofExpr) := by
  rcases ofExpr_cases name params span with ⟨domain, codomain, hname, hparams⟩ | happlication
  · exact absurd ⟨hname, by simp [hparams]⟩ h
  · exact happlication

theorem bare_ofExpr (e : TypeExpr) : (ofExpr e).bare = ofExpr e.bare := by
  induction e using TypeExpr.induction_on with
  | node name params parameter span ih =>
    rw [TypeExpr.bare_node]
    cases parameter with
    | true => cases params <;> simp [ofExpr, bare]
    | false =>
      by_cases harrow : name = arrowName ∧ params.length = 2
      · obtain ⟨rfl, hlength⟩ := harrow
        obtain ⟨domain, codomain, rfl⟩ := List.length_eq_two.1 hlength
        show _ = ofExpr ⟨arrowName, [domain.bare, codomain.bare], false, default⟩
        rw [ofExpr_arrow, ofExpr_arrow, bare_arrow, ih domain (by simp), ih codomain (by simp)]
      · rw [ofExpr_application harrow, ofExpr_application (by simpa using harrow), bare,
          bareAll_eq_map, List.map_map, List.map_map]
        exact congrArg _ (List.map_congr_left ih)

end Request

namespace Registry

variable {r r' : Registry} {scope : Assoc String TypeId} {id : TypeId}

theorem declared_eq_ok_iff (name : String) (span span' : Span) :
    declared name span r = .ok id r' ↔ declared name span' r = .ok id r' := by
  unfold declared
  split
  · exact Iff.rfl
  · simp only [bind_apply, get_apply]
    cases r.lookup name <;> simp

theorem answerAll_bareAll {qs : List Request}
    (h : ∀ q ∈ qs, ∀ {r r' : Registry} {id : TypeId},
      answer scope q.bare r = .ok id r' ↔ answer scope q r = .ok id r') {ids : List TypeId} :
    answerAll scope (Request.bareAll qs) r = .ok ids r' ↔ answerAll scope qs r = .ok ids r' := by
  induction qs generalizing r r' ids with
  | nil => exact Iff.rfl
  | cons q rest ih =>
    rw [List.forall_mem_cons] at h
    simp only [Request.bareAll, answerAll, bind_eq_ok_iff, h.1, ih h.2]

theorem answer_bare (q : Request) :
    answer scope q.bare r = .ok id r' ↔ answer scope q r = .ok id r' := by
  induction q using Request.induction_on generalizing r r' id with
  | param name span =>
    simp only [Request.bare, answer]
    cases scope.get? name <;> simp
  | appliedParam name span => simp [Request.bare, answer]
  | method result domains ihr ihd =>
    rw [Request.bare, answer_method, answer_method, Request.isThunk_bareAll]
    by_cases hthunk : Request.isThunk domains = true
    · simp only [if_pos hthunk, bind_eq_ok_iff, ihr]
    · simp only [if_neg hthunk, bind_eq_ok_iff, ihr, answerAll_bareAll ihd]
  | application name span params ih =>
    simp only [Request.bare, answer, bind_eq_ok_iff, answerAll_bareAll ih,
      declared_eq_ok_iff name span default]

/-- What an expression denotes does not depend on where its parts stand. -/
theorem denote_of_bare_eq {e e' : TypeExpr} (h : e.bare = e'.bare)
    (hdenote : denote e scope r = .ok id r') : denote e' scope r = .ok id r' := by
  unfold denote at hdenote ⊢
  rw [← answer_bare, Request.bare_ofExpr] at hdenote ⊢
  rwa [← h]

/-! ## Types that can be written -/

/-- Something holds of a type and its family, and so of the parameters of the type, of their
parameters, and so on. -/
inductive Throughout (r : Registry) (P : Datatype → Family → Prop) : TypeId → Prop
  | node {id : TypeId} {t : Datatype} {f : Family} : r.entry id = .ok (t, f) → P t f →
    (∀ p ∈ t.params, Throughout r P p) → Throughout r P id

/-- The type can be used, and an expression can name its family. -/
structure Writable (t : Datatype) (f : Family) : Prop where
  specialized : t.specialized = true
  kept : t.progress ≠ .failed
  word : IsWord f.name
  upper : TypeExpr.StartsUpper f.name

instance (t : Datatype) (f : Family) : Decidable (Writable t f) :=
  decidable_of_iff (t.specialized = true ∧ t.progress ≠ .failed ∧ IsWord f.name ∧
      TypeExpr.StartsUpper f.name)
    ⟨fun h => ⟨h.1, h.2.1, h.2.2.1, h.2.2.2⟩, fun h => ⟨h.1, h.2, h.3, h.4⟩⟩

/-- Whether something holds throughout a type, with a bound on the nesting of parameters. -/
def checkThroughout (r : Registry) (P : Datatype → Family → Prop) [∀ t f, Decidable (P t f)] :
    Nat → TypeId → Bool
  | 0, _ => false
  | depth + 1, id =>
    match r.entry id with
    | .ok (t, f) => decide (P t f) && t.params.all (checkThroughout r P depth)
    | .error _ => false

theorem throughout_of_check {P : Datatype → Family → Prop} [∀ t f, Decidable (P t f)] {depth : Nat}
    (h : r.checkThroughout P depth id = true) : r.Throughout P id := by
  induction depth generalizing id with
  | zero => cases h
  | succ depth ih =>
    rw [checkThroughout] at h
    cases hentry : r.entry id with
    | error fault => simp [hentry] at h
    | ok entry =>
      simp only [hentry, Bool.and_eq_true, decide_eq_true_eq, List.all_eq_true] at h
      exact .node hentry h.1 fun p hp => ih (h.2 p hp)

/-- The expression denotes the type, and nothing is done to the registry. -/
def ReadsAs (r : Registry) (e : TypeExpr) (id : TypeId) : Prop :=
  denote e ∅ r = .ok id r

variable {t : Datatype} {f : Family} {name : String} {span : Span} {es : List TypeExpr}

/-- A type that can be used is what its family gives for its parameters. -/
theorem Evolved.specialize_template (hr : initial.Evolved r) (hentry : r.entry id = .ok (t, f))
    (hspecialized : t.specialized = true) (hkept : t.progress ≠ .failed) :
    specialize f.template t.params r = .ok id r := by
  obtain ⟨ht, hf⟩ := entry_eq_ok_iff.1 hentry
  obtain ⟨g, hg, hfamily, hparams, hgeneric⟩ := hr.founded.template hf
  have hsettled := hr.settled ht hspecialized hkept
  cases hisGeneric : f.isGeneric with
  | true =>
    rw [hisGeneric] at hgeneric
    rw [← hfamily] at hsettled
    exact hsettled.specialize_eq hr hg hgeneric
  | false =>
    obtain rfl := hsettled.eq_template hr.founded hf (by simp [hisGeneric])
    cases ht.symm.trans hg
    rw [hparams]
    exact specialize_self hentry hspecialized

theorem answerAll_eq {ids : List TypeId} (h : List.Forall₂ r.ReadsAs es ids) :
    answerAll ∅ (es.map Request.ofExpr) r = .ok ids r :=
  answerAll_eq_ok (List.forall₂_map_left_iff.2 h)

/-- A name that leads to the family of a type, applied to expressions of the parameters, denotes
the type. -/
theorem ReadsAs.application (hr : initial.Evolved r) (hentry : r.entry id = .ok (t, f))
    (ht : Writable t f) (hdeclared : declared name span r = .ok f.template r)
    (harrow : name ≠ arrowName) (hes : List.Forall₂ r.ReadsAs es t.params) :
    r.ReadsAs ⟨name, es, false, span⟩ id := by
  unfold ReadsAs denote
  rw [Request.ofExpr_application fun h => harrow h.1]
  simp only [answer, bind_apply, hdeclared, answerAll_eq hes]
  exact hr.specialize_template hentry ht.specialized ht.kept

theorem Founded.declared_name (hr : r.Founded) (hentry : r.entry id = .ok (t, f))
    (hname : f.name ≠ tupleName) (span : Span) : declared f.name span r = .ok f.template r := by
  have hlookup : r.lookup f.name = some f.template := hr.name (entry_eq_ok_iff.1 hentry).2
  unfold declared
  rw [if_neg hname]
  simp only [bind_apply, get_apply, hlookup, pure_apply]

/-! ## The shown form -/

/-- The type can be written and is no method, which is shown in a form of its own. -/
structure Showable (t : Datatype) (f : Family) : Prop extends Writable t f where
  not_method : f.style ≠ .method

instance (t : Datatype) (f : Family) : Decidable (Showable t f) :=
  decidable_of_iff (Writable t f ∧ f.style ≠ .method)
    ⟨fun h => ⟨h.1, h.2⟩, fun h => ⟨h.toWritable, h.not_method⟩⟩

/-- Numbers are shown without parameters, which they do not have; other types that are no methods
are shown like expressions. -/
theorem Reachable.shownOf_eq (hr : r.Reachable) (hentry : r.entry id = .ok (t, f))
    (hspecialized : t.specialized = true) (hmethod : f.style ≠ .method) {texts : List String}
    (htexts : texts.length = t.params.length) :
    shownOf t f texts = Application.plain f.name texts := by
  have hnumber : f.style = .integer ∨ f.style = .floating → texts = [] := by
    intro hstyle
    have hgeneric := hr.isGeneric_of_number (entry_eq_ok_iff.1 hentry).2 hstyle
    have hfixed : f.variadic = false ∧ f.paramNames = [] := by
      simpa [Family.isGeneric] using hgeneric
    have hlength := hr.evolved.founded.length_params hentry hspecialized hfixed.1
    rw [hfixed.2, ← htexts] at hlength
    exact List.eq_nil_of_length_eq_zero hlength
  unfold shownOf
  rw [if_pos hspecialized]
  cases hstyle : f.style with
  | integer => simp [hnumber (.inl hstyle), Application.plain]
  | floating => simp [hnumber (.inr hstyle), Application.plain]
  | method => exact absurd hstyle hmethod
  | object | union | tuple | slice => rfl

/-- The shown form of a type without methods is that of an expression, which denotes it. -/
theorem Throughout.exists_shown (hr : r.Reachable) (h : r.Throughout Showable id) :
    ∃ e : TypeExpr, r.display id = .ok e.render ∧ e.Printable ∧ r.ReadsAs e id := by
  induction h with
  | @node id t f hentry ht _ ih =>
    obtain ⟨es, hes⟩ := exists_forall₂ ih
    have htexts : List.Forall₂ (fun p text => r.display p = .ok text) t.params
        (es.map TypeExpr.render) :=
      List.forall₂_map_right_iff.2 (hes.imp fun _ _ he => he.1)
    have hread : List.Forall₂ (fun e p => TypeExpr.Printable e ∧ r.ReadsAs e p) es t.params :=
      (hes.imp fun _ _ he => he.2).flip
    obtain ⟨hprintable, hread⟩ := (List.forall₂_and_left _ _).1 hread
    refine ⟨⟨f.name, es, false, default⟩, ?_, .constructor ht.word ht.upper hprintable, ?_⟩
    · rw [display_eq_ok hr.evolved hentry htexts,
        hr.shownOf_eq hentry ht.specialized ht.not_method htexts.length_eq.symm, TypeExpr.render,
        if_neg Bool.false_ne_true, TypeExpr.written_of_isWord ht.word, TypeExpr.renderAll_eq_map]
    · have hdeclared := hr.evolved.founded.declared_name hentry ht.word.ne_tupleName default
      exact .application hr.evolved hentry ht.toWritable hdeclared ht.word.ne_arrowName hread

/-- The shown form of a type reads as the type. The type and all that it is applied to have to be
usable, must not be methods, and must have names that expressions can use. -/
theorem denote_display (hr : r.Reachable) (h : r.Throughout Showable id) :
    ∃ text e, r.display id = .ok text ∧ TypeExpr.parse text = .ok e ∧ denote e ∅ r = .ok id r := by
  obtain ⟨e, hdisplay, hprintable, hdenotes⟩ := h.exists_shown hr
  obtain ⟨e', hparse, hbare⟩ := TypeExpr.exists_parse_render hprintable
  exact ⟨e.render, e', hdisplay, hparse, denote_of_bare_eq hbare.symm hdenotes⟩

/-- Boxes, of which one holds a tuple with the unit type in it, and another one a method that takes
the unit type beside a second argument. -/
def shelved : Registry :=
  Operation.build
    [.create "Box" none ["T"], .tuple [], .slice Builtin.bool, .tuple [13, 14],
     .specialize 12 [15], .method 16 [13, 15], .specialize 12 [17], .method 18 []]

theorem denote_display_box :
    let tuple := "Tuple" ++ Text.braced ("Tuple, Slice" ++ Text.braced "Bool")
    let text := "Box" ++ Text.braced tuple
    shelved.Reachable ∧ shelved.Throughout Showable 16 ∧ shelved.display 16 = .ok text ∧
      ∃ e, TypeExpr.parse text = .ok e ∧ denote e ∅ shelved = .ok 16 shelved := by
  intro tuple text
  have hr : shelved.Reachable := reachable_build _
  have hbox : shelved.Throughout Showable 16 := by
    have hcheck : shelved.checkThroughout Showable 6 16 = true := by decide +kernel
    exact throughout_of_check hcheck
  have hshown : shelved.display 16 = .ok text := by decide +kernel
  obtain ⟨shown, e, hdisplay, hparse, hdenote⟩ := denote_display hr hbox
  obtain rfl : shown = text := Except.ok.inj (hdisplay.symm.trans hshown)
  exact ⟨hr, hbox, hshown, e, hparse, hdenote⟩

end Registry

/-! ## Chains of arrows -/

namespace Request

variable {u : Ty}

/-- The request is for a method. -/
def IsMethod (q : Request) : Prop :=
  ∃ result domains, q = .method result domains

theorem arrow_of_not_isMethod (domain : Request) {codomain : Request} (h : ¬ codomain.IsMethod) :
    arrow domain codomain = .method codomain [domain] := by
  cases codomain with
  | method result domains => exact absurd ⟨result, domains, rfl⟩ h
  | param | appliedParam | application => rfl

theorem ofExpr_toExpr_arrow (domain codomain : Ty) :
    ofExpr (Ty.arrow domain codomain).toExpr =
      arrow (ofExpr domain.toExpr) (ofExpr codomain.toExpr) := by
  rw [Ty.arrow, Ty.toExpr_con]
  exact ofExpr_arrow _ _ _

/-- A chain of arrows is one method, if what it leads to is none. -/
theorem ofExpr_toExpr_chain (h : ¬ (ofExpr u.toExpr).IsMethod) (domain : Ty) (domains : List Ty) :
    ofExpr ((domain :: domains).foldr Ty.arrow u).toExpr =
      .method (ofExpr u.toExpr) ((domain :: domains).map fun d => ofExpr d.toExpr) := by
  induction domains generalizing domain with
  | nil => exact (ofExpr_toExpr_arrow domain u).trans (arrow_of_not_isMethod _ h)
  | cons next rest ih =>
    show ofExpr (Ty.arrow domain ((next :: rest).foldr Ty.arrow u)).toExpr = _
    rw [ofExpr_toExpr_arrow, ih next]
    rfl

theorem ofExpr_toExpr_thunk (h : ¬ (ofExpr u.toExpr).IsMethod) :
    ofExpr (Ty.curried [] u).toExpr =
      .method (ofExpr u.toExpr) [.application tupleName default []] := by
  show ofExpr (Ty.arrow Ty.unit u).toExpr = _
  rw [ofExpr_toExpr_arrow, arrow_of_not_isMethod _ h]
  simp [Ty.unit, Ty.tuple, ofExpr, ofExprAll]

end Request

/-- Methods of printable types are printable. -/
theorem Ty.Printable.curried {domains : List Ty} {codomain : Ty}
    (hdomains : ∀ d ∈ domains, d.Printable) (hcodomain : codomain.Printable) :
    (Ty.curried domains codomain).Printable := by
  have hchain : (domains.foldr Ty.arrow codomain).Printable := by
    induction domains with
    | nil => exact hcodomain
    | cons domain rest ih =>
      rw [List.forall_mem_cons] at hdomains
      exact .arrow hdomains.1 (ih hdomains.2)
  cases domains with
  | nil => exact .arrow (.tuple (by decide) (List.forall_mem_nil _)) hcodomain
  | cons domain rest => exact hchain

namespace Registry

variable {r : Registry} {id : TypeId} {t : Datatype} {f : Family} {u : Ty} {us : List Ty}

/-! ## The image -/

/-- The type is a method. -/
def IsMethod (r : Registry) (id : TypeId) : Prop :=
  ∃ t f, r.entry id = .ok (t, f) ∧ f.style = .method

/-- The type is the tuple without items. -/
def IsUnit (r : Registry) (id : TypeId) : Prop :=
  ∃ t f, r.entry id = .ok (t, f) ∧ f.style = .tuple ∧ t.params = []

theorem exists_entry_iff {P : Datatype → Family → Prop} :
    (∃ t f, r.entry id = .ok (t, f) ∧ P t f) ↔ ∃ p ∈ (r.entry id).toOption, P p.1 p.2 := by
  cases r.entry id with
  | error fault => simp [Except.toOption]
  | ok entry =>
    obtain ⟨t, f⟩ := entry
    simp [Except.toOption]

instance {P : Datatype → Family → Prop} [∀ t f, Decidable (P t f)] :
    Decidable (∃ t f, r.entry id = .ok (t, f) ∧ P t f) :=
  decidable_of_iff (∃ p ∈ (r.entry id).toOption, P p.1 p.2) exists_entry_iff.symm

instance (r : Registry) (id : TypeId) : Decidable (r.IsMethod id) :=
  inferInstanceAs (Decidable (∃ t f, r.entry id = .ok (t, f) ∧ f.style = .method))

instance (r : Registry) (id : TypeId) : Decidable (r.IsUnit id) :=
  inferInstanceAs (Decidable (∃ t f, r.entry id = .ok (t, f) ∧ f.style = .tuple ∧ t.params = []))

/-- The type can be written, and its image tells it from all other types: there is no tuple of
one item, what a method returns is no further argument of it, and one argument is not taken for
none. -/
structure Depictable (r : Registry) (t : Datatype) (f : Family) : Prop extends Writable t f where
  items : f.style = .tuple → t.params.length ≠ 1
  result : f.style = .method → ∀ result ∈ t.params.head?, ¬ r.IsMethod result
  argument : f.style = .method → t.params.length = 2 → ∀ arg ∈ t.params.tail, ¬ r.IsUnit arg

instance (r : Registry) (t : Datatype) (f : Family) : Decidable (r.Depictable t f) :=
  decidable_of_iff (Writable t f ∧ (f.style = .tuple → t.params.length ≠ 1) ∧
      (f.style = .method → ∀ result ∈ t.params.head?, ¬ r.IsMethod result) ∧
      (f.style = .method → t.params.length = 2 → ∀ arg ∈ t.params.tail, ¬ r.IsUnit arg))
    ⟨fun h => ⟨h.1, h.2.1, h.2.2.1, h.2.2.2⟩, fun h => ⟨h.1, h.2, h.3, h.4⟩⟩

/-- The image of a type can be read back, and shows whether the type is a method or the unit
type. -/
structure ReadBack (r : Registry) (id : TypeId) (u : Ty) : Prop where
  image : r.image id = .ok u
  printable : u.Printable
  readsAs : r.ReadsAs u.toExpr id
  isMethod : (Request.ofExpr u.toExpr).IsMethod → r.IsMethod id
  isUnit : (Request.ofExpr u.toExpr).isUnit = true → r.IsUnit id

/-- A style that is reserved for one family tells which one it is. -/
theorem Evolved.template_of_reserved {name : String} {generic : TypeId} (hr : initial.Evolved r)
    (hentry : r.entry id = .ok (t, f)) (hstyle : f.style.reserved? = some name)
    (hbuiltin : initial.names.get? name = some generic) : f.template = generic := by
  have hf := (entry_eq_ok_iff.1 hentry).2
  have hname := hr.founded.name hf
  rw [hr.wellFormed.reserved hf name hstyle, hr.extends.name hbuiltin] at hname
  exact (Option.some.inj hname).symm

theorem ReadBack.images {ids : List TypeId} (h : List.Forall₂ r.ReadBack ids us) :
    r.Images ids us :=
  h.imp fun _ _ hu => hu.image

theorem ReadBack.printables {ids : List TypeId} (h : List.Forall₂ r.ReadBack ids us) :
    ∀ u ∈ us, u.Printable := by
  induction h with
  | nil => exact List.forall_mem_nil _
  | cons hu _ ih => exact List.forall_mem_cons.2 ⟨hu.printable, ih⟩

theorem ReadBack.readsAsAll {ids : List TypeId} (h : List.Forall₂ r.ReadBack ids us) :
    List.Forall₂ r.ReadsAs (us.map Ty.toExpr) ids := by
  rw [List.forall₂_map_left_iff]
  exact List.Forall₂.flip (h.imp fun _ _ hu => hu.readsAs)

/-- An image that is a name applied to the images of the parameters is read back, if the name leads
to the family. -/
theorem readBack_application {name : String} (hr : initial.Evolved r)
    (hentry : r.entry id = .ok (t, f)) (ht : Writable t f)
    (hus : List.Forall₂ r.ReadBack t.params us) (himage : r.image id = .ok (.con name us))
    (hprintable : (Ty.con name us).Printable)
    (hdeclared : declared name default r = .ok f.template r) (harrow : name ≠ arrowName)
    (hunit : name = tupleName → us = [] → r.IsUnit id) : r.ReadBack id (.con name us) := by
  have hrequest : Request.ofExpr (Ty.con name us).toExpr =
      .application name default ((us.map Ty.toExpr).map Request.ofExpr) := by
    rw [Ty.toExpr_con]
    exact Request.ofExpr_application fun h => harrow h.1
  refine ⟨himage, hprintable, ?_, fun hmethod => ?_, fun h => ?_⟩
  · rw [Ty.toExpr_con]
    exact .application hr hentry ht hdeclared harrow (ReadBack.readsAsAll hus)
  · rw [hrequest] at hmethod
    obtain ⟨result, domains, heq⟩ := hmethod
    cases heq
  · rw [hrequest] at h
    obtain ⟨span, heq⟩ := Request.eq_of_isUnit h
    obtain ⟨hname, -, hnone⟩ := Request.application.inj heq
    exact hunit hname (by simpa using hnone)

/-- A tuple is read as the built-in family applied to its items. -/
theorem readBack_tuple (hr : initial.Evolved r) (hentry : r.entry id = .ok (t, f))
    (ht : r.Depictable t f) (hstyle : f.style = .tuple)
    (hus : List.Forall₂ r.ReadBack t.params us) : r.ReadBack id (imageOf t f us) := by
  have himage : imageOf t f us = .con tupleName us := by
    rw [imageOf.eq_def, hstyle, ht.specialized]
    rfl
  have htemplate : f.template = Builtin.tuple :=
    hr.template_of_reserved hentry (by rw [hstyle]; rfl) (by decide)
  have hdeclared : declared tupleName default r = .ok f.template r := by
    rw [htemplate]
    rfl
  rw [himage]
  refine readBack_application hr hentry ht.toWritable hus ?_ ?_ hdeclared (by decide) ?_
  · rw [image_eq_ok hr.wellFormed hentry (ReadBack.images hus), himage]
  · exact .tuple (hus.length_eq ▸ ht.items hstyle) (ReadBack.printables hus)
  · rintro - rfl
    exact ⟨t, f, hentry, hstyle, List.forall₂_nil_right_iff.1 hus⟩

/-- A type that is neither a tuple nor a method is read by its name. -/
theorem readBack_named (hr : initial.Evolved r) (hentry : r.entry id = .ok (t, f))
    (ht : Writable t f) (htuple : f.style ≠ .tuple) (hmethod : f.style ≠ .method)
    (hus : List.Forall₂ r.ReadBack t.params us) : r.ReadBack id (imageOf t f us) := by
  have himage : imageOf t f us = .con f.name us := by
    rw [imageOf.eq_def]
    cases hstyle : f.style with
    | tuple => exact absurd hstyle htuple
    | method => exact absurd hstyle hmethod
    | integer | floating | object | union | slice => rfl
  have hdeclared := hr.founded.declared_name hentry ht.word.ne_tupleName default
  rw [himage]
  refine readBack_application hr hentry ht hus ?_ ?_ hdeclared ht.word.ne_arrowName ?_
  · rw [image_eq_ok hr.wellFormed hentry (ReadBack.images hus), himage]
  · exact .constructor ht.word ht.upper (ReadBack.printables hus)
  · exact fun hname => absurd hname ht.word.ne_tupleName

/-- The arguments of a method are the domains of its image. Where there are none, the unit type
stands for them, and it stands for itself only beside others. -/
theorem answer_curried {args : List TypeId} (hu : ¬ (Request.ofExpr u.toExpr).IsMethod)
    (hargs : List.Forall₂ r.ReadBack args us) (hsingle : ∀ arg, args = [arg] → ¬ r.IsUnit arg) :
    ∃ domains, Request.ofExpr (Ty.curried us u).toExpr = .method (Request.ofExpr u.toExpr) domains ∧
      ((if Request.isThunk domains then pure [] else answerAll ∅ domains :
        Register (List TypeId)) r) = .ok args r := by
  cases hargs with
  | nil => exact ⟨_, Request.ofExpr_toExpr_thunk hu, rfl⟩
  | @cons arg v args vs harg hrest =>
    refine ⟨_, Request.ofExpr_toExpr_chain hu v vs, ?_⟩
    have hthunk : ¬ Request.isThunk ((v :: vs).map fun d => Request.ofExpr d.toExpr) = true := by
      intro hthunk
      obtain ⟨span, heq⟩ := Request.eq_of_isThunk hthunk
      obtain ⟨hv, hvs⟩ := List.cons.inj heq
      have hv : Request.ofExpr v.toExpr = .application tupleName span [] := hv
      obtain rfl := List.map_eq_nil_iff.1 hvs
      obtain rfl := List.forall₂_nil_right_iff.1 hrest
      exact hsingle arg rfl (harg.isUnit (by rw [hv]; rfl))
    rw [if_neg hthunk]
    have hall := answerAll_eq (ReadBack.readsAsAll (.cons harg hrest))
    rw [List.map_map] at hall
    exact hall

/-- A method is read as a chain of arrows. -/
theorem readBack_method (hr : initial.Evolved r) (hentry : r.entry id = .ok (t, f))
    (ht : r.Depictable t f) (hstyle : f.style = .method)
    (hus : List.Forall₂ r.ReadBack t.params us) : r.ReadBack id (imageOf t f us) := by
  have htemplate : f.template = Builtin.method :=
    hr.template_of_reserved hentry (by rw [hstyle]; rfl) (by decide)
  have hspecialize := hr.specialize_template hentry ht.specialized ht.kept
  have himage := image_eq_ok hr.wellFormed hentry (ReadBack.images hus)
  have hmethod : r.IsMethod id := ⟨t, f, hentry, hstyle⟩
  cases hparams : t.params with
  | nil => exact absurd hparams (hr.method_params_of_style hentry ht.specialized hstyle)
  | cons result args =>
    rw [hparams] at hus hspecialize
    cases hus with
    | @cons _ u _ us hu hus =>
      have hcurried : imageOf t f (u :: us) = Ty.curried us u := by
        rw [imageOf.eq_def, hstyle, ht.specialized]
      have hresult : ¬ (Request.ofExpr u.toExpr).IsMethod := fun h =>
        ht.result hstyle result (by simp [hparams]) (hu.isMethod h)
      have hsingle : ∀ arg, args = [arg] → ¬ r.IsUnit arg := fun arg hone =>
        ht.argument hstyle (by simp [hparams, hone]) arg (by simp [hparams, hone])
      obtain ⟨domains, hrequest, hargs⟩ := answer_curried hresult hus hsingle
      have hread : answer ∅ (Request.ofExpr u.toExpr) r = .ok result r := hu.readsAs
      rw [hcurried] at himage ⊢
      refine ⟨himage, .curried (ReadBack.printables hus) hu.printable, ?_, fun _ => hmethod,
        fun hunit => ?_⟩
      · unfold ReadsAs denote
        rw [hrequest, answer_method]
        simp only [bind_apply, hread, hargs]
        rw [htemplate] at hspecialize
        exact hspecialize
      · rw [hrequest] at hunit
        cases hunit

/-- The image of a type is read back. The cases are the styles that have an image of their own. -/
theorem Throughout.exists_readBack (hr : initial.Evolved r) (h : r.Throughout r.Depictable id) :
    ∃ u, r.ReadBack id u := by
  induction h with
  | @node id t f hentry ht _ ih =>
    obtain ⟨us, hus⟩ := exists_forall₂ ih
    refine ⟨imageOf t f us, ?_⟩
    by_cases htuple : f.style = .tuple
    · exact readBack_tuple hr hentry ht htuple hus
    · by_cases hmethod : f.style = .method
      · exact readBack_method hr hentry ht hmethod hus
      · exact readBack_named hr hentry ht.toWritable htuple hmethod hus

/-- The image of a type reads as the type, and so two types with one image are the same. The type
and all that it is applied to have to be usable and to have names that expressions can use, and
they must be told apart by their images. -/
theorem denote_image_render (hr : r.Reachable) (h : r.Throughout r.Depictable id) :
    ∃ u e, r.image id = .ok u ∧ TypeExpr.parse u.render = .ok e ∧ denote e ∅ r = .ok id r ∧
      ∀ id', r.Throughout r.Depictable id' → r.image id' = .ok u → id' = id := by
  obtain ⟨u, hu⟩ := h.exists_readBack hr.evolved
  obtain ⟨e, hparse, hbare⟩ := hu.printable.exists_parse
  refine ⟨u, e, hu.image, hparse, ?_, fun id' h' himage => ?_⟩
  · exact denote_of_bare_eq (u.bare_toExpr.trans hbare.symm) hu.readsAs
  · obtain ⟨u', hu'⟩ := h'.exists_readBack hr.evolved
    obtain rfl : u = u' := Except.ok.inj (himage.symm.trans hu'.image)
    have hread : denote u.toExpr ∅ r = .ok id r := hu.readsAs
    rw [hu'.readsAs] at hread
    cases hread
    rfl

/-- A method without arguments that returns a box, in which is another method. -/
theorem denote_image_render_method :
    let pair := "((), Slice" ++ Text.braced "Bool" ++ ")"
    let box := "Box" ++ Text.braced pair
    let text := "(() -> Box" ++ Text.braced ("(() -> (" ++ pair ++ " -> " ++ box ++ "))") ++ ")"
    shelved.Reachable ∧ shelved.Throughout shelved.Depictable 19 ∧
      ∃ u e, shelved.image 19 = .ok u ∧ u.render = text ∧ TypeExpr.parse text = .ok e ∧
        denote e ∅ shelved = .ok 19 shelved ∧
        ∀ id', shelved.Throughout shelved.Depictable id' → shelved.image id' = .ok u →
          id' = 19 := by
  intro pair box text
  have hr : shelved.Reachable := reachable_build _
  have hmethod : shelved.Throughout shelved.Depictable 19 := by
    have hcheck : shelved.checkThroughout shelved.Depictable 8 19 = true := by decide +kernel
    exact throughout_of_check hcheck
  have hshown : (shelved.image 19).toOption.map Ty.render = some text := by decide +kernel
  obtain ⟨u, e, himage, hparse, hdenote, hunique⟩ := denote_image_render hr hmethod
  rw [himage] at hshown
  have hrender : u.render = text := Option.some.inj hshown
  exact ⟨hr, hmethod, u, e, himage, hrender, hrender ▸ hparse, hdenote, hunique⟩

end Registry

end TypeLayer
