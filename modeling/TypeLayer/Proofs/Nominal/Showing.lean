import TypeLayer.Proofs.Nominal.Mangling
import TypeLayer.Proofs.Nominal.Rereading
import TypeLayer.Proofs.TypeExpr.Stray

/-!
# Shown forms tell types apart

A shown form can be taken apart again.  The name of the family is the word that it begins with,
and braces follow exactly if there are parameters.  Inside them, commas separate the parameters;
the arguments of a method end at a blank, and its result comes last.

Nothing marks the end of a shown form: `Box` is the beginning of `Boxes` and of `Box{Int}`.  So
what is proved by induction is about shown forms with something behind them that no shown form
goes on with (`Stops`), as is the case inside of braces and at the very end: the text is then that
of one type only, and it is known where the form ends (`Throughout.toldApart`).
-/

namespace TypeLayer

theorem IsWord.forall_isWordPart {name : String} (h : IsWord name) :
    ∀ c ∈ name.toList, isWordPart c = true := by
  obtain ⟨d, ds, hlist, hd, hds⟩ := h
  rw [hlist]
  exact List.forall_mem_cons.2 ⟨isWordPart_of_isWordStart hd, hds⟩

namespace Registry

variable {r : Registry} {a b id : TypeId} {t : Datatype} {f : Family} {texts : List String}
  {u v : List Char}

/-! ## Where a shown form ends -/

/-- No shown form goes on with this text. -/
def Stops (u : List Char) : Prop :=
  ∀ c ∈ u.head?, isWordPart c = false ∧ c ≠ '{'

theorem stops_nil : Stops [] := by
  intro c hc
  cases hc

theorem stops_cons {c : Char} (hword : isWordPart c = false) (hbrace : c ≠ '{')
    (u : List Char) : Stops (c :: u) := by
  intro d hd
  obtain rfl := Option.some.inj hd
  exact ⟨hword, hbrace⟩

theorem Stops.not_isWordPart (h : Stops u) : ∀ c ∈ u.head?, isWordPart c = false :=
  fun c hc => (h c hc).1

/-! ## The parts of a shown form -/

/-- What follows the name of the family in a shown form. -/
def shownSuffix (style : Style) (texts : List String) : List Char :=
  if style = .method then
    '{' :: ((Application.list texts.tail).toList ++
      ' ' :: ':' :: ' ' :: ((texts.headD "").toList ++ ['}']))
  else if texts.isEmpty then []
  else '{' :: ((Application.list texts).toList ++ ['}'])

theorem not_isWordPart_shownSuffix {style : Style} (hu : Stops u) :
    ∀ c ∈ (shownSuffix style texts ++ u).head?, isWordPart c = false := by
  have hbrace : ∀ cs : List Char, ∀ c ∈ ('{' :: cs).head?, isWordPart c = false := by
    intro cs c hc
    obtain rfl := Option.some.inj hc
    rfl
  unfold shownSuffix
  split
  · exact hbrace _
  · split
    · exact hu.not_isWordPart
    · exact hbrace _

/-- Without arguments, nothing but the blank stands before the colon of a method. -/
theorem Reachable.toList_shownOf (hr : r.Reachable) (hentry : r.entry id = .ok (t, f))
    (hspecialized : t.specialized = true) (htexts : texts.length = t.params.length) :
    (shownOf t f texts).toList = f.name.toList ++ shownSuffix f.style texts := by
  by_cases hmethod : f.style = .method
  · have hname : f.name = "Fn" :=
      hr.evolved.wellFormed.reserved (entry_eq_ok_iff.1 hentry).2 "Fn" (by rw [hmethod]; rfl)
    have hcolon : ∀ args : String,
        (if args.isEmpty then " : " else args ++ " : ") = args ++ " : " := by
      intro args
      split
      · next hempty => rw [String.isEmpty_iff.1 hempty, String.empty_append]
      · rfl
    unfold shownOf shownSuffix
    rw [if_pos hspecialized, hmethod, hname]
    dsimp only
    rw [hcolon]
    simp
  · rw [hr.shownOf_eq hentry hspecialized hmethod htexts]
    unfold shownSuffix Application.plain
    rw [if_neg hmethod]
    split <;> simp

/-- The type is no template, and it was not withdrawn. -/
def Intact (t : Datatype) (_ : Family) : Prop :=
  t.specialized = true ∧ t.progress ≠ .failed

instance (t : Datatype) (f : Family) : Decidable (Intact t f) :=
  inferInstanceAs (Decidable (_ ∧ _))

theorem Throughout.exists_entry {P : Datatype → Family → Prop} (h : r.Throughout P id) :
    ∃ t f, r.entry id = .ok (t, f) ∧ P t f ∧ ∀ p ∈ t.params, r.Throughout P p := by
  cases h with
  | node hentry ht hparams => exact ⟨_, _, hentry, ht, hparams⟩

/-- The shown form of a type that is in use: the name of its family, and what its parameters add. -/
theorem Throughout.exists_toList (hr : r.Reachable) (h : r.Throughout Intact id) :
    ∃ t f texts, r.entry id = .ok (t, f) ∧ Intact t f ∧
      (∀ p ∈ t.params, r.Throughout Intact p) ∧
      List.Forall₂ (fun p text => r.display p = .ok text) t.params texts ∧
      ∀ x, r.display id = .ok x → x.toList = f.name.toList ++ shownSuffix f.style texts := by
  obtain ⟨t, f, hentry, hintact, hparams⟩ := h.exists_entry
  have ht := (entry_eq_ok_iff.1 hentry).1
  obtain ⟨texts, htexts⟩ : ∃ texts,
      List.Forall₂ (fun p text => r.display p = .ok text) t.params texts :=
    exists_forall₂ fun p hp =>
      exists_display hr.evolved (hr.evolved.wellFormed.has_params ht p hp)
  refine ⟨t, f, texts, hentry, hintact, hparams, htexts, fun x hx => ?_⟩
  rw [display_eq_ok hr.evolved hentry htexts] at hx
  obtain rfl := Except.ok.inj hx
  exact hr.toList_shownOf hentry hintact.1 htexts.length_eq.symm

/-! ## Lists of shown forms -/

/-- With something behind it that stops it, the shown form of the type is that of no other type, and
it is known where it ends. -/
def ToldApart (r : Registry) (a : TypeId) : Prop :=
  ∀ b x y u v, r.Throughout Intact b → r.display a = .ok x → r.display b = .ok y → Stops u →
    Stops v → x.toList ++ u = y.toList ++ v → a = b ∧ u = v

/-- What is left of a written list behind its first member. -/
def listRest : List String → List Char
  | [] => []
  | text :: rest => ',' :: ' ' :: (Application.list (text :: rest)).toList

theorem toList_list_cons (text : String) (rest : List String) :
    (Application.list (text :: rest)).toList = text.toList ++ listRest rest := by
  unfold Application.list
  cases rest with
  | nil => rw [String.intercalate_singleton, listRest, List.append_nil]
  | cons next rest =>
    rw [String.intercalate_cons_cons, String.toList_append, String.toList_append, List.append_assoc]
    rfl

/-- No list of shown forms goes on with this text. -/
structure StopsList (u : List Char) : Prop where
  stops : Stops u
  comma : ∀ cs, u ≠ ',' :: cs

theorem StopsList.listRest_append (h : StopsList u) (texts : List String) :
    Stops (listRest texts ++ u) := by
  cases texts with
  | nil => exact h.stops
  | cons text rest => exact stops_cons rfl (by decide) _

section

variable (hr : r.Reachable)
  (hwords : ∀ (k : FamilyId) (f : Family), r.families[k]? = some f → IsWord f.name)

include hr hwords

/-- A shown form begins with a letter or an underscore. -/
theorem Throughout.append_ne (h : r.Throughout Intact id) {x : String} (hx : r.display id = .ok x)
    (hu : Stops u) : x.toList ++ v ≠ u := by
  obtain ⟨t, f, texts, hentry, -, -, -, hshown⟩ := h.exists_toList hr
  obtain ⟨c, cs, hname, hc, -⟩ := hwords _ _ (entry_eq_ok_iff.1 hentry).2
  rintro rfl
  have hword := hu.not_isWordPart c (by rw [hshown x hx, hname]; rfl)
  rw [isWordPart_of_isWordStart hc] at hword
  cases hword

/-- The members of a list are known from the text, and where the list ends. The induction is on the
first list. -/
theorem eq_of_list_append {as bs : List TypeId} {xs ys : List String}
    (has : ∀ a ∈ as, r.ToldApart a) (hain : ∀ a ∈ as, r.Throughout Intact a)
    (hbin : ∀ b ∈ bs, r.Throughout Intact b)
    (hxs : List.Forall₂ (fun p text => r.display p = .ok text) as xs)
    (hys : List.Forall₂ (fun p text => r.display p = .ok text) bs ys)
    (hu : StopsList u) (hv : StopsList v)
    (h : (Application.list xs).toList ++ u = (Application.list ys).toList ++ v) :
    as = bs ∧ u = v := by
  induction hxs generalizing bs ys with
  | nil =>
    cases hys with
    | nil => exact ⟨rfl, h⟩
    | cons hy hys =>
      rw [toList_list_cons, List.append_assoc] at h
      have hb := (List.forall_mem_cons.1 hbin).1
      exact absurd h.symm (hb.append_ne hr hwords hy hu.stops)
  | @cons a x as xs hx hxs ih =>
    rw [List.forall_mem_cons] at has hain
    rw [toList_list_cons, List.append_assoc] at h
    cases hys with
    | nil => exact absurd h (hain.1.append_ne hr hwords hx hv.stops)
    | @cons b y bs ys hy hys =>
      rw [List.forall_mem_cons] at hbin
      rw [toList_list_cons, List.append_assoc] at h
      obtain ⟨rfl, hrest⟩ := has.1 b x y _ _ hbin.1 hx hy (hu.listRest_append xs)
        (hv.listRest_append ys) h
      -- Either both lists end here, or both go on behind a comma.
      cases hxs with
      | nil =>
        cases hys with
        | nil => exact ⟨rfl, hrest⟩
        | cons _ _ => exact absurd hrest (hu.comma _)
      | cons hx' hxs' =>
        cases hys with
        | nil => exact absurd hrest.symm (hv.comma _)
        | cons hy' hys' =>
          have hlists := (List.cons.inj (List.cons.inj hrest).2).2
          obtain ⟨htail, huv⟩ := ih has.2 hain.2 hbin.2 (.cons hy' hys') hlists
          exact ⟨by rw [htail], huv⟩

/-! ## Shown forms -/

/-- The parameters of a type are known from what follows the name of its family. -/
theorem eq_of_shownSuffix_append {style : Style} {ps qs : List TypeId} {xs ys : List String}
    (hps : ∀ p ∈ ps, r.ToldApart p) (hpin : ∀ p ∈ ps, r.Throughout Intact p)
    (hqin : ∀ q ∈ qs, r.Throughout Intact q)
    (hmethod : style = .method → ps ≠ [] ∧ qs ≠ [])
    (hxs : List.Forall₂ (fun p text => r.display p = .ok text) ps xs)
    (hys : List.Forall₂ (fun p text => r.display p = .ok text) qs ys)
    (hu : Stops u) (hv : Stops v)
    (h : shownSuffix style xs ++ u = shownSuffix style ys ++ v) : ps = qs ∧ u = v := by
  have hclosed : ∀ w, StopsList ('}' :: w) :=
    fun w => ⟨stops_cons rfl (by decide) w, fun cs => by simp⟩
  have hblank : ∀ w, StopsList (' ' :: w) :=
    fun w => ⟨stops_cons rfl (by decide) w, fun cs => by simp⟩
  unfold shownSuffix at h
  by_cases hstyle : style = .method
  · rw [if_pos hstyle, if_pos hstyle] at h
    cases hxs with
    | nil => exact absurd rfl (hmethod hstyle).1
    | @cons p x ps xs hx hxs =>
      cases hys with
      | nil => exact absurd rfl (hmethod hstyle).2
      | @cons q y qs ys hy hys =>
        rw [List.forall_mem_cons] at hps hpin hqin
        simp only [List.tail_cons, List.headD_cons, List.cons_append, List.append_assoc,
          List.cons.injEq, true_and] at h
        obtain ⟨rfl, hresult⟩ := eq_of_list_append hr hwords hps.2 hpin.2 hqin.2 hxs hys
          (hblank _) (hblank _) h
        simp only [List.cons.injEq, true_and] at hresult
        obtain ⟨rfl, hend⟩ := hps.1 q x y _ _ hqin.1 hx hy (hclosed _).stops (hclosed _).stops
          hresult
        exact ⟨rfl, (List.cons.inj hend).2⟩
  · rw [if_neg hstyle, if_neg hstyle] at h
    cases hxs with
    | nil =>
      cases hys with
      | nil => exact ⟨rfl, h⟩
      | cons _ _ =>
        obtain rfl := h
        exact absurd rfl (hu '{' rfl).2
    | cons hx hxs =>
      cases hys with
      | nil =>
        obtain rfl := h
        exact absurd rfl (hv '{' rfl).2
      | cons hy hys =>
        have hlists := (List.cons.inj h).2
        simp only [List.append_eq, List.append_assoc] at hlists
        obtain ⟨heq, hend⟩ := eq_of_list_append hr hwords hps hpin hqin (.cons hx hxs)
          (.cons hy hys) (hclosed _) (hclosed _) hlists
        exact ⟨heq, (List.cons.inj hend).2⟩

/-- The induction is along the parameters of the first type. -/
theorem Throughout.toldApart (ha : r.Throughout Intact a) : r.ToldApart a := by
  induction ha with
  | @node a t f hentry hintact hparams ih =>
    intro b x y u v hb hx hy hu hv h
    have ha : r.Throughout Intact a := .node hentry hintact hparams
    obtain ⟨t₁, f₁, xs, hentry₁, -, -, hxs, hshown⟩ := ha.exists_toList hr
    obtain ⟨rfl, rfl⟩ := eq_of_entry hentry hentry₁
    obtain ⟨t', f', ys, hentry', hintact', hparams', hys, hshown'⟩ := hb.exists_toList hr
    obtain ⟨ht, hf⟩ := entry_eq_ok_iff.1 hentry
    obtain ⟨ht', hf'⟩ := entry_eq_ok_iff.1 hentry'
    rw [hshown x hx, hshown' y hy, List.append_assoc, List.append_assoc] at h
    obtain ⟨hname, hsuffix⟩ := append_inj_of_class (hwords _ f hf).forall_isWordPart
      (hwords _ f' hf').forall_isWordPart (not_isWordPart_shownSuffix hu)
      (not_isWordPart_shownSuffix hv) h
    obtain ⟨hfamily, rfl⟩ := hr.evolved.founded.eq_of_name hf hf' (String.toList_inj.1 hname)
    have hmethod : f.style = .method → t.params ≠ [] ∧ t'.params ≠ [] := fun hstyle =>
      ⟨hr.evolved.method_params_of_style hentry hintact.1 hstyle,
        hr.evolved.method_params_of_style hentry' hintact'.1 hstyle⟩
    obtain ⟨hsame, huv⟩ :=
      eq_of_shownSuffix_append hr hwords ih hparams hparams' hmethod hxs hys hu hv hsuffix
    -- One family and one list of parameters: there is one such instance.
    have hsettled := hr.evolved.settled ht hintact.1 hintact.2
    have hsettled' := hr.evolved.settled ht' hintact'.1 hintact'.2
    rw [hfamily, hsame] at hsettled
    exact ⟨hsettled.unique hsettled' hr.evolved, huv⟩

end

/-- Whatever calls were made, as long as the types have names that can be written in an
annotation, a shown form is that of one type only. The types, and all that they are applied to,
have to be in use: templates are shown by the names of their parameters, and what was withdrawn
may have been made once more. -/
theorem display_injective (hr : r.Reachable)
    (hwords : ∀ (k : FamilyId) (f : Family), r.families[k]? = some f → IsWord f.name)
    (ha : r.Throughout Intact a) (hb : r.Throughout Intact b) :
    ∃ x y, r.display a = .ok x ∧ r.display b = .ok y ∧ (x = y → a = b) := by
  have hlt : ∀ {id : TypeId}, r.Throughout Intact id → id < r.size := by
    intro id h
    obtain ⟨t, f, hentry, -⟩ := h.exists_entry
    exact lt_size (entry_eq_ok_iff.1 hentry).1
  obtain ⟨x, hx⟩ := exists_display hr.evolved (hlt ha)
  obtain ⟨y, hy⟩ := exists_display hr.evolved (hlt hb)
  refine ⟨x, y, hx, hy, ?_⟩
  rintro rfl
  exact (ha.toldApart hr hwords b x x [] [] hb hx hy stops_nil stops_nil rfl).1

/-- A thunk in which are boxes, methods and tuples. The template of tuples is shown like the unit
type, and is none of the types in use. -/
theorem display_injective_shelved :
    let tuple := "Tuple" ++ Text.braced ("Tuple, Slice" ++ Text.braced "Bool")
    let box := "Box" ++ Text.braced tuple
    let method := "Fn" ++ Text.braced ("Tuple, " ++ tuple ++ " : " ++ box)
    let text := "Fn" ++ Text.braced (" : Box" ++ Text.braced method)
    shelved.Reachable ∧
      (∀ (k : FamilyId) (f : Family), shelved.families[k]? = some f → IsWord f.name) ∧
      shelved.Throughout Intact 19 ∧ shelved.display 19 = .ok text ∧
      (∀ b, shelved.Throughout Intact b → shelved.display b = .ok text → b = 19) ∧
      shelved.display Builtin.tuple = shelved.display 13 := by
  intro tuple box method text
  have hr : shelved.Reachable := reachable_build _
  have hwords : ∀ (k : FamilyId) (f : Family), shelved.families[k]? = some f → IsWord f.name := by
    have hall : ∀ f ∈ shelved.families, IsWord f.name := by decide +kernel
    exact fun k f hf => hall f (Array.mem_of_getElem? hf)
  have hthunk : shelved.Throughout Intact 19 := by
    have hcheck : shelved.checkThroughout Intact 8 19 = true := by decide +kernel
    exact throughout_of_check hcheck
  have hshown : shelved.display 19 = .ok text := by decide +kernel
  refine ⟨hr, hwords, hthunk, hshown, fun b hb hdisplay => ?_, by decide +kernel⟩
  obtain ⟨x, y, hx, hy, hinjective⟩ := display_injective hr hwords hb hthunk
  obtain rfl := Except.ok.inj (hdisplay.symm.trans hx)
  exact hinjective (Except.ok.inj (hshown.symm.trans hy))

end Registry

end TypeLayer
