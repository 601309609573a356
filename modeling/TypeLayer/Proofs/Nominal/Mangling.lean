import TypeLayer.Proofs.Nominal.Arena
import TypeLayer.Proofs.TypeExpr.Printing

/-!
# Mangled names

A mangled name is put together from texts of any length: the name of a family, and the
mangled names of the parameters, which hold names and lengths of their own.  It can be taken
apart again.  Its first character gives the style of the type, the name of an object ends
where the first dollar sign is, and a length ends where the first character is that is no
digit; then the length says where the text after it ends.

So two mangled names are equal only if the types are alike (`alike_of_mangled_eq`): the same
family, with parameters that are alike.  For numbers the width is all there is to tell them
apart.
-/

namespace TypeLayer

/-! ## Texts in front of other texts -/

/-- Where a text of characters of one class is followed by a character of another, the two
texts can be told apart. -/
theorem append_inj_of_class {p : Char → Bool} {as bs s t : List Char}
    (has : ∀ c ∈ as, p c = true) (hbs : ∀ c ∈ bs, p c = true) (hs : ∀ c ∈ s.head?, p c = false)
    (ht : ∀ c ∈ t.head?, p c = false) (h : as ++ s = bs ++ t) : as = bs ∧ s = t := by
  induction as generalizing bs with
  | nil =>
    cases bs with
    | nil => exact ⟨rfl, h⟩
    | cons b bs =>
      rw [List.nil_append, List.cons_append] at h
      have hb := hs b (by rw [h]; rfl)
      rw [hbs b List.mem_cons_self] at hb
      cases hb
  | cons a as ih =>
    cases bs with
    | nil =>
      rw [List.nil_append, List.cons_append] at h
      have ha := ht a (by rw [← h]; rfl)
      rw [has a List.mem_cons_self] at ha
      cases ha
    | cons b bs =>
      obtain ⟨rfl, hrest⟩ := List.cons.inj h
      obtain ⟨rfl, hst⟩ := ih (List.forall_mem_cons.1 has).2 (List.forall_mem_cons.1 hbs).2 hrest
      exact ⟨rfl, hst⟩

/-- The text begins with a character that is no digit. -/
def BeginsPlain (s : String) : Prop :=
  ∃ c cs, s.toList = c :: cs ∧ c.isDigit = false

theorem BeginsPlain.append {s : String} (h : BeginsPlain s) (t : String) :
    BeginsPlain (s ++ t) := by
  obtain ⟨c, cs, hs, hc⟩ := h
  exact ⟨c, cs ++ t.toList, by rw [String.toList_append, hs, List.cons_append], hc⟩

/-- A number ends where the digits do. -/
theorem repr_append_inj {n m : Nat} {s t : String} (hs : BeginsPlain s) (ht : BeginsPlain t)
    (h : n.repr ++ s = m.repr ++ t) : n = m ∧ s = t := by
  have hlist := congrArg String.toList h
  rw [String.toList_append, String.toList_append] at hlist
  have hplain : ∀ {u : String}, BeginsPlain u → ∀ c ∈ u.toList.head?, c.isDigit = false := by
    rintro u ⟨d, ds, hu, hd⟩ c hc
    rw [hu] at hc
    obtain rfl := Option.some.inj hc
    exact hd
  obtain ⟨hnumber, hrest⟩ :=
    append_inj_of_class (fun _ => isDigit_of_mem_repr) (fun _ => isDigit_of_mem_repr) (hplain hs)
      (hplain ht) hlist
  exact ⟨repr_inj hnumber, String.toList_inj.1 hrest⟩

namespace Registry

/-- A text with its length before it can be told from what follows it. -/
theorem counted_append_inj {a b s t : String} (ha : BeginsPlain a) (hb : BeginsPlain b)
    (h : counted a ++ s = counted b ++ t) : a = b ∧ s = t := by
  unfold counted at h
  rw [String.append_assoc, String.append_assoc] at h
  obtain ⟨hsize, htexts⟩ := repr_append_inj (ha.append s) (hb.append t) h
  have hbytes := congrArg String.toByteArray htexts
  rw [String.toByteArray_append, String.toByteArray_append] at hbytes
  obtain rfl : a = b := String.toByteArray_inj.1 (ByteArray.append_inj_left hbytes hsize)
  exact ⟨rfl, (String.append_right_inj a).1 htexts⟩

/-- The names of the parameters, one after the other. -/
def countedAll (names : List String) : String :=
  String.join (names.map fun name => "_" ++ counted name)

theorem countedAll_cons (name : String) (rest : List String) :
    countedAll (name :: rest) = "_" ++ (counted name ++ countedAll rest) := by
  unfold countedAll
  rw [List.map_cons, String.join_cons, String.append_assoc]

theorem beginsPlain_countedAll_cons (name : String) (rest : List String) :
    BeginsPlain (countedAll (name :: rest)) := by
  rw [countedAll_cons]
  exact BeginsPlain.append ⟨'_', [], rfl, rfl⟩ _

theorem countedAll_inj {as bs : List String} (has : ∀ a ∈ as, BeginsPlain a)
    (hbs : ∀ b ∈ bs, BeginsPlain b) (h : countedAll as = countedAll bs) : as = bs := by
  have hne : ∀ (name : String) (rest : List String), countedAll [] ≠ countedAll (name :: rest) := by
    intro name rest heq
    obtain ⟨c, cs, htext, -⟩ := beginsPlain_countedAll_cons name rest
    rw [← heq] at htext
    cases htext
  induction as generalizing bs with
  | nil =>
    cases bs with
    | nil => rfl
    | cons b bs => exact absurd h (hne b bs)
  | cons a as ih =>
    cases bs with
    | nil => exact absurd h.symm (hne a as)
    | cons b bs =>
      rw [List.forall_mem_cons] at has hbs
      rw [countedAll_cons, countedAll_cons] at h
      obtain ⟨rfl, hrest⟩ := counted_append_inj has.1 hbs.1 ((String.append_right_inj "_").1 h)
      rw [ih has.2 hbs.2 hrest]

end Registry

/-! ## Styles -/

/-- The style of a type, from the first character of its mangled name. -/
def Style.ofMark? (c : Char) : Option Style :=
  match c with
  | 'i' => some .integer
  | 'f' | 'd' => some .floating
  | 'o' => some .object
  | 'u' => some .union
  | 't' => some .tuple
  | 'm' => some .method
  | 's' => some .slice
  | _ => none

theorem Style.isDigit_of_ofMark? {c : Char} {style : Style} (h : ofMark? c = some style) :
    c.isDigit = false := by
  unfold ofMark? at h
  split at h
  case h_9 => cases h
  all_goals rfl

/-- The text begins like the mangled name of a type of the style. -/
def Style.Marks (style : Style) (text : String) : Prop :=
  ∃ c cs, text.toList = c :: cs ∧ ofMark? c = some style

theorem Style.Marks.beginsPlain {style : Style} {text : String} (h : style.Marks text) :
    BeginsPlain text := by
  obtain ⟨c, cs, htext, hmark⟩ := h
  exact ⟨c, cs, htext, isDigit_of_ofMark? hmark⟩

theorem Style.Marks.unique {a b : Style} {text : String} (ha : a.Marks text) (hb : b.Marks text) :
    a = b := by
  obtain ⟨c, cs, htext, hmark⟩ := ha
  obtain ⟨d, ds, htext', hmark'⟩ := hb
  obtain ⟨rfl, -⟩ := List.cons.inj (htext.symm.trans htext')
  exact Option.some.inj (hmark.symm.trans hmark')

theorem Style.Marks.append {style : Style} {text : String} (h : style.Marks text) (rest : String) :
    style.Marks (text ++ rest) := by
  obtain ⟨c, cs, htext, hmark⟩ := h
  exact ⟨c, cs ++ rest.toList, by rw [String.toList_append, htext, List.cons_append], hmark⟩

/-- Numbers are told apart by their width only. -/
def Style.IsNumber (style : Style) : Prop :=
  style = .integer ∨ style = .floating

namespace Registry

variable {r : Registry} {a b id : TypeId} {t : Datatype} {f g : Family} {text : String}

theorem mangledNumber?_eq_none_iff : mangledNumber? f = none ↔ ¬ f.style.IsNumber := by
  unfold mangledNumber? Style.IsNumber
  cases f.style with
  | floating =>
    dsimp only
    split <;> simp
  | integer | object | union | tuple | method | slice => simp

theorem marks_mangledNumber (h : mangledNumber? f = some text) : f.style.Marks text := by
  unfold mangledNumber? at h
  cases hstyle : f.style with
  | integer =>
    rw [hstyle] at h
    obtain rfl := Option.some.inj h
    exact Style.Marks.append ⟨'i', [], rfl, rfl⟩ _
  | floating =>
    rw [hstyle] at h
    dsimp only at h
    split at h
    · obtain rfl := Option.some.inj h
      exact ⟨'f', _, rfl, rfl⟩
    · obtain rfl := Option.some.inj h
      exact ⟨'d', _, rfl, rfl⟩
    · obtain rfl := Option.some.inj h
      exact Style.Marks.append ⟨'f', [], rfl, rfl⟩ _
  | object | union | tuple | method | slice =>
    rw [hstyle] at h
    cases h

/-- The name of a number of another width than 32 and 64 is none of the two names for these
widths. -/
theorem append_repr_ne_float (n : Nat) : "f" ++ n.repr ≠ "float" ∧ "f" ++ n.repr ≠ "double" := by
  constructor
  · intro h
    have hdigits : n.repr.toList = ['l', 'o', 'a', 't'] := by
      have hlist := congrArg String.toList h
      rw [String.toList_append] at hlist
      exact (List.cons.inj hlist).2
    have hletter : 'l'.isDigit = true := isDigit_of_mem_repr (by rw [hdigits]; exact .head _)
    cases hletter
  · intro h
    have hlist := congrArg String.toList h
    rw [String.toList_append] at hlist
    cases (List.cons.inj hlist).1

theorem mangledFloat_cases (hstyle : f.style = .floating) (h : mangledNumber? f = some text) :
    f.bits = 32 ∧ text = "float" ∨ f.bits = 64 ∧ text = "double" ∨ text = "f" ++ f.bits.repr := by
  unfold mangledNumber? at h
  rw [hstyle] at h
  dsimp only at h
  split at h
  · next hbits => exact .inl ⟨hbits, (Option.some.inj h).symm⟩
  · next hbits => exact .inr (.inl ⟨hbits, (Option.some.inj h).symm⟩)
  · exact .inr (.inr (Option.some.inj h).symm)

theorem bits_eq_of_mangledNumber (hf : mangledNumber? f = some text)
    (hg : mangledNumber? g = some text) (hstyle : f.style = g.style) : f.bits = g.bits := by
  have hrepr : ∀ {mark : String} {n m : Nat}, mark ++ n.repr = mark ++ m.repr → n = m :=
    fun {mark _ _} h => repr_inj (congrArg String.toList ((String.append_right_inj mark).1 h))
  cases hf' : f.style with
  | integer =>
    unfold mangledNumber? at hf hg
    rw [← hstyle, hf'] at hg
    rw [hf'] at hf
    exact hrepr (Option.some.inj (hf.trans hg.symm))
  | floating =>
    have hne := fun n => append_repr_ne_float n
    rcases mangledFloat_cases hf' hf with ⟨hn, rfl⟩ | ⟨hn, rfl⟩ | rfl <;>
      rcases mangledFloat_cases (hstyle ▸ hf') hg with ⟨hm, heq⟩ | ⟨hm, heq⟩ | heq
    · exact hn.trans hm.symm
    · exact absurd heq (by decide)
    · exact absurd heq.symm (hne _).1
    · exact absurd heq (by decide)
    · exact hn.trans hm.symm
    · exact absurd heq.symm (hne _).2
    · exact absurd heq (hne _).1
    · exact absurd heq (hne _).2
    · exact hrepr heq
  | object | union | tuple | method | slice =>
    unfold mangledNumber? at hf
    rw [hf'] at hf
    cases hf

/-! ## Other types -/

theorem mangledSuffix_cons (name : String) (rest : List String) :
    mangledSuffix (name :: rest) = "$" ++ counted (countedAll (name :: rest)) :=
  rfl

theorem mangledSuffix_inj {ns ms : List String} (hns : ∀ n ∈ ns, BeginsPlain n)
    (hms : ∀ m ∈ ms, BeginsPlain m) (h : mangledSuffix ns = mangledSuffix ms) : ns = ms := by
  have hne : ∀ (name : String) (rest : List String),
      mangledSuffix [] ≠ mangledSuffix (name :: rest) := by
    intro name rest heq
    have hlist := congrArg String.toList heq
    rw [mangledSuffix_cons, String.toList_append] at hlist
    cases hlist
  cases ns with
  | nil =>
    cases ms with
    | nil => rfl
    | cons m ms => exact absurd h (hne m ms)
  | cons n ns =>
    cases ms with
    | nil => exact absurd h.symm (hne n ns)
    | cons m ms =>
      have hcounted := (String.append_right_inj "$").1 h
      have hpadded : counted (countedAll (n :: ns)) ++ "" = counted (countedAll (m :: ms)) ++ "" :=
        congrArg (· ++ "") hcounted
      have hall := (counted_append_inj (beginsPlain_countedAll_cons n ns)
        (beginsPlain_countedAll_cons m ms) hpadded).1
      exact countedAll_inj hns hms hall

theorem marks_mangledStem (h : ¬ f.style.IsNumber) : f.style.Marks (mangledStem f) := by
  unfold mangledStem
  cases hstyle : f.style with
  | integer => exact absurd (.inl hstyle) h
  | floating => exact absurd (.inr hstyle) h
  | object => exact Style.Marks.append ⟨'o', _, rfl, rfl⟩ _
  | union => exact Style.Marks.append ⟨'u', _, rfl, rfl⟩ _
  | tuple => exact Style.Marks.append ⟨'t', _, rfl, rfl⟩ _
  | method => exact Style.Marks.append ⟨'m', _, rfl, rfl⟩ _
  | slice => exact Style.Marks.append ⟨'s', _, rfl, rfl⟩ _

/-- There is no dollar sign in the stem of a mangled name. -/
theorem ne_dollar_of_mem_mangledStem (hname : IsWord f.name) :
    ∀ c ∈ (mangledStem f).toList, (c != '$') = true := by
  have hword : ∀ c ∈ f.name.toList, (c != '$') = true := by
    obtain ⟨d, ds, hlist, hd, hds⟩ := hname
    intro c hc
    rw [bne_iff_ne]
    rintro rfl
    rw [hlist] at hc
    rcases List.mem_cons.1 hc with rfl | hc
    · cases hd
    · cases hds _ hc
  have happend : ∀ {a b : String}, (∀ c ∈ a.toList, (c != '$') = true) →
      (∀ c ∈ b.toList, (c != '$') = true) → ∀ c ∈ (a ++ b).toList, (c != '$') = true := by
    intro a b ha hb
    rw [String.toList_append]
    exact List.forall_mem_append.2 ⟨ha, hb⟩
  unfold mangledStem
  cases f.style with
  | object => exact happend (List.all_eq_true.1 rfl) hword
  | integer | floating | union | tuple | method | slice =>
    exact happend (List.all_eq_true.1 rfl) (List.all_eq_true.1 rfl)

theorem mangledStem_append_inj {ns ms : List String} (hf : IsWord f.name) (hg : IsWord g.name)
    (hns : ∀ n ∈ ns, BeginsPlain n) (hms : ∀ m ∈ ms, BeginsPlain m)
    (h : mangledStem f ++ mangledSuffix ns = mangledStem g ++ mangledSuffix ms) :
    mangledStem f = mangledStem g ∧ ns = ms := by
  have hdollar : ∀ names : List String, ∀ c ∈ (mangledSuffix names).toList.head?,
      (c != '$') = false := by
    intro names c hc
    cases names with
    | nil => cases hc
    | cons name rest =>
      rw [mangledSuffix_cons, String.toList_append] at hc
      obtain rfl := Option.some.inj hc
      rfl
  have hlist := congrArg String.toList h
  rw [String.toList_append, String.toList_append] at hlist
  obtain ⟨hstem, hsuffix⟩ := append_inj_of_class (ne_dollar_of_mem_mangledStem hf)
    (ne_dollar_of_mem_mangledStem hg) (hdollar ns) (hdollar ms) hlist
  exact ⟨String.toList_inj.1 hstem, mangledSuffix_inj hns hms (String.toList_inj.1 hsuffix)⟩

/-- The stem of a mangled name tells the family: the name of an object is in it, and the other
styles have one family each. -/
theorem Evolved.family_eq_of_mangledStem {k k' : FamilyId} (hr : initial.Evolved r)
    (hf : r.families[k]? = some f) (hg : r.families[k']? = some g) (hfn : ¬ f.style.IsNumber)
    (hgn : ¬ g.style.IsNumber) (h : mangledStem f = mangledStem g) : k = k' := by
  have hstyle : f.style = g.style := (marks_mangledStem hfn).unique (h ▸ marks_mangledStem hgn)
  have hreserved : ∀ name, f.style.reserved? = some name → f.name = g.name := by
    intro name hname
    rw [hr.wellFormed.reserved hf name hname, hr.wellFormed.reserved hg name (hstyle ▸ hname)]
  refine (hr.founded.eq_of_name hf hg ?_).1
  cases hf' : f.style with
  | integer => exact absurd (.inl hf') hfn
  | floating => exact absurd (.inr hf') hfn
  | object =>
    unfold mangledStem at h
    rw [← hstyle, hf'] at h
    exact (String.append_right_inj "o.").1 h
  | union => exact hreserved "Union" (by rw [hf']; rfl)
  | tuple => exact hreserved "Tuple" (by rw [hf']; rfl)
  | method => exact hreserved "Fn" (by rw [hf']; rfl)
  | slice => exact hreserved "Slice" (by rw [hf']; rfl)

/-! ## Mangled names -/

/-- The mangled name of a type, from those of its parameters. -/
theorem exists_mangled_eq (hr : r.WellFormed) (hentry : r.entry id = .ok (t, f)) :
    ∃ names, List.Forall₂ (fun p name => r.mangled p = .ok name) t.params names ∧
      r.mangled id = .ok ((mangledNumber? f).getD (mangledStem f ++ mangledSuffix names)) := by
  have ht := (entry_eq_ok_iff.1 hentry).1
  obtain ⟨names, hnames⟩ : ∃ names, List.Forall₂ (fun p name => p < r.size ∧
      ∀ depth, p < depth → r.mangledWithin depth p = .ok name) t.params names := by
    refine exists_forall₂ fun p hp => ?_
    have hlt := Nat.lt_trans (hr.params_older ht p hp) (lt_size ht)
    obtain ⟨name, hname⟩ := exists_mangledWithin hr hlt
    exact ⟨name, hlt, hname⟩
  refine ⟨names, hnames.imp fun p name hp => hp.2 _ (Nat.lt_succ_of_lt hp.1), ?_⟩
  exact mangledWithin_succ_eq_ok hentry (hnames.imp fun p name hp => hp.2 _ hp.1)

theorem marks_mangled (hr : r.WellFormed) (hentry : r.entry id = .ok (t, f))
    (h : r.mangled id = .ok text) : f.style.Marks text := by
  obtain ⟨names, -, hmangled⟩ := exists_mangled_eq hr hentry
  obtain rfl := Except.ok.inj (h.symm.trans hmangled)
  cases hnumber : mangledNumber? f with
  | some name => exact marks_mangledNumber hnumber
  | none => exact (marks_mangledStem (mangledNumber?_eq_none_iff.1 hnumber)).append _

theorem beginsPlain_of_mangled (hr : r.WellFormed) {params : List TypeId} {names : List String}
    (hparams : r.Has params)
    (h : List.Forall₂ (fun p name => r.mangled p = .ok name) params names) :
    ∀ name ∈ names, BeginsPlain name := by
  induction h with
  | nil => exact List.forall_mem_nil _
  | cons hname _ ih =>
    obtain ⟨hp, hrest⟩ := has_cons.1 hparams
    obtain ⟨t, f, hentry⟩ := hr.exists_entry hp
    exact List.forall_mem_cons.2 ⟨(marks_mangled hr hentry hname).beginsPlain, ih hrest⟩

theorem WellFormed.has_params (hr : r.WellFormed) (ht : r.types[id]? = some t) :
    r.Has t.params :=
  fun p hp => Nat.lt_trans (hr.params_older ht p hp) (lt_size ht)

/-! ## Types that are alike -/

/-- The types cannot be told apart by anything but the names of numbers: they are numbers of
one style and width, or have the same family and parameters that are alike. -/
inductive Alike (r : Registry) : TypeId → TypeId → Prop
  | number {a b : TypeId} {ta tb : Datatype} {fa fb : Family} (ha : r.entry a = .ok (ta, fa))
      (hb : r.entry b = .ok (tb, fb)) (number : fa.style.IsNumber) (style : fa.style = fb.style)
      (bits : fa.bits = fb.bits) : Alike r a b
  | family {a b : TypeId} {ta tb : Datatype} {fa fb : Family} (ha : r.entry a = .ok (ta, fa))
      (hb : r.entry b = .ok (tb, fb)) (other : ¬ fa.style.IsNumber) (family : ta.family = tb.family)
      (params : List.Forall₂ (Alike r) ta.params tb.params) : Alike r a b

/-- Types with the same mangled names are alike, one by one. -/
theorem forall₂_alike {as bs : List TypeId} {names : List String}
    (halike : ∀ a ∈ as, ∀ b ∈ bs, ∀ text, r.mangled a = .ok text → r.mangled b = .ok text →
      r.Alike a b)
    (has : List.Forall₂ (fun p name => r.mangled p = .ok name) as names)
    (hbs : List.Forall₂ (fun p name => r.mangled p = .ok name) bs names) :
    List.Forall₂ r.Alike as bs := by
  induction has generalizing bs with
  | nil =>
    cases hbs
    exact .nil
  | cons ha _ ih =>
    cases hbs with
    | cons hb hbs =>
      refine .cons (halike _ List.mem_cons_self _ List.mem_cons_self _ ha hb) (ih ?_ hbs)
      exact fun a ha b hb => halike a (List.mem_cons_of_mem _ ha) b (List.mem_cons_of_mem _ hb)

/-- The induction is on the number of the first type: parameters are older. -/
theorem alike_of_mangled_eq (hr : initial.Evolved r)
    (hwords : ∀ (k : FamilyId) (f : Family), r.families[k]? = some f → IsWord f.name)
    (ha : a < r.size) (hb : b < r.size) (hta : r.mangled a = .ok text)
    (htb : r.mangled b = .ok text) : r.Alike a b := by
  have hwf := hr.wellFormed
  induction a using Nat.strongRecOn generalizing b text with
  | ind a ih =>
    obtain ⟨ta, fa, hentrya⟩ := hwf.exists_entry ha
    obtain ⟨tb, fb, hentryb⟩ := hwf.exists_entry hb
    obtain ⟨htypea, hfa⟩ := entry_eq_ok_iff.1 hentrya
    obtain ⟨htypeb, hfb⟩ := entry_eq_ok_iff.1 hentryb
    have hstyle : fa.style = fb.style :=
      (marks_mangled hwf hentrya hta).unique (marks_mangled hwf hentryb htb)
    obtain ⟨ns, hns, hmangleda⟩ := exists_mangled_eq hwf hentrya
    obtain ⟨ms, hms, hmangledb⟩ := exists_mangled_eq hwf hentryb
    have hna := Except.ok.inj (hmangleda.symm.trans hta)
    have hnb := Except.ok.inj (hmangledb.symm.trans htb)
    cases hnumbera : mangledNumber? fa with
    | some name =>
      have hnumber : fa.style.IsNumber := by
        by_contra hnot
        rw [mangledNumber?_eq_none_iff.2 hnot] at hnumbera
        cases hnumbera
      cases hnumberb : mangledNumber? fb with
      | none => exact absurd (hstyle ▸ hnumber) (mangledNumber?_eq_none_iff.1 hnumberb)
      | some name' =>
        rw [hnumbera] at hna
        rw [hnumberb] at hnb
        obtain rfl : name = name' := hna.trans hnb.symm
        exact .number hentrya hentryb hnumber hstyle
          (bits_eq_of_mangledNumber hnumbera hnumberb hstyle)
    | none =>
      have hothera := mangledNumber?_eq_none_iff.1 hnumbera
      have hotherb : ¬ fb.style.IsNumber := hstyle ▸ hothera
      rw [hnumbera] at hna
      rw [mangledNumber?_eq_none_iff.2 hotherb] at hnb
      obtain ⟨hstem, rfl⟩ := mangledStem_append_inj (hwords _ _ hfa) (hwords _ _ hfb)
        (beginsPlain_of_mangled hwf (hwf.has_params htypea) hns)
        (beginsPlain_of_mangled hwf (hwf.has_params htypeb) hms) (hna.trans hnb.symm)
      refine .family hentrya hentryb hothera
        (hr.family_eq_of_mangledStem hfa hfb hothera hotherb hstem) (forall₂_alike ?_ hns hms)
      intro p hp q hq text hpt hqt
      exact ih p (hwf.params_older htypea p hp) (hwf.has_params htypea p hp)
        (hwf.has_params htypeb q hq) hpt hqt

theorem names_eq_of_mangled_eq {as bs : List TypeId} {ns ms : List String}
    (h : List.Forall₂ (fun a b => r.mangled a = r.mangled b) as bs)
    (hns : List.Forall₂ (fun p name => r.mangled p = .ok name) as ns)
    (hms : List.Forall₂ (fun p name => r.mangled p = .ok name) bs ms) : ns = ms := by
  induction h generalizing ns ms with
  | nil =>
    cases hns
    cases hms
    rfl
  | cons hab _ ih =>
    cases hns with
    | cons hn hns =>
      cases hms with
      | cons hm hms =>
        rw [ih hns hms, Except.ok.inj (hn.symm.trans (hab.trans hm))]

theorem mangledNumber?_congr (hstyle : f.style = g.style) (hbits : f.bits = g.bits) :
    mangledNumber? f = mangledNumber? g := by
  unfold mangledNumber?
  rw [hstyle, hbits]

/-- What is alike is mangled alike. The induction follows the parameters again. -/
theorem mangled_eq_of_alike (hr : r.WellFormed) (h : r.Alike a b) : r.mangled a = r.mangled b := by
  induction a using Nat.strongRecOn generalizing b with
  | ind a ih =>
    cases h with
    | number ha hb number style bits =>
      obtain ⟨ns, -, hmangleda⟩ := exists_mangled_eq hr ha
      obtain ⟨ms, -, hmangledb⟩ := exists_mangled_eq hr hb
      rw [mangledNumber?_congr style bits] at hmangleda
      cases hnumber : mangledNumber? _ with
      | none => exact absurd (style ▸ number) (mangledNumber?_eq_none_iff.1 hnumber)
      | some name =>
        rw [hnumber] at hmangleda hmangledb
        exact hmangleda.trans hmangledb.symm
    | @family _ _ ta tb fa fb ha hb other family params =>
      obtain ⟨hta, hfa⟩ := entry_eq_ok_iff.1 ha
      obtain ⟨-, hfb⟩ := entry_eq_ok_iff.1 hb
      obtain rfl : fa = fb := Option.some.inj ((family ▸ hfa).symm.trans hfb)
      have hparams : List.Forall₂ (fun p q => p ∈ ta.params ∧ r.Alike p q) ta.params tb.params :=
        (List.forall₂_and_left _ _).2 ⟨fun _ hp => hp, params⟩
      obtain ⟨ns, hns, hmangleda⟩ := exists_mangled_eq hr ha
      obtain ⟨ms, hms, hmangledb⟩ := exists_mangled_eq hr hb
      have hnames : ns = ms := names_eq_of_mangled_eq
        (hparams.imp fun p q hpq => ih p (hr.params_older hta p hpq.1) hpq.2) hns hms
      rw [hmangleda, hmangledb, hnames]

/-- Whatever calls were made, as long as the types have names that can be written in an
annotation, two types have the same mangled name exactly if they are alike. The lengths in a
mangled name keep its parts apart, however deep they nest. -/
theorem mangled_eq_iff_alike (hr : r.Reachable)
    (hwords : ∀ (k : FamilyId) (f : Family), r.families[k]? = some f → IsWord f.name)
    (ha : a < r.size) (hb : b < r.size) :
    ∃ x y, r.mangled a = .ok x ∧ r.mangled b = .ok y ∧ (x = y ↔ r.Alike a b) := by
  have hr := hr.evolved
  obtain ⟨x, hx⟩ := exists_mangled hr.wellFormed ha
  obtain ⟨y, hy⟩ := exists_mangled hr.wellFormed hb
  refine ⟨x, y, hx, hy, fun heq => ?_, fun h => ?_⟩
  · exact alike_of_mangled_eq hr hwords ha hb hx (heq ▸ hy)
  · have hmangled := mangled_eq_of_alike hr.wellFormed h
    exact Except.ok.inj (hx.symm.trans (hmangled.trans hy))

/-- A box for each of two integers of one width, a box for a box, and pairs of boxes. -/
def parcels : Registry :=
  Operation.build
    [.createInteger "Metres" 32, .createInteger "Feet" 32, .create "Box" none ["T"],
     .specialize 14 [12], .specialize 14 [13], .specialize 14 [15], .tuple [15, 17], .tuple [16, 17]]

/-- The pairs of boxes for the two integers are alike, and a box and a box in a box are not. -/
theorem mangled_eq_iff_alike_parcels :
    parcels.Reachable ∧
      (∀ (k : FamilyId) (f : Family), parcels.families[k]? = some f → IsWord f.name) ∧
      parcels.mangled 15 = .ok "o.Box$5_3i32" ∧
      parcels.mangled 17 = .ok "o.Box$15_12o.Box$5_3i32" ∧
      parcels.mangled 18 = parcels.mangled 19 ∧ parcels.Alike 18 19 ∧ ¬ parcels.Alike 15 17 := by
  have hreachable : parcels.Reachable := reachable_build _
  have hwords : ∀ (k : FamilyId) (f : Family), parcels.families[k]? = some f → IsWord f.name := by
    have hall : ∀ f ∈ parcels.families, IsWord f.name := by decide +kernel
    exact fun k f hf => hall f (Array.mem_of_getElem? hf)
  have hsize : ∀ id ∈ [15, 17, 18, 19], id < parcels.size := by decide +kernel
  have hbox : parcels.mangled 15 = .ok "o.Box$5_3i32" := by decide +kernel
  have hnested : parcels.mangled 17 = .ok "o.Box$15_12o.Box$5_3i32" := by decide +kernel
  have hpairs : parcels.mangled 18 = parcels.mangled 19 := by decide +kernel
  refine ⟨hreachable, hwords, hbox, hnested, hpairs, ?_, ?_⟩
  · obtain ⟨x, y, hx, hy, hiff⟩ := mangled_eq_iff_alike hreachable hwords
      (hsize 18 (by decide)) (hsize 19 (by decide))
    exact hiff.1 (Except.ok.inj (hx.symm.trans (hpairs.trans hy)))
  · obtain ⟨x, y, hx, hy, hiff⟩ := mangled_eq_iff_alike hreachable hwords
      (hsize 15 (by decide)) (hsize 17 (by decide))
    obtain rfl := Except.ok.inj (hbox.symm.trans hx)
    obtain rfl := Except.ok.inj (hnested.symm.trans hy)
    exact fun halike => absurd (hiff.2 halike) (by decide)

end Registry

end TypeLayer
