import TypeLayer.Proofs.Nominal.Growth
import TypeLayer.Proofs.Nominal.Rereading

/-!
# Denoting once more

What a type expression denotes is settled the first time it is asked for.  `Lasts` says of a
request and a type that the type answers the request from then on, without any change to the
registry.  Names keep their types and instances are found again, so that what answers the parts of
a request lasts, and with it what answers the whole (`lasts_answer`).

On the way there, an expression only adds to the registry (`grown_denote`), also if it is refused
halfway.
-/

namespace TypeLayer.Registry

open TypeLayer.Action

variable {α β : Type} {r r' r'' : Registry} {id : TypeId} {scope : Assoc String TypeId}

/-! ## Answers last -/

/-- The type answers the request here, and wherever the registry goes from here, without any change
to it. -/
def Lasts (r : Registry) (scope : Assoc String TypeId) (q : Request) (id : TypeId) : Prop :=
  id < r.size ∧ ∀ r', r.Evolved r' → answer scope q r' = .ok id r'

/-- The instance that specialization gives is found again. -/
theorem lasts_specialize {generic : TypeId} {params : List TypeId} {q : Request}
    (hr : initial.Evolved r) (hparams : r.Has params)
    (hanswer : ∀ id r', r.Evolved r' → specialize generic params r' = .ok id r' →
      answer scope q r' = .ok id r') :
    r.Evolves (specialize generic params) fun id r' => r'.Lasts scope q id := by
  have hspecialize : r.Evolves (specialize generic params) _ :=
    evolves_specialize hr.wellFormed hparams
  refine Contract.meets_iff.2
    ⟨fun id r' hrun => ?_, fun _ _ => hspecialize.error, fun _ => hspecialize.fault⟩
  obtain ⟨hevolved, hid⟩ := hspecialize.ok hrun
  refine ⟨hevolved, hid.lt_size, fun r'' hevolved' => ?_⟩
  exact hanswer id r'' (hevolved.trans hevolved') (hr.specialize_lasting hparams hrun hevolved')

theorem lasting_answers (scope : Assoc String TypeId) (s : String → Option Ty) :
    (depiction scope s).Answers scope
      (fun name id r => ∀ span r', r.Evolved r' → declared name span r' = .ok id r')
      fun q id r => r.Lasts scope q id where
  declared_kept hevolved h span r' hevolved' := h span r' (hevolved.trans hevolved')
  kept _ hevolved h :=
    ⟨hevolved.extends.lt_size h.1, fun r' hevolved' => h.2 r' (hevolved.trans hevolved')⟩
  refuses hr := hr.1.wellFormed.evolved
  scope {r name span id} hr hname := by
    refine ⟨(hr.2 name id hname).1, fun r' _ => ?_⟩
    rw [answer, hname]
    rfl
  tuple _ _ _ _ := rfl
  named {r name id} _ hname hid span r' hevolved := by
    have hid' : r'.lookup name = some id := hevolved.extends.name hid
    rw [declared, if_neg hname, bind_apply, get_apply]
    dsimp only
    rw [hid']
    rfl
  method {r result domains id args} hr hresult hargs := by
    -- The arguments are there, and are found again.
    have hfound : r.Has args ∧ ∀ r', r.Evolved r' → ((if Request.isThunk domains then pure []
        else answerAll scope domains : Register (List TypeId)) r' = .ok args r') := by
      rcases hargs with ⟨hthunk, rfl⟩ | ⟨hthunk, hargs⟩
      · refine ⟨r.has_nil, fun r' _ => ?_⟩
        rw [if_pos hthunk]
        rfl
      · refine ⟨forall_mem_of_forall₂ hargs fun _ _ _ harg => harg.1, fun r' hevolved => ?_⟩
        rw [hthunk, if_neg Bool.false_ne_true]
        exact answerAll_eq_ok (hargs.imp fun _ _ harg => harg.2 r' hevolved)
    refine lasts_specialize hr.1 (has_cons.2 ⟨hresult.1, hfound.1⟩) fun id' r' hevolved hrun => ?_
    rw [answer_method, bind_apply, hresult.2 r' hevolved]
    dsimp only
    rw [bind_apply, hfound.2 r' hevolved]
    exact hrun
  application {r name span params generic ids} hr hgeneric hids := by
    refine lasts_specialize hr.1 (forall_mem_of_forall₂ hids fun _ _ _ hid => hid.1)
      fun id r' hevolved hrun => ?_
    rw [answer, bind_apply, hgeneric span r' hevolved]
    dsimp only
    rw [bind_apply, answerAll_eq_ok (hids.imp fun _ _ hid => hid.2 r' hevolved)]
    exact hrun

/-- The type that answers a request answers it from then on. -/
theorem lasts_answer (hr : initial.Evolved r) (hscope : r.Has scope.values) (q : Request) :
    r.Evolves (answer scope q) fun id r' => r'.Lasts scope q id := by
  have hshows := shows_imageIn hr.wellFormed fun name id hname =>
    hscope id (Assoc.mem_values_of_get? hname)
  exact Contract.meets_answer (lasting_answers scope _) ⟨hr, hshows⟩ q

/-! ## Expressions -/

/-- A type expression changes nothing that there is: whether it is answered or refused, the types
that there were keep all they have, the families stay as declared, and all names lead where they
led. And it denotes one type for ever: wherever the registry goes from there, every expression
that is the same but for its spans denotes the same type, and adds nothing. -/
theorem denote_lasting {e : TypeExpr} (hr : r.Reachable) (hscope : r.Has scope.values) :
    (∀ r', (denote e scope r).state? = some r' →
      (∀ (id : TypeId) (t : Datatype), r.types[id]? = some t → r'.types[id]? = some t) ∧
      (∀ (k : FamilyId) (f : Family), r.families[k]? = some f →
        ∃ f', r'.families[k]? = some f' ∧ f.Becomes f') ∧
      ∀ name, r'.lookup name = r.lookup name) ∧
    ∀ id r', denote e scope r = .ok id r' → ∀ r'', r'.Leads r'' → ∀ e' : TypeExpr,
      e'.bare = e.bare → denote e' scope r'' = .ok id r'' := by
  constructor
  · intro r' h
    have hgrown := grown_denote h
    have hevolved := (Operation.denote e scope).evolved hr.evolved hscope h
    refine ⟨fun id t ht => ?_, fun k f hf => hevolved.extends.family hf, fun name => ?_⟩
    · exact (hgrown.kept (lt_size ht)).trans ht
    · rw [lookup, lookup, hgrown.names]
  · intro id r' h r'' hleads e' hbare
    obtain ⟨hevolved, -, hagain⟩ := (lasts_answer hr.evolved hscope (Request.ofExpr e)).ok h
    have hevolved' := Leads.evolved hleads (hr.evolved.trans hevolved)
    exact denote_of_bare_eq hbare.symm (hagain r'' hevolved')

/-- A generic type `Box`, which has its item and a slice of it, and a laid out `Box{Int}`. -/
def boxed : Registry :=
  Operation.build
    [.create "Box" none ["T"], .addField 12 "item" (.param "T"),
     .addField 12 "all" (.apply Builtin.slice [.param "T"]), .specialize 12 [Builtin.int], .layout 13]

/-- `t` is `Float`. -/
def floating : Assoc String TypeId :=
  ⟨[("t", Builtin.float)]⟩

/-- The expression `Box{t} -> (t, Box{Int})`, with the given span for its parts. -/
def boxing (span : Span) : TypeExpr :=
  let t : TypeExpr := ⟨"t", [], true, span⟩
  .apply arrowName [.apply "Box" [t] span,
    .tuple [t, .apply "Box" [.apply "Int" [] span] span] span] span

/-- The expression `(Box{t}, Lid)`, where there is no `Lid`. -/
def lidded : TypeExpr :=
  .tuple [.apply "Box" [⟨"t", [], true, default⟩] default, .apply "Lid" [] default] default

/-- After the method type has been asked for, `Box` is given a field, `Lid` is declared, and more
types are asked for. -/
def reboxed : Registry :=
  ((denote (boxing default) floating boxed).state?.bind (Operation.afterAll
    [.addField 12 "lid" (.apply 12 [.param "T"]), .create "Lid" none [],
     .denote lidded ⟨[("t", Builtin.byte)]⟩, .layout 14])).getD initial

theorem denote_lasting_boxing :
    boxed.Reachable ∧ boxed.Has floating.values ∧
      (∃ r', (denote lidded floating boxed).state? = some r' ∧
        boxed.size < r'.size ∧ ∀ id < boxed.size, r'.types[id]? = boxed.types[id]?) ∧
      ∃ r', denote (boxing default) floating boxed = .ok 18 r' ∧
        r'.Leads reboxed ∧ r'.size < reboxed.size ∧
        denote (boxing ⟨3, 7⟩) floating reboxed = .ok 18 reboxed := by
  have hr : boxed.Reachable := reachable_build _
  have hscope : boxed.Has floating.values := by decide +kernel
  refine ⟨hr, hscope, ?_, ?_⟩
  · obtain ⟨r', hr'⟩ : ∃ r', (denote lidded floating boxed).state? = some r' :=
      Option.isSome_iff_exists.1 (by decide +kernel)
    have hadded : ∀ r' ∈ (denote lidded floating boxed).state?,
        boxed.size < r'.size := by decide +kernel
    refine ⟨r', hr', hadded r' hr', fun id hid => ?_⟩
    obtain ⟨t, ht⟩ := exists_type hid
    rw [ht, ((denote_lasting hr hscope).1 r' hr').1 id t ht]
  · obtain ⟨r', hrun⟩ : ∃ r', denote (boxing default) floating boxed = .ok 18 r' :=
      Outcome.exists_ok (by decide +kernel)
    have hreboxed : (denote (boxing default) floating boxed).state?.bind
        (Operation.afterAll [.addField 12 "lid" (.apply 12 [.param "T"]), .create "Lid" none [],
          .denote lidded ⟨[("t", Builtin.byte)]⟩, .layout 14]) = some reboxed := by decide +kernel
    have hsize : ∀ r' ∈ (denote (boxing default) floating boxed).state?,
        r'.size < reboxed.size := by decide +kernel
    rw [hrun, Outcome.state?_ok] at hsize hreboxed
    have hleads : r'.Leads reboxed := leads_of_afterAll hreboxed
    refine ⟨r', hrun, hleads, hsize r' rfl, ?_⟩
    exact (denote_lasting hr hscope).2 18 r' hrun reboxed hleads (boxing ⟨3, 7⟩) (by decide)

end TypeLayer.Registry
