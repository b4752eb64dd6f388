import HeaderReflection.Proofs.Source.Declared
import HeaderReflection.Proofs.Source.Renumber
import HeaderReflection.Proofs.Source.Steps
import Mathlib.Data.List.Forall2

/-! # The order of raised flags

A set of flags is kept as a list in the order in which they were raised.  Which flags a field has is all that
counts of them, not this order.

* Two fields are the same if they differ in nothing else than the order of their flags (`Field.Same`), and so
  are classes, headers and what has been read of a header.
* Nothing that is read behind a field looks at the order: a declaration does not look at the fields of its
  class at all (`Reader.fieldOf_fields`, `Reader.claimProperties_fields`).
* So with other orders the same lines are read to the same, the orders apart (`Reader.runLines_same`), and so
  is the header that they end (`Reader.exists_same_of_runLines`).

A field that is written out has its words in one order, whatever order they were written in; this module is
what makes the rest of its header indifferent to that. -/

namespace HeaderReflection

open Checked Text

theorem exists_of_forall₂ {α β : Type} {R : α → β → Prop} {l : List α} {m : List β} (h : List.Forall₂ R l m) {a : α}
    (ha : a ∈ l) : ∃ b ∈ m, R a b := by
  induction h with
  | nil => cases ha
  | cons hab _ ih =>
      rcases List.mem_cons.mp ha with rfl | ha
      · exact ⟨_, List.mem_cons_self, hab⟩
      · obtain ⟨b, hb, hab⟩ := ih ha
        exact ⟨b, List.mem_cons_of_mem _ hb, hab⟩

/-! ### Fields that are the same -/

/-- The same field, its flags raised in another order. -/
def Field.Same (f g : Field) : Prop :=
  ∃ flags : FlagSet FieldFlag, g = { f with flags } ∧ ∀ x, flags.has x = f.flags.has x

theorem Field.Same.refl (f : Field) : f.Same f := ⟨f.flags, rfl, fun _ => rfl⟩

/-- The same class up to the orders of flags. -/
def Class.Same (c d : Class) : Prop := ∃ fs, d = { c with fields := fs } ∧ List.Forall₂ Field.Same c.fields fs

namespace Class.Same

variable {c d : Class}

theorem refl (c : Class) : c.Same c := ⟨c.fields, rfl, List.forall₂_same.mpr fun f _ => .refl f⟩

theorem concat (h : c.Same d) {f g : Field} (hf : f.Same g) :
    Class.Same { c with fields := c.fields ++ [f] } { d with fields := d.fields ++ [g] } := by
  obtain ⟨fs, rfl, hfs⟩ := h
  exact ⟨fs ++ [g], rfl, List.rel_append hfs (.cons hf .nil)⟩

end Class.Same

/-- The same header up to the orders of flags. -/
def Header.Same (h k : Header) : Prop :=
  ∃ cs, k = { h with classes := cs } ∧ List.Forall₂ Class.Same h.classes cs

/-- The same has been read up to the orders of flags. -/
def Progress.Same (p q : Progress) : Prop :=
  ∃ cs, q = { p with classes := cs } ∧ List.Forall₂ Class.Same p.classes cs

namespace Reader

variable {r : Reader} {p q : Progress}

/-! ### Classes -/

theorem fieldOf_fields (site : MarkerSite) (c : Class) (fs : List Field) (access : Access) (text : List Char) :
    r.fieldOf site { c with fields := fs } access text = r.fieldOf site c access text :=
  rfl

theorem methodOf_fields (site : MarkerSite) (c : Class) (fs : List Field) (access : Access) (text : List Char) :
    r.methodOf site { c with fields := fs } access text = r.methodOf site c access text :=
  rfl

theorem bindAccessor_fields (c : Class) (fs : List Field) (role : AccessorRole) (name : String) (m : MethodLink) :
    Leads (fun d e => e = { d with fields := fs }) (c.bindAccessor role name m)
      (({ c with fields := fs } : Class).bindAccessor role name m) := by
  have hproperty : ({ c with fields := fs } : Class).property name = c.property name := rfl
  rw [Class.bindAccessor_eq, Class.bindAccessor_eq, hproperty]
  cases (c.property name).bind role m with
  | error e => exact fun _ h => nomatch h
  | ok p =>
      rintro _ ⟨⟩
      exact ⟨_, rfl, rfl⟩

/-- A method claims its properties whatever the fields are. -/
theorem claimProperties_fields (c : Class) (fs : List Field) (m : Method) :
    Leads (fun d e => e = { d with fields := fs }) (r.claimProperties c m)
      (r.claimProperties { c with fields := fs } m) := by
  have hgetter : ∀ b, Leads (fun d e => e = { d with fields := fs }) (claimGetter b c m)
      (claimGetter b { c with fields := fs } m) := by
    intro b
    refine .bindSame _ fun getter => ?_
    cases getter with
    | some p => exact .lift (bindAccessor_fields c fs .getter p m.link)
    | none => exact .pure rfl
  refine .bind (hgetter (m.bearer .method c.path r.isEnum)) ?_
  rintro d _ rfl
  refine .bindSame _ fun setter => ?_
  cases setter with
  | some p => exact .ite (fun _ => .throw_bind _ _) fun _ => .lift (bindAccessor_fields d fs .setter p m.link)
  | none => exact .pure rfl

/-! ### Steps -/

variable {p' : Progress} {n : Nat} {line : List Char}

theorem exists_last_of_forall₂ {c : Class} {ps cs ds : List Class} (h : List.Forall₂ Class.Same ps ds)
    (hps : ps = c :: cs) : ∃ fs es, ds = { c with fields := fs } :: es ∧ List.Forall₂ Field.Same c.fields fs ∧
      List.Forall₂ Class.Same cs es := by
  subst hps
  cases h with
  | cons hc hcs =>
      obtain ⟨fs, rfl, hfs⟩ := hc
      exact ⟨fs, _, rfl, hfs, hcs⟩

theorem closed_of_forall₂ {ps ds : List Class} (h : List.Forall₂ Class.Same ps ds)
    (hclosed : ∀ c ∈ ps.head?, c.bodyLine ≠ 0) : ∀ c ∈ ds.head?, c.bodyLine ≠ 0 := by
  cases h with
  | nil => exact hclosed
  | @cons c _ _ _ hc _ =>
      obtain ⟨fs, rfl, -⟩ := hc
      rintro _ ⟨⟩
      exact hclosed c rfl

theorem DeclareStep.same {site : MarkerSite} {text : List Char} {kind : MarkerKind}
    (h : r.DeclareStep p site text kind p') (hq : p.Same q) :
    ∃ q', r.DeclareStep q site text kind q' ∧ p'.Same q' := by
  obtain ⟨ds, rfl, hds⟩ := hq
  cases h with
  | @classType c hlast hc =>
      exact ⟨_, .classType (closed_of_forall₂ hds hlast) hc, _, rfl, .cons (.refl c) hds⟩
  | body hclasses hbody =>
      obtain ⟨fs, es, rfl, hfs, hes⟩ := exists_last_of_forall₂ hds hclasses
      exact ⟨_, .body rfl hbody, _, rfl, .cons ⟨fs, rfl, hfs⟩ hes⟩
  | @field c _ f hclasses hbody hf =>
      obtain ⟨fs, es, rfl, hfs, hes⟩ := exists_last_of_forall₂ hds hclasses
      have hf' := (fieldOf_fields site c fs p.access text).trans hf
      exact ⟨_, .field rfl hbody hf', _, rfl, .cons (Class.Same.concat ⟨fs, rfl, hfs⟩ (.refl f)) hes⟩
  | @method c d _ m hclasses hbody hm hd =>
      obtain ⟨fs, es, rfl, hfs, hes⟩ := exists_last_of_forall₂ hds hclasses
      have hm' := (methodOf_fields site c fs p.access text).trans hm
      obtain ⟨ps, rfl⟩ := claimProperties_yields c m d hd
      obtain ⟨_, hd', rfl⟩ := claimProperties_fields c fs m _ hd
      exact ⟨_, .method rfl hbody hm' hd', _, rfl, .cons ⟨fs, rfl, hfs⟩ hes⟩
  | opening hhead hopened => exact ⟨_, .opening hhead hopened, ds, rfl, hds⟩
  | enumType hhead hopened hrest he => exact ⟨_, .enumType hhead hopened hrest he, ds, rfl, hds⟩

theorem EnumLineStep.same {body : EnumBody} (h : r.EnumLineStep p body n line p') (hq : p.Same q) :
    ∃ q', r.EnumLineStep q body n line q' ∧ p'.Same q' := by
  obtain ⟨ds, rfl, hds⟩ := hq
  cases h with
  | closes hend => exact ⟨_, .closes hend, ds, rfl, hds⟩
  | idle hidle => exact ⟨_, .idle hidle, ds, rfl, hds⟩
  | list hline hbusy hmarker hlist hidle => exact ⟨_, .list hline hbusy hmarker hlist hidle, ds, rfl, hds⟩
  | marked hline hbusy hmarker hlist hrest hx =>
      exact ⟨_, .marked hline hbusy hmarker hlist hrest hx, ds, rfl, hds⟩
  | plain hline hbusy hmarker hx => exact ⟨_, .plain hline hbusy hmarker hx, ds, rfl, hds⟩

theorem LineStep.same (h : r.LineStep p n line p') (hq : p.Same q) : ∃ q', r.LineStep q n line q' ∧ p'.Same q' := by
  have hsame := hq
  obtain ⟨ds, rfl, hds⟩ := hq
  cases h with
  | plain hmode hmarker hnone => exact ⟨_, .plain hmode hmarker hnone, ds, rfl, hds⟩
  | marker hmode hmarker hlist hrest => exact ⟨_, .marker hmode hmarker hlist hrest, ds, rfl, hds⟩
  | oneLine hmode hmarker hlist hrest hp' =>
      obtain ⟨q', hq', hnext⟩ := hp'.same (q := { p with classes := ds, comments := [] }) ⟨ds, rfl, hds⟩
      exact ⟨q', .oneLine hmode hmarker hlist hrest hq', hnext⟩
  | declaration hmode hp' =>
      obtain ⟨q', hq', hnext⟩ := hp'.same hsame
      exact ⟨q', .declaration hmode hq', hnext⟩
  | brace hmode hbrace hrest he => exact ⟨_, .brace hmode hbrace hrest he, ds, rfl, hds⟩
  | enumLine hmode hp' =>
      obtain ⟨q', hq', hnext⟩ := hp'.same hsame
      exact ⟨q', .enumLine hmode hq', hnext⟩

/-! ### Whole texts -/

/-- Lines are read to the same. -/
theorem runLines_same (h : p.Same q) (n : Nat) (ls : List String) :
    Leads Progress.Same (r.runLines p n ls) (r.runLines q n ls) :=
  runLines_leads (fun hq h => h.same hq) h n ls

theorem finish_same (h : p.Same q) : Leads Header.Same (r.finish p) (r.finish q) := by
  intro k hk
  obtain ⟨hmode, hlast, rfl⟩ := finish_eq_ok.mp hk
  obtain ⟨ds, rfl, hds⟩ := h
  exact ⟨_, finish_eq_ok.mpr ⟨hmode, closed_of_forall₂ hds hlast, rfl⟩, ds.reverse, rfl,
    List.forall₂_reverse_iff.mpr hds⟩

theorem exists_same_of_runLines (h : p.Same q) {n : Nat} {ls : List String} {e : Progress} {k : Header}
    (he : r.runLines p n ls = .ok e) (hk : r.finish e = .ok k) :
    ∃ e' k', r.runLines q n ls = .ok e' ∧ r.finish e' = .ok k' ∧ k.Same k' := by
  obtain ⟨e', he', hend⟩ := runLines_same h n ls e he
  obtain ⟨k', hk', hsame⟩ := finish_same hend k hk
  exact ⟨e', k', he', hk', hsame⟩

end Reader

end HeaderReflection
