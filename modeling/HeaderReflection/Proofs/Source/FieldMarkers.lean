import HeaderReflection.Proofs.Source.BodyMarkers

/-! # The field markers of a header

A field marker is read between declarations, and what it declares joins the class that is open there
(`Reader.ReadsField`).  Every line that is read as a field marker declares a field (`Reader.exists_readsField`), and
every field of a header was read like that (`Reader.readsField_of_mem_fields`). -/

namespace HeaderReflection

open Checked Text

namespace Reader

variable {r : Reader} {path : SourcePath} {lines : List String} {p q : Progress} {n k : Nat}

/-- Where nothing is awaited, the line begins with a field marker and its attribute list.  `rest` is the text behind
them. -/
structure FindsField (r : Reader) (p : Progress) (line : List Char) (list : Bag) (rest : List Char) : Prop where
  between : p.mode = .between
  marker : ∃ name behind, r.markers.find? line = some (name, .field, behind) ∧ name ≠ r.markerName .body ∧
    Lexer.attributeList.split behind = .ok (list, rest)

/-- What stands in front of the declaration of a field that is found at a line. -/
def fieldSite (p : Progress) (n : Nat) (list : Bag) : MarkerSite := ⟨p.path, n, p.comments, list⟩

/-- With the lines above it read, the line `n` is read as a field marker with the attribute list, and `own` declares the
field `f` for the class `c` that is open there. -/
structure ReadsField (r : Reader) (path : SourcePath) (lines : List String) (n : Nat) (p : Progress) (c : Class)
    (cs : List Class) (list : Bag) (own : List Char) (f : Field) : Prop where
  before : n ≠ 0 ∧ r.runLines { path } 1 (lines.take (n - 1)) = .ok p
  found : ∃ line rest, lineAt? lines n = some line ∧ r.FindsField p line list rest
  text : r.declarationAt? lines n = some own
  owner : p.classes = c :: cs ∧ c.bodyLine ≠ 0
  field : r.fieldOf (fieldSite p n list) c p.access own = .ok f
  behind : r.textLine lines n ≤ lines.length ∧ r.runLines { path } 1 (lines.take (r.textLine lines n)) =
    .ok { p with comments := [], classes := { c with fields := c.fields ++ [f] } :: cs }

/-! ### Steps -/

/-- An empty text declares no field. -/
theorem fieldOf_nil_ne_ok {site : MarkerSite} {c : Class} {access : Access} {f : Field} :
    r.fieldOf site c access [] ≠ .ok f := by
  intro h
  obtain ⟨t, ht, -⟩ := bind_eq_ok.mp h
  have hempty : (FieldText.read.eval []).toOption = none := by decide +kernel
  cases hempty.symm.trans (toOption_eq_some.mpr (lift_eq_ok.mp ht))

/-- What a line does to the fields. -/
inductive FieldStep (r : Reader) (p : Progress) (n : Nat) (line : List Char) : Progress → Prop where
  /-- A marker with its declaration behind it. -/
  | oneLine {list : Bag} {rest : List Char} {q : Progress} (hfinds : r.FindsField p line list rest)
      (htext : declarationText rest ≠ [])
      (hq : r.DeclareStep { p with comments := [] } (fieldSite p n list) (declarationText rest) .field q) :
      FieldStep r p n line q
  /-- A marker with nothing behind it. -/
  | marker {list : Bag} {rest : List Char} (hfinds : r.FindsField p line list rest)
      (htext : declarationText rest = []) :
      FieldStep r p n line { p with comments := [], mode := .declaration .field (fieldSite p n list) }
  /-- The declaration of the marker on the line before. -/
  | declaration {site : MarkerSite} {q : Progress} (hmode : p.mode = .declaration .field site)
      (hq : r.DeclareStep p site line .field q) : FieldStep r p n line q
  | other {q : Progress} (hfields : ∀ c ∈ q.classes, ∀ f ∈ c.fields, ∃ d ∈ p.classes, f ∈ d.fields)
      (hmode : ∀ site, q.mode ≠ .declaration .field site)
      (hmarker : p.mode = .between → ∀ name behind, r.markers.find? line ≠ some (name, .field, behind)) :
      FieldStep r p n line q

/-- Any other declaration adds no field. -/
theorem DeclareStep.keeps_fields {site : MarkerSite} {text : List Char} {kind : MarkerKind}
    (h : r.DeclareStep p site text kind q) (hkind : kind ≠ .field) :
    (∀ c ∈ q.classes, ∀ f ∈ c.fields, ∃ d ∈ p.classes, f ∈ d.fields) ∧ ∀ site, q.mode ≠ .declaration .field site := by
  have hsame : ∀ c ∈ p.classes, ∀ f ∈ c.fields, ∃ d ∈ p.classes, f ∈ d.fields := fun c hc f hf => ⟨c, hc, hf⟩
  have hchange : ∀ {c d : Class} {cs : List Class}, p.classes = c :: cs → d.fields = c.fields →
      ∀ k ∈ d :: cs, ∀ f ∈ k.fields, ∃ e ∈ p.classes, f ∈ e.fields := by
    intro c d cs hclasses hd k hk f hf
    rw [hclasses]
    rcases List.mem_cons.mp hk with rfl | hk
    · exact ⟨c, List.mem_cons_self, hd ▸ hf⟩
    · exact ⟨k, List.mem_cons_of_mem c hk, hf⟩
  cases h with
  | field => exact absurd rfl hkind
  | @classType c _ hc =>
      obtain ⟨_, -, hc⟩ := classOf_makes site text c hc
      refine ⟨List.forall_mem_cons.mpr ⟨?_, hsame⟩, nofun⟩
      rw [hc.fields]
      exact List.forall_mem_nil _
  | body hclasses => exact ⟨hchange hclasses rfl, nofun⟩
  | @method c d _ m hclasses _ _ hd =>
      obtain ⟨ps, rfl⟩ := claimProperties_yields c m d hd
      exact ⟨hchange hclasses rfl, nofun⟩
  | opening => exact ⟨hsame, nofun⟩
  | enumType => exact ⟨hsame, nofun⟩

theorem LineStep.fieldStep {line : List Char} (h : r.LineStep p n line q) : r.FieldStep p n line q := by
  have hsame : ∀ c ∈ p.classes, ∀ f ∈ c.fields, ∃ d ∈ p.classes, f ∈ d.fields := fun c hc f hf => ⟨c, hc, hf⟩
  have hother : ∀ {name kind behind}, r.markers.find? line = some (name, kind, behind) → kind ≠ .field →
      p.mode = .between → ∀ name behind, r.markers.find? line ≠ some (name, .field, behind) := by
    intro name kind behind hmarker hkind _ _ _ hfound
    rw [hmarker] at hfound
    cases hfound
    exact hkind rfl
  cases h with
  | plain hmode hmarker =>
      refine .other hsame (hmode ▸ nofun) fun _ name behind hfound => ?_
      rw [hmarker] at hfound
      cases hfound
  | @marker name kind behind rest list hmode hmarker hlist hrest =>
      by_cases hkind : kind = .field
      · subst hkind
        exact .marker ⟨hmode, name, behind, hmarker, hrest.1, hlist⟩ hrest.2
      · refine .other hsame ?_ (hother hmarker hkind)
        rintro site heq
        exact hkind (LineMode.declaration.inj heq).1
  | @oneLine name kind behind rest list _ hmode hmarker hlist hrest hq =>
      by_cases hkind : kind = .field
      · subst hkind
        have hname : name ≠ r.markerName .body := by
          intro hname
          rw [if_pos hname] at hq
          cases hq with
          | field _ _ hf => exact fieldOf_nil_ne_ok hf
        rw [if_neg hname] at hq
        exact .oneLine ⟨hmode, name, behind, hmarker, hname, hlist⟩ (fun hnil => hrest ⟨hname, hnil⟩) hq
      · obtain ⟨hfields, hnext⟩ := hq.keeps_fields hkind
        exact .other hfields hnext (hother hmarker hkind)
  | @declaration kind site _ hmode hq =>
      by_cases hkind : kind = .field
      · subst hkind
        exact .declaration hmode hq
      · obtain ⟨hfields, hnext⟩ := hq.keeps_fields hkind
        exact .other hfields hnext (hmode ▸ nofun)
  | brace hmode => exact .other hsame nofun (hmode ▸ nofun)
  | enumLine hmode hq =>
      obtain ⟨hclasses, hnext⟩ := hq.classes_eq
      exact .other (hclasses ▸ hsame) (hnext .field) (hmode ▸ nofun)

/-! ### Runs -/

/-- The first lines of a text that is read are read, and the others behind them. -/
theorem exists_runLines_take {ls : List String} (h : r.runLines p n ls = .ok q) (k : Nat) (hk : k ≤ ls.length) :
    ∃ m, r.runLines p n (ls.take k) = .ok m ∧ r.runLines m (n + k) (ls.drop k) = .ok q := by
  rw [← List.take_append_drop k ls, runLines_append, List.length_take_of_le hk] at h
  cases hm : r.runLines p n (ls.take k) with
  | error e =>
      rw [hm] at h
      cases h
  | ok m =>
      rw [hm] at h
      exact ⟨m, rfl, h⟩

/-- A marker with nothing behind it awaits its declaration. -/
theorem FindsField.readLine_eq {line rest : List Char} {list : Bag} (h : r.FindsField p line list rest)
    (hnone : declarationText rest = []) (n : Nat) :
    r.readLine p n line = .ok { p with comments := [], mode := .declaration .field (fieldSite p n list) } := by
  obtain ⟨name, behind, hmarker, hname, hlist⟩ := h.marker
  exact readLine_eq_ok.mpr (.marker h.between hmarker hlist ⟨hname, hnone⟩)

/-- Where the declaration of a field stands. -/
theorem FindsField.places {line rest : List Char} {list : Bag} (h : r.FindsField p line list rest)
    (hline : lineAt? lines n = some line) :
    (declarationText rest = [] → r.declarationAt? lines n = lineAt? lines (n + 1) ∧ r.textLine lines n = n + 1) ∧
      (declarationText rest ≠ [] →
        r.declarationAt? lines n = some (declarationText rest) ∧ r.textLine lines n = n) := by
  obtain ⟨name, behind, hmarker, hname, hlist⟩ := h.marker
  rw [declarationAt?_eq hline hmarker hlist, textLine_eq hline hmarker hlist, if_neg hname]
  exact ⟨fun hempty => ⟨if_pos hempty, if_pos ⟨hname, hempty⟩⟩,
    fun htext => ⟨if_neg htext, if_neg fun h => htext h.2⟩⟩

theorem lineAt?_succ (hk : k < lines.length) : lineAt? lines (k + 1) = some (trim lines[k].toList) := by
  simp [lineAt?, List.getElem?_eq_getElem hk]

/-- The line `k` is a field marker with nothing behind it, and the next line declares the field. -/
def AwaitsField (r : Reader) (path : SourcePath) (lines : List String) (k : Nat) (site : MarkerSite) (q : Progress) :
    Prop :=
  ∃ p line list rest, k ≠ 0 ∧ r.runLines { path } 1 (lines.take (k - 1)) = .ok p ∧ lineAt? lines k = some line ∧
    r.FindsField p line list rest ∧ declarationText rest = [] ∧ site = fieldSite p k list ∧
    q = { p with comments := [], mode := .declaration .field site }

/-- Every field that was read was found behind its marker, and so is one whose declaration is awaited. -/
theorem readsField_of_take (hk : k ≤ lines.length) (h : r.runLines { path } 1 (lines.take k) = .ok q) :
    (∀ c ∈ q.classes, ∀ f ∈ c.fields, ∃ n p c cs list own, r.ReadsField path lines n p c cs list own f) ∧
      ∀ site, q.mode = .declaration .field site → r.AwaitsField path lines k site q := by
  induction k generalizing q with
  | zero =>
      obtain rfl : ({ path } : Progress) = q := Except.ok.inj h
      exact ⟨fun c hc => absurd hc List.not_mem_nil, nofun⟩
  | succ k ih =>
      obtain ⟨p, hp, hline⟩ := exists_readLine_of_take hk h
      obtain ⟨hfields, hawaits⟩ := ih (Nat.le_of_succ_le hk) hp
      have hat := lineAt?_succ hk
      -- Fields that were read before stay, and the one that is read here is the last one.
      have hlast : ∀ {c cs f}, p.classes = c :: cs →
          (∃ n p c cs list own, r.ReadsField path lines n p c cs list own f) →
          ∀ d ∈ { c with fields := c.fields ++ [f] } :: cs, ∀ g ∈ d.fields,
            ∃ n p c cs list own, r.ReadsField path lines n p c cs list own g := by
        intro c cs f hclasses hf d hd g hg
        rw [hclasses] at hfields
        rcases List.mem_cons.mp hd with rfl | hd
        · rcases List.mem_append.mp hg with hg | hg
          · exact hfields c List.mem_cons_self g hg
          · obtain rfl := List.mem_singleton.mp hg
            exact hf
        · exact hfields d (List.mem_cons_of_mem c hd) g hg
      cases (readLine_eq_ok.mp hline).fieldStep with
      | @oneLine list rest _ hfinds htext hq =>
          cases hq with
          | @field c cs f hclasses hbody hf =>
              obtain ⟨hown, hlines⟩ := (hfinds.places hat).2 htext
              refine ⟨hlast hclasses ⟨k + 1, p, c, cs, list, declarationText rest, ?_⟩, nofun⟩
              refine ⟨⟨Nat.succ_ne_zero k, hp⟩, ⟨_, rest, hat, hfinds⟩, hown, ⟨hclasses, hbody⟩, hf, ?_⟩
              rw [hlines, h, ← hfinds.between]
              exact ⟨hk, rfl⟩
      | marker hfinds htext =>
          refine ⟨hfields, fun site hmode => ?_⟩
          obtain ⟨-, rfl⟩ := LineMode.declaration.inj hmode
          exact ⟨p, _, _, _, Nat.succ_ne_zero k, hp, hat, hfinds, htext, rfl, rfl⟩
      | declaration hmode hq =>
          cases hq with
          | @field c cs f hclasses hbody hf =>
              obtain ⟨p', line, list, rest, hne, hp', hat', hfinds, htext, rfl, rfl⟩ := hawaits _ hmode
              obtain ⟨hown, hlines⟩ := (hfinds.places hat').1 htext
              refine ⟨hlast hclasses ⟨k, p', c, cs, list, trim lines[k].toList, ?_⟩, nofun⟩
              refine ⟨⟨hne, hp'⟩, ⟨line, rest, hat', hfinds⟩, hown.trans hat, ⟨hclasses, hbody⟩, hf, ?_⟩
              rw [hlines, h, ← hfinds.between]
              exact ⟨hk, rfl⟩
      | other hkept hmode _ =>
          refine ⟨fun c hc f hf => ?_, fun site hsite => absurd hsite (hmode site)⟩
          obtain ⟨d, hd, hf⟩ := hkept c hc f hf
          exact hfields d hd f hf

theorem ReadsField.line {c : Class} {cs : List Class} {list : Bag} {own : List Char} {f : Field}
    (h : r.ReadsField path lines n p c cs list own f) : f.line = n := by
  obtain ⟨_, -, hmade⟩ := fieldOf_makes _ _ _ _ _ h.field
  exact hmade.line

variable {text : String} {h : Header}

/-- Every field of a header was read behind its marker. -/
theorem readsField_of_mem_fields (hr : r.read path text = .ok h) {c : Class} (hc : c ∈ h.classes) {f : Field}
    (hf : f ∈ c.fields) : ∃ p c cs list own, r.ReadsField path (Text.lines text) f.line p c cs list own f := by
  obtain ⟨-, q, hq, hfinish⟩ := read_eq_ok.mp hr
  obtain ⟨-, -, rfl⟩ := finish_eq_ok.mp hfinish
  rw [← List.take_length (l := Text.lines text)] at hq
  obtain ⟨n, p, c', cs, list, own, hreads⟩ :=
    (readsField_of_take (Nat.le_refl _) hq).1 c (List.mem_reverse.mp hc) f hf
  exact ⟨p, c', cs, list, own, hreads.line ▸ hreads⟩

/-- Every line of a header that is read as a field marker declares a field. -/
theorem exists_readsField (hr : r.read path text = .ok h) (hn : r.ReadsMarker path (Text.lines text) n .field) :
    ∃ p c cs list own f, r.ReadsField path (Text.lines text) n p c cs list own f := by
  obtain ⟨-, e, he, hfinish⟩ := read_eq_ok.mp hr
  obtain ⟨p, line, name, behind, hp, hmode, hline, hmarker⟩ := hn
  cases n with
  | zero => cases hline
  | succ k =>
      have hk : k < (Text.lines text).length := by
        refine Nat.lt_of_not_le fun hle => ?_
        simp [lineAt?, List.getElem?_eq_none hle] at hline
      obtain rfl := Option.some.inj (hline.symm.trans (lineAt?_succ hk))
      obtain ⟨q, hq, hrest⟩ := exists_runLines_take he (k + 1) hk
      obtain ⟨p', hp', hstep⟩ := exists_readLine_of_take hk hq
      obtain rfl := Except.ok.inj (hp'.symm.trans hp)
      -- A field that is found at a later line with its marker here is the one of this marker.
      have hfound : ∀ {m q'} {f : Field}, m ≤ (Text.lines text).length →
          r.runLines { path } 1 ((Text.lines text).take m) = .ok q' → f.line = k + 1 →
          (∃ c ∈ q'.classes, f ∈ c.fields) →
          ∃ p c cs list own f, r.ReadsField path (Text.lines text) (k + 1) p c cs list own f := by
        rintro m q' f hm hq' hf ⟨c, hc, hmem⟩
        obtain ⟨n, p, c', cs, list, own, hreads⟩ := (readsField_of_take hm hq').1 c hc f hmem
        rw [← hf, hreads.line]
        exact ⟨p, c', cs, list, own, f, hreads⟩
      cases (readLine_eq_ok.mp hstep).fieldStep with
      | oneLine _ _ hdeclare =>
          cases hdeclare with
          | field _ _ hf =>
              obtain ⟨_, -, hmade⟩ := fieldOf_makes _ _ _ _ _ hf
              exact hfound hk hq hmade.line ⟨_, List.mem_cons_self, List.mem_append_right _ List.mem_cons_self⟩
      | @marker list rest hfinds htext =>
          -- The text goes on, since a declaration is awaited.
          have hnext : k + 1 < (Text.lines text).length := by
            refine Nat.lt_of_not_le fun hle => ?_
            rw [List.drop_eq_nil_of_le hle] at hrest
            obtain rfl := Except.ok.inj hrest
            cases (finish_eq_ok.mp hfinish).1
          obtain ⟨q', hq', -⟩ := exists_runLines_take he (k + 2) hnext
          obtain ⟨p'', hp'', hstep'⟩ := exists_readLine_of_take hnext hq'
          obtain rfl := Except.ok.inj (hp''.symm.trans hq)
          have hdeclare : r.declare _ .field (fieldSite p' (k + 1) list) _ = .ok q' := hstep'
          cases declare_eq_ok.mp hdeclare with
          | field _ _ hf =>
              obtain ⟨_, -, hmade⟩ := fieldOf_makes _ _ _ _ _ hf
              exact hfound hnext hq' hmade.line ⟨_, List.mem_cons_self, List.mem_append_right _ List.mem_cons_self⟩
      | declaration hdeclaration _ =>
          rw [hmode] at hdeclaration
          cases hdeclaration
      | other _ _ hother => exact absurd hmarker (hother hmode name behind)

end Reader

end HeaderReflection
