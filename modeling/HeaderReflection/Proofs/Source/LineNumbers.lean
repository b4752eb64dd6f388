import HeaderReflection.Proofs.Source.Renumber
import HeaderReflection.Source.Progress

/-! # Reading at other lines

Reading a header takes the number of a line for nothing but the places of its declarations.  So when the lines
have other numbers the same lines are read alike: what is read is what was read before at its new lines
(`Reader.runLines_renumber`), and so is the header that they end (`Reader.finish_renumber`).

* New numbers are given by a function `ρ`.  It has to take zero, and nothing else, to zero, since line zero is
  that of no body marker.
* Reading with other numbers fails where it failed before, and succeeds with the renumbered answer where it
  succeeded (`Alike`).  This is shown for declarations in `Renumber`, and here for each function that reads a
  line.
* The identifiers of declarations are computed from their path, so everything that has been read has to be of
  one file (`Reader.Progress.OfOneFile`).

Lines that are put in somewhere move those behind them by a constant (`lineBehind`), which is the only kind of
renumbering that is used for texts. -/

namespace HeaderReflection

open Checked Text

/-! ### Other lines -/

/-- The new number of a line when `d` lines more stand behind line `k`. -/
def lineBehind (k d n : Nat) : Nat := if n ≤ k then n else n + d

theorem lineBehind_of_le {k d n : Nat} (h : n ≤ k) : lineBehind k d n = n := if_pos h

theorem lineBehind_of_lt {k d n : Nat} (h : k < n) : lineBehind k d n = n + d := if_neg (Nat.not_le.mpr h)

theorem lineBehind_eq_zero_iff (k d n : Nat) : lineBehind k d n = 0 ↔ n = 0 := by
  unfold lineBehind
  split <;> omega

/-- What a line is read as when what is awaited stands at its new line. -/
def LineMode.renumber (ρ : Nat → Nat) : LineMode → LineMode
  | .between => .between
  | .declaration kind site => .declaration kind (site.renumber ρ)
  | .opening head site => .opening head (site.renumber ρ)
  | .enumerators body => .enumerators (body.renumber ρ)

namespace Progress

/-- What has been read, everything at its new line. -/
def renumber (ρ : Nat → Nat) (p : Progress) : Progress :=
  { p with
    classes := p.classes.map (·.renumber ρ)
    enums := p.enums.map (·.renumber ρ)
    mode := p.mode.renumber ρ }

/-- The classes and the marker that waits for its declaration stand in the header that is read. -/
structure OfOneFile (p : Progress) : Prop where
  classes : ∀ c ∈ p.classes, c.path = p.path
  site : ∀ kind site, p.mode = .declaration kind site → site.path = p.path

/-- The second progress is the first one at its new lines. -/
def RenumberedTo (ρ : Nat → Nat) (p q : Progress) : Prop := p.OfOneFile ∧ q = p.renumber ρ

theorem OfOneFile.start (path : SourcePath) : ({ path } : Progress).OfOneFile :=
  ⟨fun _ hc => absurd hc List.not_mem_nil, nofun⟩

theorem OfOneFile.change_class {p : Progress} {c d : Class} {cs : List Class} (h : p.OfOneFile)
    (hp : p.classes = c :: cs) (hd : d.path = c.path) : ∀ k ∈ d :: cs, k.path = p.path := by
  obtain ⟨hc, hcs⟩ := List.forall_mem_cons.mp (hp ▸ h.classes)
  exact List.forall_mem_cons.mpr ⟨hd.trans hc, hcs⟩

end Progress

namespace Reader

variable {r : Reader} {ρ : Nat → Nat} {p : Progress} {site : MarkerSite}

/-! ### Classes -/

theorem unopened_renumber (hzero : ∀ n, ρ n = 0 ↔ n = 0) (c : Class) :
    (c.renumber ρ).bodyLine = 0 ↔ c.bodyLine = 0 :=
  hzero c.bodyLine

theorem closeClass_renumber (hzero : ∀ n, ρ n = 0 ↔ n = 0) :
    Alike Eq (r.closeClass p) (r.closeClass (p.renumber ρ)) := by
  unfold closeClass
  cases hp : p.classes with
  | nil => simpa only [Progress.renumber, hp, List.map_nil] using .ok rfl
  | cons c cs =>
      simp only [Progress.renumber, hp, List.map_cons]
      by_cases hc : c.bodyLine = 0
      · rw [if_pos hc, if_pos ((unopened_renumber hzero c).mpr hc)]
        exact .error _ _
      · rw [if_neg hc, if_neg (mt (unopened_renumber hzero c).mp hc)]
        exact .ok rfl

theorem openClass_renumber (hzero : ∀ n, ρ n = 0 ↔ n = 0) (kind : MarkerKind) :
    Alike (fun a b => p.classes = a.1 :: a.2 ∧ b = (a.1.renumber ρ, a.2.map (·.renumber ρ)))
      (r.openClass p kind) (r.openClass (p.renumber ρ) kind) := by
  unfold openClass
  cases hp : p.classes with
  | nil =>
      simp only [Progress.renumber, hp, List.map_nil]
      exact .error _ _
  | cons c cs =>
      simp only [Progress.renumber, hp, List.map_cons]
      by_cases hc : c.bodyLine = 0
      · rw [if_pos hc, if_pos ((unopened_renumber hzero c).mpr hc)]
        exact .error _ _
      · rw [if_neg hc, if_neg (mt (unopened_renumber hzero c).mp hc)]
        exact .ok ⟨rfl, rfl⟩

theorem beginBody_renumber (hzero : ∀ n, ρ n = 0 ↔ n = 0) (hp : p.OfOneFile) (line : Nat) :
    Alike (Progress.RenumberedTo ρ) (r.beginBody p line) (r.beginBody (p.renumber ρ) (ρ line)) := by
  unfold beginBody
  cases hclasses : p.classes with
  | nil =>
      simp only [Progress.renumber, hclasses, List.map_nil]
      exact .error _ _
  | cons c cs =>
      simp only [Progress.renumber, hclasses, List.map_cons]
      by_cases hc : c.bodyLine = 0
      · rw [if_neg (not_not_intro hc), if_neg (not_not_intro ((unopened_renumber hzero c).mpr hc))]
        exact .ok ⟨⟨hp.change_class hclasses rfl, hp.site⟩, rfl⟩
      · rw [if_pos hc, if_pos (mt (unopened_renumber hzero c).mp hc)]
        exact .error _ _

/-! ### Lines -/

theorem beginEnum_renumber (hp : ∀ c ∈ p.classes, c.path = p.path) (head : EnumHead) (rest : List Char) :
    Alike (Progress.RenumberedTo ρ) (r.beginEnum p site head rest)
      (r.beginEnum (p.renumber ρ) (site.renumber ρ) head rest) := by
  refine .ite (fun _ => ?_) fun _ => .throw_bind _ _
  refine .bind (enumOf_renumber head) ?_
  rintro e _ rfl
  exact .pure ⟨⟨hp, nofun⟩, rfl⟩

theorem declare_renumber (hzero : ∀ n, ρ n = 0 ↔ n = 0) (hp : ∀ c ∈ p.classes, c.path = p.path)
    (hsite : site.path = p.path) (kind : MarkerKind) (text : List Char) :
    Alike (Progress.RenumberedTo ρ) (r.declare p kind site text)
      (r.declare (p.renumber ρ) kind (site.renumber ρ) text) := by
  have hbetween : ({ p with mode := .between } : Progress).OfOneFile := ⟨hp, nofun⟩
  cases kind with
  | classType =>
      refine .bindSame (closeClass_renumber (p := { p with mode := .between }) hzero) fun _ => ?_
      refine .bind (classOf_renumber ((hzero 0).mpr rfl) text) ?_
      rintro c _ ⟨hpath, rfl⟩
      exact .pure ⟨⟨List.forall_mem_cons.mpr ⟨hpath.trans hsite, hp⟩, nofun⟩, rfl⟩
  | body => exact .lift (beginBody_renumber hzero hbetween site.line)
  | field =>
      refine .bind (.lift (openClass_renumber (p := { p with mode := .between }) hzero .field)) ?_
      rintro ⟨c, cs⟩ _ ⟨hclasses, rfl⟩
      have hpath : c.path = site.path := by
        rw [hsite]
        exact hp c (hclasses ▸ List.mem_cons_self)
      refine .bind (fieldOf_renumber c p.access text) ?_
      rintro f _ rfl
      refine .pure ⟨⟨hbetween.change_class hclasses rfl, nofun⟩, ?_⟩
      simp only [Progress.renumber, Class.renumber, List.map_cons, List.map_append, List.map_nil, hpath]
      rfl
  | method =>
      refine .bind (.lift (openClass_renumber (p := { p with mode := .between }) hzero .method)) ?_
      rintro ⟨c, cs⟩ _ ⟨hclasses, rfl⟩
      have hpath : c.path = site.path := by
        rw [hsite]
        exact hp c (hclasses ▸ List.mem_cons_self)
      refine .bind (methodOf_renumber c p.access text) ?_
      rintro m _ rfl
      refine .bind (hpath ▸ claimProperties_renumber c m) ?_
      rintro d _ ⟨⟨ps, rfl⟩, rfl⟩
      refine .pure ⟨⟨hbetween.change_class hclasses rfl, nofun⟩, ?_⟩
      simp only [Progress.renumber, Class.renumber, List.map_cons, List.map_append, List.map_nil, hpath]
      rfl
  | enumType =>
      refine .bindSame (.refl _) fun a => ?_
      dsimp only
      refine .ite (fun _ => ?_) fun _ => .pure ⟨⟨hp, nofun⟩, rfl⟩
      exact beginEnum_renumber (p := { p with mode := .between }) hp a.1 a.2
  | enumerator => exact .throw _ _

/-- A line with a marker is read alike at another line. -/
theorem markerLine_renumber (hzero : ∀ n, ρ n = 0 ↔ n = 0) (hp : ∀ c ∈ p.classes, c.path = p.path) (n : Nat)
    (name : String) (kind : MarkerKind) (behind : List Char) :
    Alike (Progress.RenumberedTo ρ) (r.markerLine p n name kind behind)
      (r.markerLine (p.renumber ρ) (ρ n) name kind behind) := by
  refine .bindSame (.refl _) fun a => ?_
  dsimp only
  refine .ite (fun _ => ?_) fun _ => ?_
  · exact declare_renumber (p := { p with comments := [] }) hzero hp rfl kind []
  · split
    · refine .pure ⟨⟨hp, ?_⟩, rfl⟩
      rintro _ _ ⟨⟩
      rfl
    · exact declare_renumber (p := { p with comments := [] }) hzero hp rfl kind _

theorem plainLine_renumber (hp : p.OfOneFile) (line : List Char) :
    Alike (Progress.RenumberedTo ρ) (r.plainLine p line) (r.plainLine (p.renumber ρ) line) := by
  unfold plainLine
  refine .ite (fun _ => .error _ _) fun _ => ?_
  split
  all_goals exact .ok ⟨⟨hp.classes, hp.site⟩, rfl⟩

theorem enumeratorLine_renumber (hp : ∀ c ∈ p.classes, c.path = p.path) (body : EnumBody) (n : Nat)
    (text : List Char) :
    Alike (Progress.RenumberedTo ρ) (r.enumeratorLine p body n text)
      (r.enumeratorLine (p.renumber ρ) (body.renumber ρ) (ρ n) text) := by
  have hadd : Alike (fun b b' => b' = EnumBody.renumber ρ b) (r.addEnumerator body n text)
      (r.addEnumerator (body.renumber ρ) (ρ n) text) := by
    refine .bind (enumeratorOf_renumber body n text) ?_
    rintro x _ rfl
    refine .pure ?_
    simp only [EnumBody.renumber, Enumeration.renumber, List.map_append, List.map_cons, List.map_nil]
    rfl
  refine .bind hadd ?_
  rintro b _ rfl
  exact .pure ⟨⟨hp, nofun⟩, rfl⟩

theorem enumLine_renumber (hp : p.OfOneFile) (body : EnumBody) (n : Nat) (line : List Char) :
    Alike (Progress.RenumberedTo ρ) (r.enumLine p body n line)
      (r.enumLine (p.renumber ρ) (body.renumber ρ) (ρ n) line) := by
  unfold enumLine
  split
  · refine .ite (fun _ => .pure ⟨⟨hp.classes, nofun⟩, rfl⟩) fun _ => .throw _ _
  · exact .pure ⟨hp, rfl⟩
  · exact .pure ⟨⟨hp.classes, nofun⟩, rfl⟩
  · exact .pure ⟨hp, rfl⟩
  · dsimp only
    refine .ite (fun _ => ?_) fun _ => enumeratorLine_renumber hp.classes body n line
    refine .bindSame (.refl _) fun a => ?_
    split
    · exact .pure ⟨⟨hp.classes, nofun⟩, rfl⟩
    · exact .pure ⟨⟨hp.classes, nofun⟩, rfl⟩
    · exact enumeratorLine_renumber hp.classes { body with pending := a.1 } n _

/-- A line is read alike when it has another number. -/
theorem readLine_renumber (hzero : ∀ n, ρ n = 0 ↔ n = 0) (hp : p.OfOneFile) (n : Nat) (line : List Char) :
    Alike (Progress.RenumberedTo ρ) (r.readLine p n line) (r.readLine (p.renumber ρ) (ρ n) line) := by
  have hnew : (p.renumber ρ).mode = p.mode.renumber ρ := rfl
  unfold readLine
  rw [hnew]
  cases hmode : p.mode with
  | between =>
      simp only [LineMode.renumber]
      cases r.markers.find? line with
      | none => exact .lift (plainLine_renumber hp line)
      | some a => exact markerLine_renumber hzero hp.classes n a.1 a.2.1 a.2.2
  | declaration kind site => exact declare_renumber hzero hp.classes (hp.site kind site hmode) kind line
  | opening head site => exact .bindSame (.refl _) fun a => beginEnum_renumber hp.classes head a.2
  | enumerators body => exact enumLine_renumber hp body n line

/-! ### Whole texts -/

/-- Lines are read alike when they have other numbers, which go up by one like theirs. -/
theorem runLines_renumber (hzero : ∀ n, ρ n = 0 ↔ n = 0) {ls : List String} {n m : Nat} (hp : p.OfOneFile)
    (hlines : ∀ i < ls.length, ρ (n + i) = m + i) :
    Alike (Progress.RenumberedTo ρ) (r.runLines p n ls) (r.runLines (p.renumber ρ) m ls) := by
  induction ls generalizing p n m with
  | nil => exact .ok ⟨hp, rfl⟩
  | cons l ls ih =>
      obtain rfl : ρ n = m := hlines 0 (Nat.zero_lt_succ _)
      refine .bind ((readLine_renumber hzero hp n _).placedAt _ _ _ _) ?_
      rintro q _ ⟨hq, rfl⟩
      refine ih hq fun i hi => ?_
      have hnext := hlines (i + 1) (Nat.succ_lt_succ hi)
      rwa [Nat.add_right_comm, Nat.add_right_comm (ρ n)]

/-- The lines can be read, and behind them nothing is awaited: neither a declaration nor an enumerator, nor
what a comment is about. -/
def ReadsThrough (r : Reader) (path : SourcePath) (lines : List String) : Prop :=
  ∃ p, r.runLines { path } 1 lines = .ok p ∧ p.mode = .between ∧ p.comments = []

instance (r : Reader) (path : SourcePath) (lines : List String) : Decidable (r.ReadsThrough path lines) :=
  match h : r.runLines { path } 1 lines with
  | .ok p =>
    decidable_of_iff (p.mode = .between ∧ p.comments = [])
      ⟨fun hp => ⟨p, h, hp⟩, fun ⟨_, hq, hp⟩ => Except.ok.inj (hq.symm.trans h) ▸ hp⟩
  | .error _ => .isFalse fun ⟨_, hq, _⟩ => nomatch hq.symm.trans h

theorem finish_renumber (hzero : ∀ n, ρ n = 0 ↔ n = 0) :
    Alike (fun h h' => h' = h.renumber ρ) (r.finish p) (r.finish (p.renumber ρ)) := by
  have hnew : (p.renumber ρ).mode = p.mode.renumber ρ := rfl
  unfold finish
  rw [hnew]
  cases p.mode with
  | between =>
      refine .bindSame (closeClass_renumber hzero) fun _ => .pure ?_
      simp only [Progress.renumber, Header.renumber, List.map_reverse]
  | declaration kind site => exact .error _ _
  | opening head site => exact .error _ _
  | enumerators body => exact .error _ _

end Reader

end HeaderReflection
