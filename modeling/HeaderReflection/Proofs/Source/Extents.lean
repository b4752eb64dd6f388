import HeaderReflection.Proofs.Source.FieldMarkers

/-! # The lines that declarations take

A header is read by a machine that is between declarations, awaits the declaration of a marker, or stands in
the body of an enum.  Where it stands in front of a line is told by the lines above, without the machine.

* A marker takes the lines of its declaration, and one of an enum those of its body up to the first closing
  brace (`Reader.Behind`).  The lines that are left are free (`Reader.IsFree`), and only there markers, labels
  and comments are looked at.
* What a line takes is determined by the text (`Reader.Behind.unique`), and no line in between is free
  (`Reader.IsFree.not_between`).
* The enumerators of an enum are the lines of its body that declare one (`Reader.IsOpenAt`).
* The machine stands where the lines say (`Reader.Progress.Follows`): one line keeps this, with one case for
  each of the three modes (`Reader.follows_step`), and a run does by induction on its lines.

For a header that was read this gives the extent of every enum (`Reader.isOpenAt_of_mem_enums`). -/

namespace HeaderReflection

open Checked Text

namespace Reader

/-! ### Lines between declarations -/

variable {r : Reader} {lines : List String} {n m N : Nat}

/-- The kind of the marker at a line. -/
def kindAt? (r : Reader) (lines : List String) (n : Nat) : Option MarkerKind :=
  ((lineAt? lines n).bind r.markers.find?).map (·.2.1)

/-- The line begins with a closing brace. -/
def ClosesAt (lines : List String) (n : Nat) : Prop := ∃ s, lineAt? lines n = some ('\x7d' :: s)

/-- The first line behind the opening brace of an enum that begins with a closing one. -/
structure EndsBody (lines : List String) (brace N : Nat) : Prop where
  behind : brace < N
  closes : ClosesAt lines N
  first : ∀ k, brace < k → k < N → ¬ClosesAt lines k

/-- Behind which line reading goes on, if the line `n` is read between declarations. -/
inductive Behind (r : Reader) (lines : List String) (n : Nat) : Nat → Prop where
  | plain (hnone : r.kindAt? lines n = none) : Behind r lines n (n + 1)
  | declaration {kind : MarkerKind} (hkind : r.kindAt? lines n = some kind) (hother : kind ≠ .enumType) :
      Behind r lines n (r.textLine lines n + 1)
  | enumType {N : Nat} (hkind : r.kindAt? lines n = some .enumType) (hend : EndsBody lines (r.braceLine lines n) N) :
      Behind r lines n (N + 1)

/-- The line is read between declarations: it is the first one, or it stands behind one that is and what that takes. -/
inductive IsFree (r : Reader) (lines : List String) : Nat → Prop where
  | first : IsFree r lines 1
  | next {n m : Nat} (h : IsFree r lines n) (hm : r.Behind lines n m) : IsFree r lines m

theorem EndsBody.unique {brace M : Nat} (hN : EndsBody lines brace N) (hM : EndsBody lines brace M) : N = M := by
  rcases Nat.lt_trichotomy N M with hlt | heq | hlt
  · exact absurd hN.closes (hM.first N hN.behind hlt)
  · exact heq
  · exact absurd hM.closes (hN.first M hM.behind hlt)

theorem le_textLine (r : Reader) (lines : List String) (n : Nat) : n ≤ r.textLine lines n := by
  unfold textLine
  split
  · split
    · exact Nat.le_succ n
    · exact Nat.le_refl n
  · exact Nat.le_refl n

theorem textLine_le_braceLine (r : Reader) (lines : List String) (n : Nat) :
    r.textLine lines n ≤ r.braceLine lines n := by
  unfold braceLine
  split
  · split
    · exact Nat.le_refl _
    · exact Nat.le_succ _
  · exact Nat.le_refl _

theorem Behind.lt (h : r.Behind lines n m) : n < m := by
  have htext := le_textLine r lines n
  have hbrace := textLine_le_braceLine r lines n
  cases h with
  | plain => exact Nat.lt_succ_self n
  | declaration => omega
  | enumType _ hend =>
      have hbehind := hend.behind
      omega

theorem Behind.unique {k : Nat} (hm : r.Behind lines n m) (hk : r.Behind lines n k) : m = k := by
  cases hm with
  | plain hnone =>
      cases hk with
      | plain => rfl
      | declaration hkind => cases hnone.symm.trans hkind
      | enumType hkind => cases hnone.symm.trans hkind
  | declaration hkind hother =>
      cases hk with
      | plain hnone => cases hnone.symm.trans hkind
      | declaration => rfl
      | enumType henum => exact absurd (Option.some.inj (hkind.symm.trans henum)) hother
  | enumType hkind hend =>
      cases hk with
      | plain hnone => cases hnone.symm.trans hkind
      | declaration hkind' hother => exact absurd (Option.some.inj (hkind'.symm.trans hkind)) hother
      | enumType _ hend' => rw [hend.unique hend']

theorem IsFree.pos (h : r.IsFree lines n) : 1 ≤ n := by
  induction h with
  | first => exact Nat.le_refl 1
  | next _ hm ih => exact Nat.le_trans ih (Nat.le_of_lt hm.lt)

/-- Between a line and what it takes no line is free. -/
theorem IsFree.exists_behind_le {n m : Nat} (hn : r.IsFree lines n) (hm : r.IsFree lines m) (hlt : n < m) :
    ∃ k, r.Behind lines n k ∧ k ≤ m := by
  cases hm with
  | first => exact absurd hlt (Nat.not_lt.mpr hn.pos)
  | @next a _ ha hbehind =>
      have ham := hbehind.lt
      rcases Nat.lt_trichotomy n a with hna | rfl | han
      · obtain ⟨k, hk, hle⟩ := hn.exists_behind_le ha hna
        exact ⟨k, hk, Nat.le_trans hle (Nat.le_of_lt ham)⟩
      · exact ⟨m, hbehind, Nat.le_refl m⟩
      · -- What stands behind `a` is `m`, so `n` cannot stand between them.
        obtain ⟨k, hk, hle⟩ := ha.exists_behind_le hn han
        obtain rfl := hbehind.unique hk
        exact absurd hle (Nat.not_le.mpr hlt)
termination_by m
decreasing_by all_goals omega

theorem IsFree.not_between {n m k : Nat} (hn : r.IsFree lines n) (hm : r.Behind lines n m) (hnk : n < k) (hkm : k < m) :
    ¬r.IsFree lines k := by
  intro hk
  obtain ⟨a, ha, hle⟩ := hn.exists_behind_le hk hnk
  obtain rfl := hm.unique ha
  exact absurd hle (Nat.not_le.mpr hkm)

/-! ### Bodies of enums -/

/-- The line declares an enumerator. -/
def isEnumeratorLine (r : Reader) (lines : List String) (n : Nat) : Bool :=
  (lineAt? lines n).any fun line => !isIdle line && (r.enumeratorMarkerAt? lines n).all fun m => !isIdle m.2

/-- The lines behind `brace` and before `n` that declare an enumerator. -/
def enumeratorLines (r : Reader) (lines : List String) (brace n : Nat) : List Nat :=
  (List.range n).filter fun k => decide (brace < k) && r.isEnumeratorLine lines k

/-- The enum was read from the marker at its line, its body is not closed before line `n`, and it has the enumerators
that are declared there. -/
structure IsOpenAt (r : Reader) (lines : List String) (n : Nat) (e : Enumeration) : Prop where
  free : r.IsFree lines e.line
  kind : r.kindAt? lines e.line = some .enumType
  brace : r.braceLine lines e.line < n
  goes_on : ∀ k, r.braceLine lines e.line < k → k < n → ¬ClosesAt lines k
  enumerators : e.enumerators.map (·.line) = r.enumeratorLines lines (r.braceLine lines e.line) n

theorem enumeratorLines_start (brace : Nat) : r.enumeratorLines lines brace (brace + 1) = [] := by
  refine List.filter_eq_nil_iff.mpr fun k hk => ?_
  have hle := Nat.le_of_lt_succ (List.mem_range.mp hk)
  simp [Nat.not_lt.mpr hle]

theorem enumeratorLines_succ {brace : Nat} (hbrace : brace < n) : r.enumeratorLines lines brace (n + 1) =
    r.enumeratorLines lines brace n ++ if r.isEnumeratorLine lines n then [n] else [] := by
  unfold enumeratorLines
  rw [List.range_succ, List.filter_append]
  refine congrArg _ ?_
  cases hdeclares : r.isEnumeratorLine lines n with
  | true => exact List.filter_cons_of_pos (by simp [hbrace, hdeclares])
  | false => exact List.filter_cons_of_neg (by simp [hdeclares])

theorem isOpenAt_start {site : MarkerSite} {head : EnumHead} {e : Enumeration} (he : r.enumOf site head = .ok e)
    (hfree : r.IsFree lines site.line) (hkind : r.kindAt? lines site.line = some .enumType)
    (hbrace : r.braceLine lines site.line = n) : r.IsOpenAt lines (n + 1) e := by
  have hmade := enumOf_makes site head e he
  have hline : e.line = site.line := hmade.made.line
  rw [← hline] at hfree hkind hbrace
  subst hbrace
  refine ⟨hfree, hkind, Nat.lt_succ_self _, fun k hlt hle => absurd hlt (Nat.not_lt.mpr (Nat.le_of_lt_succ hle)), ?_⟩
  rw [hmade.enumerators, enumeratorLines_start]
  rfl

theorem IsOpenAt.step {e : Enumeration} (h : r.IsOpenAt lines n e) (hgoes : ¬ClosesAt lines n)
    (es : List Enumerator) (hes : es.map (·.line) = if r.isEnumeratorLine lines n then [n] else []) :
    r.IsOpenAt lines (n + 1) { e with enumerators := e.enumerators ++ es } where
  free := h.free
  kind := h.kind
  brace := Nat.lt_succ_of_lt h.brace
  goes_on := by
    intro k hlt hle
    rcases Nat.lt_or_eq_of_le (Nat.le_of_lt_succ hle) with hlt' | rfl
    · exact h.goes_on k hlt hlt'
    · exact hgoes
  enumerators := by
    show (e.enumerators ++ es).map (·.line) = _
    rw [List.map_append, h.enumerators, hes, enumeratorLines_succ h.brace]

end Reader

/-! ### Where the reader stands -/

/-- What the next line is read as agrees with what the lines above it take. -/
def Progress.StandsAt (p : Progress) (r : Reader) (lines : List String) (n : Nat) : Prop :=
  match p.mode with
  | .between => r.IsFree lines n
  | .declaration kind site => r.IsFree lines site.line ∧ r.kindAt? lines site.line = some kind
  | .opening _ site => r.IsFree lines site.line ∧ r.kindAt? lines site.line = some .enumType
  | .enumerators body => r.IsOpenAt lines n body.declared

/-- The reader stands where the lines above it say, and the enums have the enumerators of their bodies. -/
structure Progress.Follows (p : Progress) (r : Reader) (lines : List String) (n : Nat) : Prop where
  stands : p.StandsAt r lines n
  enums : ∀ e ∈ p.enums, ∃ N, r.IsOpenAt lines N e ∧ Reader.ClosesAt lines N

namespace Reader

variable {r : Reader} {path : SourcePath} {lines : List String} {p q : Progress} {n : Nat} {line : List Char}

theorem kindAt?_eq (hline : lineAt? lines n = some line) :
    r.kindAt? lines n = (r.markers.find? line).map (·.2.1) := by
  simp only [kindAt?, hline, Option.bind_some]

/-- Behind the declaration of a marker the reader stands where the marker says. -/
theorem DeclareStep.standsAt {site : MarkerSite} {text : List Char} {kind : MarkerKind}
    (h : r.DeclareStep p site text kind q) (hfree : r.IsFree lines site.line)
    (hkind : r.kindAt? lines site.line = some kind) (htext : r.textLine lines site.line = n)
    (hq : q.ReadsTo r path lines (n + 1)) : q.StandsAt r lines (n + 1) ∧ q.enums = p.enums := by
  have hbehind : kind ≠ .enumType → r.IsFree lines (n + 1) := fun hother =>
    htext ▸ hfree.next (.declaration hkind hother)
  cases h with
  | classType => exact ⟨hbehind nofun, rfl⟩
  | body => exact ⟨hbehind nofun, rfl⟩
  | field => exact ⟨hbehind nofun, rfl⟩
  | method => exact ⟨hbehind nofun, rfl⟩
  | opening => exact ⟨⟨hfree, hkind⟩, rfl⟩
  | @enumType head _ e _ _ _ he =>
      refine ⟨isOpenAt_start he hfree hkind ?_, rfl⟩
      -- The brace stands behind the text, and before the line that is read next.
      have hwaits : ({ declared := e } : EnumBody).WaitsAt r lines (n + 1) := hq.mode
      have hbefore : r.braceLine lines e.line < n + 1 := hwaits.brace
      rw [(enumOf_line site head e he : e.line = site.line)] at hbefore
      have hle := textLine_le_braceLine r lines site.line
      omega

theorem not_closesAt (hline : lineAt? lines n = some line) (h : ∀ s, line ≠ '\x7d' :: s) : ¬ClosesAt lines n := by
  rintro ⟨s, hs⟩
  exact h s (Option.some.inj (hline.symm.trans hs))

theorem isEnumeratorLine_eq (hline : lineAt? lines n = some line) : r.isEnumeratorLine lines n =
    (!isIdle line && (r.enumeratorMarkerAt? lines n).all fun m => !isIdle m.2) := by
  simp only [isEnumeratorLine, hline, Option.any_some]

/-- The body of an enum grows by the enumerators that its lines declare, until it is closed. -/
theorem EnumLineStep.standsAt {body : EnumBody} (h : r.EnumLineStep p body n line q)
    (hopen : r.IsOpenAt lines n body.declared) (hline : lineAt? lines n = some line) :
    q.StandsAt r lines (n + 1) ∧
      (q.enums = p.enums ∨ q.enums = body.declared :: p.enums ∧ ClosesAt lines n) := by
  have hstay : (∀ s, line ≠ '\x7d' :: s) → r.isEnumeratorLine lines n = false →
      r.IsOpenAt lines (n + 1) body.declared := by
    intro hgoes hnone
    have hopen := hopen.step (not_closesAt hline hgoes) [] (by rw [hnone]; rfl)
    rwa [List.append_nil] at hopen
  have hput : ∀ {b text x}, r.enumeratorOf b n text = .ok x → (∀ s, line ≠ '\x7d' :: s) →
      r.isEnumeratorLine lines n = true → r.IsOpenAt lines (n + 1) (body.put x).declared := by
    intro b text x hx hgoes hdeclares
    obtain ⟨_, -, -, hmade⟩ := enumeratorOf_makes b n text x hx
    refine hopen.step (not_closesAt hline hgoes) [x] ?_
    rw [hdeclares]
    exact congrArg (· :: []) hmade.line
  cases h with
  | closes hend =>
      obtain ⟨s, rfl⟩ := exists_brace_of_isEnumEnd hend
      have hend : EndsBody lines (r.braceLine lines body.declared.line) n := ⟨hopen.brace, ⟨s, hline⟩, hopen.goes_on⟩
      exact ⟨hopen.free.next (.enumType hopen.kind hend), .inr ⟨rfl, ⟨s, hline⟩⟩⟩
  | idle hidle =>
      refine ⟨hstay ?_ ?_, .inl rfl⟩
      · rintro s rfl
        cases hidle
      · rw [isEnumeratorLine_eq hline, hidle]
        rfl
  | list hplain hbusy hmarker hlist hidle =>
      refine ⟨hstay hplain ?_, .inl rfl⟩
      rw [isEnumeratorLine_eq hline, enumeratorMarkerAt?_eq hline hmarker hlist]
      simp [hidle]
  | marked hplain hbusy hmarker hlist hrest hx =>
      refine ⟨hput hx hplain ?_, .inl rfl⟩
      rw [isEnumeratorLine_eq hline, hbusy, enumeratorMarkerAt?_eq hline hmarker hlist]
      simp [hrest]
  | plain hplain hbusy hmarker hx =>
      refine ⟨hput hx hplain ?_, .inl rfl⟩
      rw [isEnumeratorLine_eq hline, hbusy, enumeratorMarkerAt?_eq_none hline (Bool.eq_false_iff.mp hmarker)]
      rfl

/-- One line is read where the lines above it say, and so is the next one. -/
theorem follows_step (hp : p.ReadsTo r path lines n) (hfollows : p.Follows r lines n)
    (hline : lineAt? lines n = some line) (h : r.readLine p n line = .ok q) : q.Follows r lines (n + 1) := by
  have hq := readLine_readsTo hp hline h
  have hstands := hfollows.stands
  have hmodeAt := hp.mode
  have hkeep : q.StandsAt r lines (n + 1) ∧ q.enums = p.enums → q.Follows r lines (n + 1) := fun hq =>
    ⟨hq.1, hq.2 ▸ hfollows.enums⟩
  unfold Progress.StandsAt at hstands
  unfold Progress.ModeAt at hmodeAt
  cases readLine_eq_ok.mp h with
  | plain hmode hmarker =>
      simp only [hmode] at hstands
      refine hkeep ⟨?_, rfl⟩
      unfold Progress.StandsAt
      simp only [hmode]
      exact hstands.next (.plain (by rw [kindAt?_eq hline, hmarker]; rfl))
  | marker hmode hmarker hlist hrest =>
      simp only [hmode] at hstands
      exact hkeep ⟨⟨hstands, by rw [kindAt?_eq hline, hmarker]; rfl⟩, rfl⟩
  | oneLine hmode hmarker hlist hrest hdeclare =>
      simp only [hmode] at hstands
      have htext : r.textLine lines n = n := (textLine_eq hline hmarker hlist).trans (if_neg hrest)
      have hkind := (kindAt?_eq (r := r) hline).trans (congrArg (Option.map (·.2.1)) hmarker)
      exact hkeep (hdeclare.standsAt hstands hkind htext hq)
  | declaration hmode hdeclare =>
      simp only [hmode] at hstands hmodeAt
      exact hkeep (hdeclare.standsAt hstands.1 hstands.2 hmodeAt.2.1 hq)
  | brace hmode _ _ he =>
      simp only [hmode] at hstands hmodeAt
      exact hkeep ⟨isOpenAt_start he hstands.1 hstands.2 hmodeAt.2.1, rfl⟩
  | @enumLine body _ hmode hbody =>
      simp only [hmode] at hstands
      obtain ⟨hstandsq, hsame | ⟨hclosed, hcloses⟩⟩ := hbody.standsAt hstands hline
      · exact hkeep ⟨hstandsq, hsame⟩
      · refine ⟨hstandsq, ?_⟩
        rw [hclosed]
        exact List.forall_mem_cons.mpr ⟨⟨n, hstands, hcloses⟩, hfollows.enums⟩

/-! ### Runs -/

theorem follows_of_take {k : Nat} (hk : k ≤ lines.length) (h : r.runLines { path } 1 (lines.take k) = .ok q) :
    q.ReadsTo r path lines (k + 1) ∧ q.Follows r lines (k + 1) := by
  induction k generalizing q with
  | zero =>
      obtain rfl : ({ path } : Progress) = q := Except.ok.inj h
      exact ⟨readsTo_start r path lines, .first, fun e he => absurd he List.not_mem_nil⟩
  | succ k ih =>
      obtain ⟨p, hp, hread⟩ := exists_readLine_of_take hk h
      obtain ⟨hreads, hfollows⟩ := ih (Nat.le_of_succ_le hk) hp
      have hline := lineAt?_succ hk
      exact ⟨readLine_readsTo hreads hline hread, follows_step hreads hfollows hline hread⟩

/-- A header is what its lines were read to, and nothing is awaited behind them. -/
theorem exists_follows_of_read {text : String} {h : Header} (hr : r.read path text = .ok h) :
    ∃ p, r.runLines { path } 1 (Text.lines text) = .ok p ∧
      p.Follows r (Text.lines text) ((Text.lines text).length + 1) ∧ p.mode = .between ∧
        h = ⟨p.path, p.classes.reverse, p.enums.reverse⟩ := by
  obtain ⟨-, p, hp, hfinish⟩ := read_eq_ok.mp hr
  have hrun := hp
  rw [← List.take_length (l := Text.lines text)] at hrun
  obtain ⟨hmode, -, hheader⟩ := finish_eq_ok.mp hfinish
  exact ⟨p, hp, (follows_of_take (Nat.le_refl _) hrun).2, hmode, hheader⟩

theorem isOpenAt_of_mem_enums {text : String} {h : Header} (hr : r.read path text = .ok h) {e : Enumeration}
    (he : e ∈ h.enums) : ∃ N, r.IsOpenAt (Text.lines text) N e ∧ ClosesAt (Text.lines text) N := by
  obtain ⟨p, -, hfollows, -, rfl⟩ := exists_follows_of_read hr
  exact hfollows.enums e (List.mem_reverse.mp he)

end Reader

end HeaderReflection
