import HeaderReflection.Proofs.Source.Order

/-! # The body markers of a header

A class has a marker of its own and one more where its body begins.  The second one stands in the body, behind
the brace, and the members of the class are read only behind it.

* A line is taken for a marker only between declarations, and then it begins with the marker
  (`Reader.ReadsMarker`).
* The declaration of a body marker opens the body of the last class, and no other declaration does so
  (`Reader.DeclareStep.hasBody`).
* Every body marker that is read gives a class its body, and no class has one from elsewhere
  (`Reader.hasBody_iff`).

This is an invariant of the loop over lines, in which the classes that were read and the body marker that may
be waiting for its declaration are taken together (`Reader.Progress.HasBody`). -/

namespace HeaderReflection

open Checked Text

/-! ### Markers and bodies -/

namespace Reader

/-- With the lines above it read, no declaration is awaited at the line, which begins with a marker of the
kind. -/
def ReadsMarker (r : Reader) (path : SourcePath) (lines : List String) (n : Nat) (kind : MarkerKind) : Prop :=
  ∃ p line name behind, r.runLines { path } 1 (lines.take (n - 1)) = .ok p ∧ p.mode = .between ∧
    lineAt? lines n = some line ∧ r.markers.find? line = some (name, kind, behind)

end Reader

/-- One of the classes has its body marker at the line. -/
def OpensAt (cs : List Class) (n : Nat) : Prop := ∃ c ∈ cs, c.bodyLine = n

/-- A body marker was read at the line: it is that of a class, or a line is still awaited behind it. -/
def Progress.HasBody (p : Progress) (n : Nat) : Prop :=
  OpensAt p.classes n ∨ ∃ site, p.mode = .declaration .body site ∧ site.line = n

section OpensAt

variable {c : Class} {cs : List Class} {n m : Nat}

theorem opensAt_cons : OpensAt (c :: cs) n ↔ c.bodyLine = n ∨ OpensAt cs n := by
  simp [OpensAt]

theorem opensAt_cons_of_unopened (hbody : c.bodyLine = 0) (hm : m ≠ 0) :
    OpensAt (c :: cs) m ↔ OpensAt cs m := by
  rw [opensAt_cons, hbody]
  exact or_iff_right hm.symm

end OpensAt

namespace Reader

variable {r : Reader} {path : SourcePath} {lines : List String} {p q : Progress} {n m : Nat}

/-! ### Lines -/

theorem hasBody_iff_opensAt (hmode : ∀ site, p.mode ≠ .declaration .body site) :
    p.HasBody m ↔ OpensAt p.classes m := by
  unfold Progress.HasBody
  refine or_iff_left ?_
  rintro ⟨site, hsite, -⟩
  exact hmode site hsite

/-- The declaration of a body marker opens the body of a class, and no other one does. -/
theorem DeclareStep.hasBody {kind : MarkerKind} {site : MarkerSite} {text : List Char}
    (h : r.DeclareStep p site text kind q) (hm : m ≠ 0) :
    q.HasBody m ↔ OpensAt p.classes m ∨ kind = .body ∧ site.line = m := by
  cases h with
  | @classType c _ hc =>
      refine Iff.trans (hasBody_iff_opensAt nofun) ?_
      rw [opensAt_cons_of_unopened (classOf_unopened site text c hc) hm]
      simp
  | body hclasses hbody =>
      refine Iff.trans (hasBody_iff_opensAt nofun) ?_
      rw [hclasses, opensAt_cons_of_unopened hbody hm, opensAt_cons]
      simp [or_comm]
  | field hclasses =>
      refine Iff.trans (hasBody_iff_opensAt nofun) ?_
      rw [hclasses, opensAt_cons, opensAt_cons]
      simp
  | @method c d _ k hclasses _ _ hd =>
      obtain ⟨ps, rfl⟩ := claimProperties_yields c k d hd
      refine Iff.trans (hasBody_iff_opensAt nofun) ?_
      rw [hclasses, opensAt_cons, opensAt_cons]
      simp
  | opening =>
      refine Iff.trans (hasBody_iff_opensAt nofun) ?_
      simp
  | enumType =>
      refine Iff.trans (hasBody_iff_opensAt nofun) ?_
      simp

theorem EnumLineStep.classes_eq {body : EnumBody} {line : List Char} (h : r.EnumLineStep p body n line q) :
    q.classes = p.classes ∧ ∀ kind site, q.mode ≠ .declaration kind site := by
  cases h
  all_goals exact ⟨rfl, nofun⟩

theorem LineStep.hasBody {line : List Char} (h : r.LineStep p n line q) (hm : m ≠ 0) :
    q.HasBody m ↔ p.HasBody m ∨
      n = m ∧ p.mode = .between ∧ ∃ name behind, r.markers.find? line = some (name, .body, behind) := by
  -- What is read between declarations awaits nothing, and adds what the line is taken for.
  have hfound : ∀ {name kind behind}, p.mode = .between → r.markers.find? line = some (name, kind, behind) →
      ((OpensAt p.classes m ∨ kind = .body ∧ n = m) ↔ p.HasBody m ∨
        n = m ∧ p.mode = .between ∧ ∃ name behind, r.markers.find? line = some (name, .body, behind)) := by
    intro name kind behind hmode hmarker
    rw [hasBody_iff_opensAt (p := p) (hmode ▸ nofun), hmarker, hmode]
    simp only [Option.some.injEq, Prod.mk.injEq, true_and]
    refine or_congr Iff.rfl ⟨?_, ?_⟩
    · rintro ⟨rfl, hn⟩
      exact ⟨hn, name, behind, rfl, rfl, rfl⟩
    · rintro ⟨hn, _, _, _, hkind, _⟩
      exact ⟨hkind, hn⟩
  cases h with
  | plain hmode hmarker =>
      have hbetween : ∀ site, p.mode ≠ .declaration .body site := hmode ▸ nofun
      refine Iff.trans (hasBody_iff_opensAt hbetween) ?_
      rw [hasBody_iff_opensAt hbetween, hmarker]
      simp
  | marker hmode hmarker =>
      rw [← hfound hmode hmarker]
      unfold Progress.HasBody
      refine or_congr Iff.rfl ⟨?_, ?_⟩
      · rintro ⟨site, hsite, rfl⟩
        obtain ⟨rfl, rfl⟩ := LineMode.declaration.inj hsite
        exact ⟨rfl, rfl⟩
      · rintro ⟨rfl, rfl⟩
        exact ⟨_, rfl, rfl⟩
  | oneLine hmode hmarker _ _ hq => exact (hq.hasBody hm).trans (hfound hmode hmarker)
  | declaration hmode hq =>
      rw [hq.hasBody hm]
      unfold Progress.HasBody
      simp only [hmode, LineMode.declaration.injEq, reduceCtorEq, false_and, and_false, or_false]
      refine or_congr Iff.rfl ⟨?_, ?_⟩
      · rintro ⟨rfl, rfl⟩
        exact ⟨_, ⟨rfl, rfl⟩, rfl⟩
      · rintro ⟨_, ⟨rfl, rfl⟩, hline⟩
        exact ⟨rfl, hline⟩
  | brace hmode =>
      refine Iff.trans (hasBody_iff_opensAt nofun) ?_
      rw [hasBody_iff_opensAt (p := p) (hmode ▸ nofun), hmode]
      simp
  | enumLine hmode hq =>
      obtain ⟨hclasses, hnext⟩ := hq.classes_eq
      rw [hasBody_iff_opensAt (hnext .body), hasBody_iff_opensAt (p := p) (hmode ▸ nofun), hclasses, hmode]
      simp

/-! ### Runs -/

theorem exists_readLine_of_take {k : Nat} (hk : k < lines.length)
    (h : r.runLines { path } 1 (lines.take (k + 1)) = .ok q) :
    ∃ p, r.runLines { path } 1 (lines.take k) = .ok p ∧
      r.readLine p (k + 1) (trim lines[k].toList) = .ok q := by
  rw [← List.take_append_getElem hk, runLines_append] at h
  cases hp : r.runLines { path } 1 (lines.take k) with
  | error e =>
      rw [hp] at h
      cases h
  | ok p =>
      rw [hp] at h
      obtain ⟨q', hq, hrest⟩ := bind_eq_ok.mp (show r.runLines p _ _ = .ok q from h)
      obtain rfl : q' = q := Except.ok.inj hrest
      have hlength : (lines.take k).length = k := List.length_take_of_le (Nat.le_of_lt hk)
      rw [hlength, Nat.add_comm 1 k] at hq
      exact ⟨p, rfl, placedAt_eq_ok.mp hq⟩

theorem hasBody_iff {k : Nat} (hk : k ≤ lines.length) (h : r.runLines { path } 1 (lines.take k) = .ok q)
    (hm : m ≠ 0) : q.HasBody m ↔ m ≤ k ∧ r.ReadsMarker path lines m .body := by
  induction k generalizing q with
  | zero =>
      obtain rfl : ({ path } : Progress) = q := Except.ok.inj h
      refine Iff.trans (hasBody_iff_opensAt nofun) ?_
      refine ⟨fun ⟨c, hc, _⟩ => absurd hc List.not_mem_nil, fun ⟨hle, _⟩ => absurd (Nat.le_zero.mp hle) hm⟩
  | succ k ih =>
      obtain ⟨p, hp, hline⟩ := exists_readLine_of_take hk h
      have hat : lineAt? lines (k + 1) = some (trim lines[k].toList) := by
        simp [lineAt?, List.getElem?_eq_getElem (show k < lines.length from hk)]
      have hreads : r.ReadsMarker path lines (k + 1) .body ↔
          p.mode = .between ∧ ∃ name behind,
            r.markers.find? (trim lines[k].toList) = some (name, .body, behind) := by
        unfold ReadsMarker
        rw [hat, Nat.add_sub_cancel, hp]
        constructor
        · rintro ⟨p', line, name, behind, hp', hmode, hline, hmarker⟩
          obtain rfl := Except.ok.inj hp'
          obtain rfl := Option.some.inj hline
          exact ⟨hmode, name, behind, hmarker⟩
        · rintro ⟨hmode, name, behind, hmarker⟩
          exact ⟨p, _, name, behind, rfl, hmode, rfl, hmarker⟩
      rw [(readLine_eq_ok.mp hline).hasBody hm, ih (Nat.le_of_succ_le hk) hp, ← hreads]
      constructor
      · rintro (⟨hle, hmarker⟩ | ⟨rfl, hmarker⟩)
        · exact ⟨Nat.le_succ_of_le hle, hmarker⟩
        · exact ⟨Nat.le_refl _, hmarker⟩
      · rintro ⟨hle, hmarker⟩
        rcases Nat.lt_or_eq_of_le hle with hlt | rfl
        · exact .inl ⟨Nat.le_of_lt_succ hlt, hmarker⟩
        · exact .inr ⟨rfl, hmarker⟩

end Reader

end HeaderReflection
