import HeaderReflection.Proofs.Source.Characters
import HeaderReflection.Proofs.Source.LineNumbers
import HeaderReflection.Proofs.Source.Steps

/-! # One header behind another

What has been read of a header matters to the lines behind it only through its last class, which a member
joins.  If that class is complete, whatever can be read on its own can be read behind it.

* What was read before is a list of classes and of enums, which stands in front of what is read on its own
  (`Reader.Progress.Behind`).  Neither access nor comments nor attributes of one class get into the next.
* Each declaration and each line is read behind it as it is on its own (`Reader.DeclareStep.behind`,
  `Reader.LineStep.behind`), and so are all lines (`Reader.runLines_behind`).
* The lines of the second text are further down by as many lines as the first one has, so its declarations are
  renumbered, with the identifiers that belong to the new lines.

So the text of one header behind that of another declares what both declare (`Reader.read_concat`).  The first
one may not leave comments behind, since they would be those of the next declaration. -/

namespace HeaderReflection

open Checked Text

/-- What has been read on its own, and what has been read when the given classes and enums had been read
before.  Only the visibility of members may differ, as long as there is no class for it to matter to. -/
def Progress.Behind (cs : List Class) (es : List Enumeration) (p q : Progress) : Prop :=
  ∃ a, q = { p with classes := p.classes ++ cs, enums := p.enums ++ es, access := a } ∧
    (p.classes ≠ [] → a = p.access)

namespace Reader

variable {r : Reader} {p q p' : Progress} {cs : List Class} {es : List Enumeration} {n : Nat}

/-! ### Steps -/

/-- Where a class is complete or there is none, all are complete. -/
theorem closed_append {ds : List Class} (hds : ∀ c ∈ ds.head?, c.bodyLine ≠ 0) (hcs : ∀ c ∈ cs.head?, c.bodyLine ≠ 0) :
    ∀ c ∈ (ds ++ cs).head?, c.bodyLine ≠ 0 := by
  cases ds with
  | nil => exact hcs
  | cons d ds => exact hds

/-- A declaration behind a marker is read as it is on its own: a member belongs to the last class, whatever was read
before. -/
theorem DeclareStep.behind {site : MarkerSite} {text : List Char} {kind : MarkerKind}
    (h : r.DeclareStep p site text kind p') (hclosed : ∀ c ∈ cs.head?, c.bodyLine ≠ 0) (hq : p.Behind cs es q) :
    ∃ q', r.DeclareStep q site text kind q' ∧ p'.Behind cs es q' := by
  obtain ⟨a, rfl, haccess⟩ := hq
  cases h with
  | @classType c hlast hc => exact ⟨_, .classType (closed_append hlast hclosed) hc, initialAccess c, rfl, fun _ => rfl⟩
  | body hclasses hbody => exact ⟨_, .body (congrArg (· ++ cs) hclasses) hbody, .everyone, rfl, fun _ => rfl⟩
  | field hclasses hbody hf =>
      obtain rfl := haccess (hclasses ▸ List.cons_ne_nil _ _)
      exact ⟨_, .field (congrArg (· ++ cs) hclasses) hbody hf, p.access, rfl, fun _ => rfl⟩
  | method hclasses hbody hm hd =>
      obtain rfl := haccess (hclasses ▸ List.cons_ne_nil _ _)
      exact ⟨_, .method (congrArg (· ++ cs) hclasses) hbody hm hd, p.access, rfl, fun _ => rfl⟩
  | opening hhead hopened => exact ⟨_, .opening hhead hopened, a, rfl, haccess⟩
  | enumType hhead hopened hrest he => exact ⟨_, .enumType hhead hopened hrest he, a, rfl, haccess⟩

theorem EnumLineStep.behind {body : EnumBody} {line : List Char} (h : r.EnumLineStep p body n line p')
    (hq : p.Behind cs es q) : ∃ q', r.EnumLineStep q body n line q' ∧ p'.Behind cs es q' := by
  obtain ⟨a, rfl, haccess⟩ := hq
  cases h with
  | closes hend => exact ⟨_, .closes hend, a, rfl, haccess⟩
  | idle hidle => exact ⟨_, .idle hidle, a, rfl, haccess⟩
  | list hline hbusy hmarker hlist hidle => exact ⟨_, .list hline hbusy hmarker hlist hidle, a, rfl, haccess⟩
  | marked hline hbusy hmarker hlist hrest hx =>
      exact ⟨_, .marked hline hbusy hmarker hlist hrest hx, a, rfl, haccess⟩
  | plain hline hbusy hmarker hx => exact ⟨_, .plain hline hbusy hmarker hx, a, rfl, haccess⟩

theorem LineStep.behind {line : List Char} (h : r.LineStep p n line p') (hclosed : ∀ c ∈ cs.head?, c.bodyLine ≠ 0)
    (hq : p.Behind cs es q) : ∃ q', r.LineStep q n line q' ∧ p'.Behind cs es q' := by
  have hsame := hq
  obtain ⟨a, rfl, haccess⟩ := hq
  cases h with
  | plain hmode hmarker hnone =>
      refine ⟨_, .plain hmode hmarker hnone, _, rfl, fun hne => ?_⟩
      rw [haccess hne]
  | marker hmode hmarker hlist hrest => exact ⟨_, .marker hmode hmarker hlist hrest, a, rfl, haccess⟩
  | oneLine hmode hmarker hlist hrest hp' =>
      obtain ⟨q', hq', hnext⟩ := hp'.behind hclosed
        (q := { p with classes := p.classes ++ cs, enums := p.enums ++ es, access := a, comments := [] })
        ⟨a, rfl, haccess⟩
      exact ⟨q', .oneLine hmode hmarker hlist hrest hq', hnext⟩
  | declaration hmode hp' =>
      obtain ⟨q', hq', hnext⟩ := hp'.behind hclosed hsame
      exact ⟨q', .declaration hmode hq', hnext⟩
  | brace hmode hbrace hrest he => exact ⟨_, .brace hmode hbrace hrest he, a, rfl, haccess⟩
  | enumLine hmode hp' =>
      obtain ⟨q', hq', hnext⟩ := hp'.behind hsame
      exact ⟨q', .enumLine hmode hq', hnext⟩

/-! ### Whole texts -/

theorem runLines_behind (hclosed : ∀ c ∈ cs.head?, c.bodyLine ≠ 0) (hq : p.Behind cs es q) (n : Nat)
    (ls : List String) : Leads (Progress.Behind cs es) (r.runLines p n ls) (r.runLines q n ls) :=
  runLines_leads (fun hq h => h.behind hclosed hq) hq n ls

theorem finish_behind (hclosed : ∀ c ∈ cs.head?, c.bodyLine ≠ 0) (hq : p.Behind cs es q) :
    Leads (fun h k => k = ⟨h.path, cs.reverse ++ h.classes, es.reverse ++ h.enums⟩) (r.finish p) (r.finish q) := by
  intro h hp
  obtain ⟨hmode, hlast, rfl⟩ := finish_eq_ok.mp hp
  obtain ⟨a, rfl, -⟩ := hq
  refine ⟨_, finish_eq_ok.mpr ⟨hmode, closed_append hlast hclosed, rfl⟩, ?_⟩
  rw [List.reverse_append, List.reverse_append]

/-- Of two headers that are accepted, the text of one behind that of the other is accepted and declares what
both declare, the second one as many lines further down as the first one has.  Only a comment that the first
one ends with, and that is about nothing in it, would get into the second. -/
theorem read_concat {path : SourcePath} {s t u : String} {g h : Header} (hs : r.read path s = .ok g)
    (ht : r.read path t = .ok h) (hthrough : r.ReadsThrough path (Text.lines s))
    (hu : Text.lines u = Text.lines s ++ Text.lines t) :
    r.read path u = .ok ⟨path, g.classes ++ (h.renumber (lineBehind 0 (Text.lines s).length)).classes,
      g.enums ++ (h.renumber (lineBehind 0 (Text.lines s).length)).enums⟩ := by
  obtain ⟨hdefaults, p, hp, hg⟩ := read_eq_ok.mp hs
  obtain ⟨-, q, hq, hh⟩ := read_eq_ok.mp ht
  obtain ⟨p', hp', hmode, hcomments⟩ := hthrough
  obtain rfl := Except.ok.inj (hp'.symm.trans hp)
  obtain ⟨-, hclosed, rfl⟩ := finish_eq_ok.mp hg
  have hpath : p'.path = path := read_path hs
  -- the second text at its new lines, on its own
  have hzero := lineBehind_eq_zero_iff 0 (Text.lines s).length
  obtain ⟨_, hrenumbered, -, rfl⟩ := (runLines_renumber (m := 1 + (Text.lines s).length) hzero (.start path)
    fun i _ => (lineBehind_of_lt (by omega)).trans (Nat.add_right_comm 1 i _)).leads q hq
  obtain ⟨_, hfinish, rfl⟩ := (finish_renumber hzero).leads h hh
  -- and behind the first one
  have hstart : ({ path } : Progress).Behind p'.classes p'.enums p' := by
    refine ⟨p'.access, ?_, fun hne => absurd rfl hne⟩
    rw [← hpath, ← hcomments, ← hmode]
    rfl
  obtain ⟨q', hq', hbehind⟩ := runLines_behind hclosed hstart _ _ _ hrenumbered
  obtain ⟨_, hfinished, rfl⟩ := finish_behind hclosed hbehind _ hfinish
  refine read_eq_ok.mpr ⟨hdefaults, q', ?_, ?_⟩
  · rw [hu, runLines_append, hp]
    exact hq'
  · rw [hfinished, ← read_path ht]
    rfl

/-- A struct with a public member behind one whose last label is private. -/
theorem read_concat_class :
    ∃ g h, (Reader.ofSettings {}).read ⟨.relative, ["Unit.h"]⟩
        "RClass()\nstruct Unit \x7b\nRBody();\nprivate:\n\x7d;" = .ok g ∧
      (Reader.ofSettings {}).read ⟨.relative, ["Unit.h"]⟩
        "RClass()\nstruct Node \x7b\nRBody();\nRField() int Hp;\n\x7d;" = .ok h ∧
      (Reader.ofSettings {}).ReadsThrough ⟨.relative, ["Unit.h"]⟩
        (Text.lines "RClass()\nstruct Unit \x7b\nRBody();\nprivate:\n\x7d;") ∧
      (Reader.ofSettings {}).read ⟨.relative, ["Unit.h"]⟩
          ("RClass()\nstruct Unit \x7b\nRBody();\nprivate:\n\x7d;\n" ++
            "RClass()\nstruct Node \x7b\nRBody();\nRField() int Hp;\n\x7d;") =
        .ok ⟨⟨.relative, ["Unit.h"]⟩, g.classes ++ (h.renumber (lineBehind 0 5)).classes,
          g.enums ++ (h.renumber (lineBehind 0 5)).enums⟩ := by
  have hfirst : ((Reader.ofSettings {}).read ⟨.relative, ["Unit.h"]⟩
      "RClass()\nstruct Unit \x7b\nRBody();\nprivate:\n\x7d;").toOption.isSome = true := by
    rw [read_ofList]
    decide +kernel
  have hsecond : ((Reader.ofSettings {}).read ⟨.relative, ["Unit.h"]⟩
      "RClass()\nstruct Node \x7b\nRBody();\nRField() int Hp;\n\x7d;").toOption.isSome = true := by
    rw [read_ofList]
    decide +kernel
  have hthrough : (Reader.ofSettings {}).ReadsThrough ⟨.relative, ["Unit.h"]⟩
      (Text.lines "RClass()\nstruct Unit \x7b\nRBody();\nprivate:\n\x7d;") := by
    rw [Text.lines_ofList]
    decide +kernel
  have hlines : (Text.lines "RClass()\nstruct Unit \x7b\nRBody();\nprivate:\n\x7d;").length = 5 := by
    rw [Text.lines_ofList]
    rfl
  obtain ⟨g, hg⟩ := Option.isSome_iff_exists.mp hfirst
  obtain ⟨h, hh⟩ := Option.isSome_iff_exists.mp hsecond
  have hg := toOption_eq_some.mp hg
  have hh := toOption_eq_some.mp hh
  have hconcat := read_concat hg hh hthrough
    (u := "RClass()\nstruct Unit \x7b\nRBody();\nprivate:\n\x7d;\n" ++
      "RClass()\nstruct Node \x7b\nRBody();\nRField() int Hp;\n\x7d;") (by
    rw [Text.lines_ofList_append, Text.lines_ofList, Text.lines_ofList]
    rfl)
  rw [hlines] at hconcat
  exact ⟨g, h, hg, hh, hthrough, hconcat⟩

end Reader

end HeaderReflection
