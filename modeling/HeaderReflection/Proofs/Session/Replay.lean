import HeaderReflection.Proofs.Derivation.Locality
import HeaderReflection.Proofs.Derivation.Rederivation
import HeaderReflection.Proofs.Session.Order

/-! # Sessions step by step

A session may read headers, take other settings, and derive its program as often as it likes, in any order
(`Session.Step`).  A derivation takes place under any schedule, and may be interrupted behind any of the
classes.

Whatever the session has done, all that was made from the classes of its program is tracked
(`Session.IsTracked`):

* of a class that was just read nothing is made yet;
* deriving a class adds what it makes to what was made before, whether it goes well or not, so a program is
  tracked after a derivation to the end and after one that was interrupted (`Session.IsTracked.derive`);
* every step keeps this (`Session.IsTracked.perform`), and so does every sequence of steps
  (`Session.isTracked_replay`). -/

namespace HeaderReflection

/-! ### The classes of a program -/

namespace Program

theorem mem_classes_insert {p : Program} {h : Header} {c : Class} :
    c ∈ (p.insert h).classes ↔ c ∈ h.classes ∨ c ∈ p.classes := by
  simp only [classes, insert, List.mem_flatMap, mem_insertHeader]
  constructor
  · rintro ⟨g, rfl | hg, hc⟩
    · exact .inl hc
    · exact .inr ⟨g, hg, hc⟩
  · rintro (hc | ⟨g, hg, hc⟩)
    · exact ⟨h, .inl rfl, hc⟩
    · exact ⟨g, .inr hg, hc⟩

theorem mem_classes_derived {st : Settings} {p : Program} {d : Class} :
    d ∈ (p.derived st).classes ↔ ∃ c ∈ p.classes, d = (c.derive (p.planContext st)).result := by
  simp only [classes, derived, List.mem_flatMap, List.mem_map]
  constructor
  · rintro ⟨_, ⟨h, hh, rfl⟩, hd⟩
    obtain ⟨c, hc, rfl⟩ := List.mem_map.mp hd
    exact ⟨c, ⟨h, hh, hc⟩, rfl⟩
  · rintro ⟨c, ⟨h, hh, hc⟩, rfl⟩
    exact ⟨_, ⟨h, hh, rfl⟩, List.mem_map_of_mem hc⟩

/-- What is kept by deriving a class holds of all classes after deriving some of them. -/
theorem forall_classes_derivedAt {P : Class → Prop} {st : Settings} {p : Program}
    (hderive : ∀ c, P c → P (c.derive (p.planContext st)).result) (hp : ∀ c ∈ p.classes, P c)
    (positions : List Nat) : ∀ c ∈ (p.derivedAt st positions).classes, P c := by
  have hall : ∀ q : Program, (∀ c ∈ q.classes, P c) → ∀ c ∈ (positions.foldl (fun q i =>
      q.modifyClass i fun c => (c.derive (p.planContext st)).result) q).classes, P c := by
    induction positions with
    | nil => exact fun q hq => hq
    | cons i positions ih =>
        refine fun q hq => ih _ fun c hc => ?_
        rw [classes_modifyClass] at hc
        obtain ⟨k, hk⟩ := List.mem_iff_getElem?.mp hc
        rw [List.getElem?_modify] at hk
        obtain ⟨d, hd, rfl⟩ := Option.map_eq_some_iff.mp hk
        have hPd := hq d (List.mem_of_getElem? hd)
        split
        · exact hderive d hPd
        · exact hPd
  exact hall p hp

end Program

/-! ### Steps -/

namespace Session

/-- What can be done with a session. -/
inductive Step where
  /-- Reads a text as a header with the given path. -/
  | read (path : SourcePath) (text : String)
  /-- Goes on with other settings. -/
  | configure (t : Settings)
  /-- Goes on with a fresh reader, which answers to the markers of the present settings. -/
  | reopen
  /-- Derives the program under a schedule. -/
  | derive (σ : Schedule)

/-- Takes a step; a header that is not accepted changes nothing. -/
def perform (s : Session) : Step → Session
  | .read path text =>
    match s.readHeader path text with
    | .ok (_, t) => t
    | .error _ => s
  | .configure t => s.withSettings t
  | .reopen => { s with reader := .ofSettings s.settings }
  | .derive σ => (s.derive σ).2

/-- Takes steps in order. -/
def replay (s : Session) (steps : List Step) : Session := steps.foldl perform s

/-- What was made from the classes of the program is tracked. -/
def IsTracked (s : Session) : Prop := ∀ c ∈ s.program.classes, ∃ all, c.Tracks all

variable {s : Session}

namespace IsTracked

theorem ofSettings (st : Settings) : (Session.ofSettings st).IsTracked := fun _ hc => absurd hc List.not_mem_nil

theorem readHeader (hs : s.IsTracked) {path : SourcePath} {text : String} {h : Header} {t : Session}
    (hread : s.readHeader path text = .ok (h, t)) : t.IsTracked := by
  rw [readHeader_eq] at hread
  cases hr : s.reader.read path text with
  | error e =>
      rw [hr] at hread
      cases hread
  | ok g =>
      rw [hr] at hread
      obtain ⟨rfl, rfl⟩ := Prod.mk.inj (Except.ok.inj hread)
      intro c hc
      rcases Program.mem_classes_insert.mp hc with hc | hc
      · exact ⟨[], .ofRead (Reader.readFrom_of_mem_classes hr hc) (Reader.isDeclared_of_mem_read hr hc)⟩
      · exact hs c hc

/-- Deriving keeps track of every class, whether it goes well or not, and whether it is interrupted or not. -/
theorem derive (hs : s.IsTracked) (σ : Schedule) : (s.derive σ).2.IsTracked := by
  have hclass : ∀ c : Class, (∃ all, c.Tracks all) →
      ∃ all, (c.derive (s.program.planContext s.settings)).result.Tracks all := by
    rintro c ⟨all, hall⟩
    obtain ⟨more, hmore⟩ := hall.derive (s.program.planContext s.settings)
    exact ⟨all ++ more, hmore⟩
  unfold Session.derive
  split
  · split
    · exact Program.forall_classes_derivedAt hclass hs _
    · intro d hd
      obtain ⟨c, hc, rfl⟩ := Program.mem_classes_derived.mp hd
      exact hclass c (hs c hc)
  · exact hs

theorem perform (hs : s.IsTracked) (step : Step) : (s.perform step).IsTracked := by
  cases step with
  | read path text =>
      unfold Session.perform
      dsimp only
      cases hread : s.readHeader path text with
      | ok r => exact hs.readHeader hread
      | error f => exact hs
  | configure t => exact hs
  | reopen => exact hs
  | derive σ => exact hs.derive σ

end IsTracked

/-- A session that has done whatever it likes keeps track. -/
theorem isTracked_replay (hs : s.IsTracked) (steps : List Step) : (s.replay steps).IsTracked := by
  induction steps generalizing s with
  | nil => exact hs
  | cons step steps ih => exact ih (hs.perform step)

/-- Whatever a session has done, no artificial method stands twice in a class, nor are two of them made from one
declaration in one role.  Each was made from the class or from one of its members, and stands under exactly
one role in the map of that declaration. -/
theorem artificialMethods_registered_once (st : Settings) (steps : List Step) {c : Class}
    (hc : c ∈ ((ofSettings st).replay steps).program.classes) :
    c.artificialMethods.Nodup ∧ (c.artificialMethods.map Method.key?).Nodup ∧
      ∀ m ∈ c.artificialMethods, ∃ o, m.synthesis = some o ∧ c.HasOrigin o.origin ∧
        ∃! role, (c.madeFrom o.origin).get? role = some m.link := by
  obtain ⟨all, hall⟩ := isTracked_replay (.ofSettings st) steps c hc
  have hkeys := hall.nodup_key
  exact ⟨hkeys.of_map Method.key?, hkeys, fun m hm => hall.existsUnique_role hm⟩

/-- A singleton with a field of flags that is derived again under other settings still has each method once. -/
theorem artificialMethods_registered_once_rederived :
    let steps : List Step :=
      [.read ⟨.relative, ["Unit.h"]⟩
          "RClass(Singleton)\nclass Unit \x7b\nRBody();\npublic:\nRField(Flags = Color)\nint mColors;\n\x7d;",
        .read ⟨.relative, ["Color.h"]⟩ "REnum()\nenum Color \x7b\nRed,\n\x7d;", .derive {},
        .configure { names := { getter := "Read" } }, .derive {}]
    ∃ c ∈ ((ofSettings {}).replay steps).program.classes,
      c.artificialMethods.map (·.name) =
          ["SingletonInstance", "GetColors", "SetColors", "IsRed", "SetRed", "UnsetRed", "ToggleRed"] ∧
        c.artificialMethods.Nodup := by
  intro steps
  have hrun : ((ofSettings {}).replay steps).program.classes.any (fun c =>
      c.artificialMethods.map (·.name) ==
        ["SingletonInstance", "GetColors", "SetColors", "IsRed", "SetRed", "UnsetRed", "ToggleRed"]) = true := by
    decide +kernel
  obtain ⟨c, hc, hnames⟩ := List.any_eq_true.mp hrun
  exact ⟨c, hc, beq_iff_eq.mp hnames, (artificialMethods_registered_once {} steps hc).1⟩

end Session

end HeaderReflection
