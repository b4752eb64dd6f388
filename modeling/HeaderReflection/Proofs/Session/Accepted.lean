import HeaderReflection.Proofs.Derivation.Faults
import HeaderReflection.Proofs.Session.Order

/-! # What a session has read

A session adds to its program the headers that its reader accepts, and no others (`Session.HasRead`).

* Every header of the program is what the reader makes of some text, and every fault that was kept is what the
  reader says of some text.
* Reading a file keeps this, whether the file is accepted or refused, and so does reading many
  (`Session.HasRead.readFiles`).

So what is said of programs of accepted headers holds of a session that reads files and derives its program
for the first time.  A run of a fresh session reports paths that lead nowhere, faults of single headers, and
what can go wrong in a derivation (`Session.errors_of_run`); the last of these only if there are none of the
others. -/

namespace HeaderReflection.Session

variable {s u : Session} {x : Reader} {r q : ReadResult}

/-- The session has read its program and the faults of some result with the reader. -/
structure HasRead (s : Session) (x : Reader) (r : ReadResult) : Prop where
  reader : s.reader = x
  headers : ∀ h ∈ s.program.headers, ∃ text, x.read h.path text = .ok h
  faults : ∀ f ∈ r.faults, ∃ path text g, x.read path text = .error g ∧ f = inFile path g

namespace HasRead

theorem ofSettings (st : Settings) : (Session.ofSettings st).HasRead (.ofSettings st) {} :=
  ⟨rfl, fun _ hh => absurd hh List.not_mem_nil, fun _ hf => absurd hf List.not_mem_nil⟩

theorem isAccepted (hs : s.HasRead x r) : s.program.IsAccepted := by
  intro h hh
  obtain ⟨text, hread⟩ := hs.headers h hh
  exact ⟨x, text, hread⟩

theorem accept (hs : s.HasRead x r) {path : SourcePath} {text : String} {h : Header}
    (hread : s.readHeader path text = .ok (h, u)) : u.HasRead x { r with parsed := r.parsed ++ [h] } := by
  rw [readHeader_eq, hs.reader] at hread
  cases hk : x.read path text with
  | error e =>
      rw [hk] at hread
      cases hread
  | ok k =>
      rw [hk] at hread
      obtain ⟨rfl, rfl⟩ := Prod.mk.inj (Except.ok.inj hread)
      refine ⟨rfl, fun g hg => ?_, hs.faults⟩
      rcases Program.mem_insertHeader.mp hg with rfl | hg
      · exact ⟨text, Reader.read_path hk ▸ hk⟩
      · exact hs.headers g hg

theorem refuse (hs : s.HasRead x r) {path : SourcePath} {text : String} {f : Fault}
    (hread : s.readHeader path text = .error f) :
    s.HasRead x { r with faults := r.faults ++ [inFile path f] } := by
  rw [readHeader_eq, hs.reader] at hread
  cases hk : x.read path text with
  | ok k =>
      rw [hk] at hread
      cases hread
  | error e =>
      rw [hk] at hread
      obtain rfl := Except.error.inj hread
      refine ⟨hs.reader, hs.headers, fun g hg => ?_⟩
      rcases List.mem_append.mp hg with hg | hg
      · exact hs.faults g hg
      · exact ⟨path, text, e, hk, List.mem_singleton.mp hg⟩

theorem readFiles {t : FileTree} {ps : List SourcePath} (hs : s.HasRead x r)
    (h : Session.readFiles t s r ps = .ok (q, u)) : u.HasRead x q := by
  induction ps generalizing s r with
  | nil =>
      obtain ⟨rfl, rfl⟩ := Prod.mk.inj (Except.ok.inj h)
      exact hs
  | cons p ps ih =>
      unfold Session.readFiles at h
      split at h
      · cases h
      · split at h
        · rename_i k v hread
          exact ih (hs.accept hread) h
        · rename_i f hread
          split at h
          · cases h
          · exact ih (hs.refuse hread) h

end HasRead

/-! ### Runs -/

/-- What a run comes to: its files are read, and either there are errors of reading, or none and the program
is derived. -/
theorem run_eq_ok {t : FileTree} {σ : Schedule} {paths : Option (List SourcePath)} {r : RunResult}
    (h : s.run t σ paths = .ok (r, u)) :
    let d := s.discover t (paths.getD s.settings.files)
    ∃ q v, s.settings.hasWorkers = true ∧ readFiles t s {} d.found = .ok (q, v) ∧
      v.conclude σ d.found q.parsed (d.missing.map missingDiagnostic ++ q.faults.map .ofFault) = .ok (r, u) := by
  intro d
  unfold run at h
  dsimp only at h
  split at h
  · rename_i hworkers
    split at h
    · cases h
    · rename_i q v hfiles
      exact ⟨q, v, hworkers, hfiles, h⟩
  · cases h

/-- What the first run of a session reports as wrong are paths that lead nowhere and faults of headers by
themselves, or else what can go wrong in deriving a program of accepted headers. -/
theorem errors_of_run {st : Settings} {t : FileTree} {σ : Schedule} {paths : Option (List SourcePath)}
    {r : RunResult} (h : (ofSettings st).run t σ paths = .ok (r, u)) :
    (∀ d ∈ r.errors, (∃ p, d = missingDiagnostic p) ∨
      ∃ path text f, (Reader.ofSettings st).read path text = .error f ∧ d = .ofFault (inFile path f)) ∨
    ∀ d ∈ r.errors, ∃ f, DeriveFault f.cause ∧ d = .ofFault f := by
  obtain ⟨q, v, -, hfiles, hconclude⟩ := run_eq_ok h
  have hs := (HasRead.ofSettings st).readFiles hfiles
  obtain ⟨-, -, ⟨-, -, herrors, -⟩ | ⟨-, herrors⟩⟩ := conclude_eq_ok hconclude
  · refine .inr fun d hd => ?_
    rw [herrors] at hd
    obtain ⟨f, hf, rfl⟩ := List.mem_map.mp hd
    exact ⟨f, hs.isAccepted.deriveFault hf, rfl⟩
  · refine .inl fun d hd => ?_
    rw [herrors] at hd
    rcases List.mem_append.mp hd with hd | hd
    · obtain ⟨p, -, rfl⟩ := List.mem_map.mp hd
      exact .inl ⟨p, rfl⟩
    · obtain ⟨f, hf, rfl⟩ := List.mem_map.mp hd
      obtain ⟨path, text, g, hg, rfl⟩ := hs.faults f hf
      exact .inr ⟨path, text, g, hg, rfl⟩

end HeaderReflection.Session
