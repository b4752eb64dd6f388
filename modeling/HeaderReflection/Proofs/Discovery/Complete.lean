import HeaderReflection.Proofs.Discovery
import Mathlib.Data.List.Induction
import Mathlib.Data.Nat.Find

/-! # Everything that is listed is found, once and in order

The paths of a configuration list files and directories of a tree.  Discovery walks through them in their
order, takes from each the files with a suffix that the settings name, and leaves out what an earlier path has
brought.

* Which file a path leads to is decided by what it resolves to (`FileTree.resolve_of_locate?`), so that two
  spellings of one path are told to be the same.  This takes a tree whose parts are names, that is, are no
  dots (`FileTree.IsTree`).
* A listed path brings files (`Discovery.Brings`): the one that it leads to, or those with a suffix in the
  directory that it leads to, deeper ones only if the settings say so.
* Just these are found, each of them once; those that an earlier path brings come first, and those that one
  path brings come in the order of paths (`Discovery.ListedBefore`).  This is an induction on the listed
  paths, whose step adds what one path brings (`Discovery.Collects.add`).
* What was found is found again as it stands, if it is listed itself.

All of this is `Discovery.ofPaths_complete`, which also counts the errors: one for each path that leads
nowhere. -/

namespace HeaderReflection

/-! ### Places -/

namespace SourcePath

theorem settle_append {ps : List String} (h : ".." ∉ ps) (settled qs : List String) :
    settle settled (ps ++ qs) = settle (ps.reverse ++ settled) qs := by
  induction ps generalizing settled with
  | nil => rfl
  | cons p ps ih =>
      rw [List.mem_cons, not_or] at h
      obtain ⟨hp, hps⟩ := h
      rw [List.cons_append, settle, if_neg (Ne.symm hp), ih hps, List.reverse_cons, List.append_assoc,
        List.singleton_append]

end SourcePath

namespace FileTree

variable {t : FileTree} {p : SourcePath} {parts : List String}

/-- A tree of files: neither the current directory nor a file has two dots for a part of its path, and no file is a
directory. -/
structure IsTree (t : FileTree) : Prop where
  cwd : ".." ∉ t.cwd.parts
  named : t.IsNamed
  apart : ∀ f ∈ t.files, t.hasDirectory f.1 = false

theorem settle_of_walk {directory ps : List String} (h : t.walk directory ps = some parts) :
    SourcePath.settle directory.reverse ps = parts := by
  induction ps generalizing directory with
  | nil =>
      obtain rfl := Option.some.inj h
      exact List.reverse_reverse directory
  | cons p ps ih =>
      unfold walk at h
      split at h
      · unfold SourcePath.settle
        by_cases hp : p = ".."
        · rw [if_pos hp] at h ⊢
          rw [← ih h, List.tail_reverse]
        · rw [if_neg hp] at h ⊢
          rw [← ih h, List.reverse_append]
          rfl
      · cases h

/-- A path that leads somewhere leads to what it resolves to. -/
theorem resolve_of_locate? (ht : t.IsTree) (h : t.locate? p = some parts) : t.cwd.resolve p = ⟨.absolute, parts⟩ := by
  unfold locate? at h
  unfold SourcePath.resolve
  have hjoin : t.cwd / p = if p.isAbsolute then p else { t.cwd with parts := t.cwd.parts ++ p.parts } := rfl
  rw [hjoin]
  congr 1
  split at h
  · rename_i habsolute
    rw [if_pos habsolute]
    exact settle_of_walk h
  · rename_i habsolute
    rw [if_neg habsolute, SourcePath.settle_append ht.cwd, List.append_nil]
    exact settle_of_walk h

theorem isFile_iff : t.isFile p = true ↔ ∃ parts, t.locate? p = some parts ∧ (t.content? parts).isSome = true := by
  unfold isFile read?
  cases t.locate? p with
  | none => simp
  | some parts => simp

theorem isDirectory_iff : t.isDirectory p = true ↔ ∃ parts, t.locate? p = some parts ∧ t.hasDirectory parts = true := by
  unfold isDirectory
  cases t.locate? p with
  | none => simp
  | some parts => simp

theorem isSome_content?_iff : (t.content? parts).isSome = true ↔ ∃ f ∈ t.files, f.1 = parts := by
  constructor
  · intro h
    obtain ⟨f, hf, hparts⟩ := List.lookup_isSome_iff.mp h
    exact ⟨f, hf, (beq_iff_eq.mp hparts).symm⟩
  · rintro ⟨f, hf, rfl⟩
    exact isSome_content? hf

theorem IsTree.isDirectory_eq_false (ht : t.IsTree) (h : t.isFile p = true) : t.isDirectory p = false := by
  obtain ⟨parts, hparts, hfile⟩ := isFile_iff.mp h
  obtain ⟨f, hf, rfl⟩ := isSome_content?_iff.mp hfile
  unfold isDirectory
  rw [hparts]
  exact ht.apart f hf

end FileTree

/-! ### The order of paths -/

namespace SourcePath

variable {p q r : SourcePath}

theorem before_iff : p.before q = true ↔ ¬List.lt q.parts p.parts := by
  unfold before
  rw [Bool.not_eq_true', ← Bool.not_eq_true, List.lex_eq_true_iff_lt]
  exact Iff.rfl

theorem before_total (p q : SourcePath) : p.before q = true ∨ q.before p = true := by
  rw [before_iff, before_iff]
  exact List.le_total p.parts q.parts

theorem before_trans (hpq : p.before q = true) (hqr : q.before r = true) : p.before r = true := by
  rw [before_iff] at *
  exact List.le_trans hpq hqr

end SourcePath

namespace Discovery

variable {s : Settings} {t : FileTree} {p q : SourcePath} {ps qs found : List SourcePath} {parts : List String}

theorem pairwise_insertPath (h : qs.Pairwise (·.before ·)) (p : SourcePath) :
    (insertPath p qs).Pairwise (·.before ·) := by
  induction qs with
  | nil => exact List.pairwise_singleton _ p
  | cons q qs ih =>
      obtain ⟨hq, hqs⟩ := List.pairwise_cons.mp h
      unfold insertPath
      split
      · rename_i hpq
        refine List.pairwise_cons.mpr ⟨List.forall_mem_cons.mpr ⟨hpq, fun r hr => ?_⟩, h⟩
        exact SourcePath.before_trans hpq (hq r hr)
      · rename_i hpq
        refine List.pairwise_cons.mpr ⟨fun r hr => ?_, ih hqs⟩
        rcases mem_insertPath.mp hr with rfl | hr
        · exact (SourcePath.before_total q r).resolve_right hpq
        · exact hq r hr

theorem pairwise_sortPaths (ps : List SourcePath) : (sortPaths ps).Pairwise (·.before ·) := by
  induction ps with
  | nil => exact .nil
  | cons p ps ih => exact pairwise_insertPath ih p

/-! ### What a path brings -/

/-- A listed path brings a file: it leads to the file, whatever the suffix is, or it leads to a directory that holds the
file, at any depth if the settings say so, and the settings name the suffix. -/
inductive Brings (s : Settings) (t : FileTree) (p : SourcePath) : List String → Prop
  | file (hp : t.isFile p = true) : Brings s t p (t.cwd.resolve p).parts
  | directory (hp : t.isDirectory p = true) {rest : List String}
      (hdepth : rest.length = 1 ∨ s.recursive = true ∧ rest ≠ [])
      (hfile : (t.content? ((t.cwd.resolve p).parts ++ rest)).isSome = true)
      (hsuffix : (⟨.absolute, (t.cwd.resolve p).parts ++ rest⟩ : SourcePath).suffix ∈ s.extensions) :
      Brings s t p ((t.cwd.resolve p).parts ++ rest)

theorem suffix_append {root root' : PathRoot} (front front' : List String) {rest : List String} (h : rest ≠ []) :
    (⟨root, front ++ rest⟩ : SourcePath).suffix = (⟨root', front' ++ rest⟩ : SourcePath).suffix := by
  have hname : ∀ (root : PathRoot) (front : List String),
      (⟨root, front ++ rest⟩ : SourcePath).name = rest.getLastD "" := by
    intro root front
    unfold SourcePath.name
    rw [List.getLastD_eq_getLast?, List.getLastD_eq_getLast?, List.getLast?_append_of_ne_nil _ h]
  unfold SourcePath.suffix
  rw [hname, hname]

/-- The files that a directory brings are those that it holds whose suffix the settings name. -/
theorem resolve_filesIn (ht : t.IsTree) (hp : t.isDirectory p = true) (parts : List String) :
    (∃ q ∈ t.filesIn s.recursive p, q.suffix ∈ s.extensions ∧ t.cwd.resolve q = ⟨.absolute, parts⟩) ↔
      Brings s t p parts := by
  obtain ⟨directory, hdirectory, -⟩ := FileTree.isDirectory_iff.mp hp
  have hresolve := FileTree.resolve_of_locate? ht hdirectory
  have hbelow : ∀ {f : List String × FileContent} {rest}, f ∈ t.files → f.1 = directory ++ rest →
      t.cwd.resolve { p with parts := p.parts ++ rest } = ⟨.absolute, directory ++ rest⟩ := by
    intro f rest hf hpath
    have hdots : ".." ∉ rest := fun h => ht.named f hf (hpath ▸ List.mem_append_right directory h)
    rw [← hpath]
    exact FileTree.resolve_of_locate? ht (FileTree.locate?_below hdirectory hf hpath hdots)
  have hsuffixes : ∀ {rest : List String}, rest.length = 1 ∨ s.recursive = true ∧ rest ≠ [] →
      ({ p with parts := p.parts ++ rest } : SourcePath).suffix =
        (⟨.absolute, directory ++ rest⟩ : SourcePath).suffix := by
    intro rest hdepth
    exact suffix_append p.parts directory
      (hdepth.elim (fun hlength => List.ne_nil_of_length_pos (hlength ▸ Nat.one_pos)) And.right)
  constructor
  · rintro ⟨q, hq, hsuffix, hplace⟩
    obtain ⟨_, rest, hd, ⟨f, hf, hpath⟩, hdepth, rfl⟩ := FileTree.mem_filesIn.mp hq
    obtain rfl := Option.some.inj (hdirectory.symm.trans hd)
    rw [hbelow hf hpath] at hplace
    obtain rfl := congrArg SourcePath.parts hplace
    have hfile : (t.content? (directory ++ rest)).isSome = true := FileTree.isSome_content?_iff.mpr ⟨f, hf, hpath⟩
    have hbrings := @Brings.directory s t p hp rest hdepth
    rw [hresolve] at hbrings
    exact hbrings hfile (hsuffixes hdepth ▸ hsuffix)
  · intro hbrings
    cases hbrings with
    | file hfile =>
        rw [ht.isDirectory_eq_false hfile] at hp
        cases hp
    | @directory _ rest hdepth hfile hsuffix =>
        rw [hresolve] at hfile hsuffix ⊢
        obtain ⟨f, hf, hpath⟩ := FileTree.isSome_content?_iff.mp hfile
        refine ⟨{ p with parts := p.parts ++ rest }, ?_, ?_, hbelow hf hpath⟩
        · exact FileTree.mem_filesIn.mpr ⟨directory, rest, hdirectory, ⟨f, hf, hpath⟩, hdepth, rfl⟩
        · rw [hsuffixes hdepth]
          exact hsuffix

/-- The candidates of a path are the files that it brings. -/
theorem resolve_candidates? (ht : t.IsTree) (h : candidates? s t p = some qs) (parts : List String) :
    ⟨.absolute, parts⟩ ∈ qs.map t.cwd.resolve ↔ Brings s t p parts := by
  unfold candidates? at h
  split at h
  · rename_i hdirectory
    obtain rfl := Option.some.inj h
    rw [← resolve_filesIn ht hdirectory]
    simp only [List.mem_map, mem_sortPaths, List.mem_filter, List.contains_iff_mem, and_assoc]
  · rename_i hdirectory
    split at h
    · rename_i hfile
      obtain rfl := Option.some.inj h
      rw [List.map_singleton, List.mem_singleton]
      constructor
      · intro hplace
        obtain rfl := congrArg SourcePath.parts hplace
        exact .file hfile
      · intro hbrings
        cases hbrings with
        | file => rfl
        | directory hp => exact absurd hp hdirectory
    · cases h

theorem not_brings_of_candidates? (h : candidates? s t p = none) : ¬Brings s t p parts := by
  have hnone : ¬(t.isDirectory p = true ∨ t.isFile p = true) := by
    rw [← isSome_candidates? (s := s), h]
    exact Bool.false_ne_true
  intro hbrings
  cases hbrings with
  | file hp => exact hnone (.inr hp)
  | directory hp => exact hnone (.inl hp)

theorem pairwise_candidates? (h : candidates? s t p = some qs) : qs.Pairwise (·.before ·) := by
  unfold candidates? at h
  split at h
  · exact Option.some.inj h ▸ pairwise_sortPaths _
  · split at h
    · exact Option.some.inj h ▸ List.pairwise_singleton _ p
    · cases h

/-- The path at a position of the list is the first one to bring the file. -/
structure IsFirst (s : Settings) (t : FileTree) (ps : List SourcePath) (parts : List String) (n : Nat) : Prop where
  brings : ∃ p, ps[n]? = some p ∧ Brings s t p parts
  first : ∀ m < n, ∀ p, ps[m]? = some p → ¬Brings s t p parts

theorem IsFirst.lt {n : Nat} (h : IsFirst s t ps parts n) : n < ps.length := by
  obtain ⟨p, hp, -⟩ := h.brings
  exact (List.getElem?_eq_some_iff.mp hp).1

theorem IsFirst.append {n : Nat} (h : IsFirst s t ps parts n) (qs : List SourcePath) :
    IsFirst s t (ps ++ qs) parts n := by
  have hold : ∀ m ≤ n, (ps ++ qs)[m]? = ps[m]? := fun m hm => List.getElem?_append_left (by have := h.lt; omega)
  refine ⟨?_, fun m hm p hp => ?_⟩
  · rw [hold n (Nat.le_refl n)]
    exact h.brings
  · rw [hold m (Nat.le_of_lt hm)] at hp
    exact h.first m hm p hp

theorem exists_isFirst (h : ∃ p ∈ ps, Brings s t p parts) : ∃ n, IsFirst s t ps parts n := by
  classical
  obtain ⟨p, hp, hbrings⟩ := h
  obtain ⟨i, hi⟩ := List.getElem?_of_mem hp
  have hsome : ∃ n, ∃ p, ps[n]? = some p ∧ Brings s t p parts := ⟨i, p, hi, hbrings⟩
  exact ⟨Nat.find hsome, Nat.find_spec hsome, fun m hm p hp h => Nat.find_min hsome hm ⟨p, hp, h⟩⟩

theorem isFirst_concat (h : ¬∃ q ∈ ps, Brings s t q parts) (hp : Brings s t p parts) :
    IsFirst s t (ps ++ [p]) parts ps.length := by
  refine ⟨⟨p, List.getElem?_concat_length, hp⟩, fun m hm q hq hbrings => h ⟨q, ?_, hbrings⟩⟩
  rw [List.getElem?_append_left hm] at hq
  exact List.mem_of_getElem? hq

/-- An earlier path of the list brings the first file, or the same path brings both and they are in the order of
paths. -/
def ListedBefore (s : Settings) (t : FileTree) (ps : List SourcePath) (p q : SourcePath) : Prop :=
  ∃ m n, IsFirst s t ps (t.cwd.resolve p).parts m ∧ IsFirst s t ps (t.cwd.resolve q).parts n ∧
    (m < n ∨ m = n ∧ p.before q = true)

theorem ListedBefore.append (h : ListedBefore s t ps p q) (qs : List SourcePath) :
    ListedBefore s t (ps ++ qs) p q := by
  obtain ⟨m, n, hm, hn, hlt⟩ := h
  exact ⟨m, n, hm.append qs, hn.append qs, hlt⟩

/-! ### Listed paths one by one -/

theorem exists_foldl_addFile (t : FileTree) (found qs : List SourcePath) :
    ∃ new, qs.foldl (addFile t) found = found ++ new ∧ new.Sublist qs ∧
      (∀ q ∈ new, t.cwd.resolve q ∉ found.map t.cwd.resolve) ∧
      ∀ k, k ∈ (found ++ new).map t.cwd.resolve ↔ k ∈ found.map t.cwd.resolve ∨ k ∈ qs.map t.cwd.resolve := by
  induction qs generalizing found with
  | nil => exact ⟨[], by simp, .slnil, by simp, by simp⟩
  | cons q qs ih =>
      by_cases hq : t.cwd.resolve q ∈ found.map t.cwd.resolve
      · have hsame : addFile t found q = found := by
          unfold addFile
          rw [if_pos (List.contains_iff_mem.mpr hq)]
        obtain ⟨new, hfold, hsub, hnew, hkeys⟩ := ih found
        refine ⟨new, by rw [List.foldl_cons, hsame, hfold], hsub.cons q, hnew, fun k => ?_⟩
        rw [hkeys, List.map_cons, List.mem_cons]
        constructor
        · exact fun h => h.imp_right .inr
        · rintro (h | rfl | h)
          · exact .inl h
          · exact .inl hq
          · exact .inr h
      · have hadd : addFile t found q = found ++ [q] := by
          unfold addFile
          rw [if_neg fun h => hq (List.contains_iff_mem.mp h)]
        obtain ⟨new, hfold, hsub, hnew, hkeys⟩ := ih (found ++ [q])
        refine ⟨q :: new, by rw [List.foldl_cons, hadd, hfold, List.append_assoc, List.singleton_append],
          hsub.cons_cons q, List.forall_mem_cons.mpr ⟨hq, fun r hr h => hnew r hr ?_⟩, fun k => ?_⟩
        · rw [List.map_append]
          exact List.mem_append_left _ h
        · rw [List.append_assoc, List.singleton_append] at hkeys
          rw [hkeys, List.map_append, List.mem_append, List.map_singleton, List.mem_singleton, List.map_cons,
            List.mem_cons, or_assoc]

/-- What was found is what the paths bring, in the order in which they list it. -/
structure Collects (s : Settings) (t : FileTree) (ps : List SourcePath) (d : Discovery) : Prop where
  found : ∀ parts, ⟨.absolute, parts⟩ ∈ d.found.map t.cwd.resolve ↔ ∃ p ∈ ps, Brings s t p parts
  ordered : d.found.Pairwise (ListedBefore s t ps)

theorem Collects.add {d : Discovery} (ht : t.IsTree) (h : Collects s t ps d) (p : SourcePath) :
    Collects s t (ps ++ [p]) (d.add s t p) := by
  have hold : d.found.Pairwise (ListedBefore s t (ps ++ [p])) := h.ordered.imp fun hab => hab.append [p]
  have hbrings : ∀ parts, (∃ q ∈ ps ++ [p], Brings s t q parts) ↔
      (∃ q ∈ ps, Brings s t q parts) ∨ Brings s t p parts := by
    intro parts
    simp only [List.mem_append, List.mem_singleton, or_and_right, exists_or, exists_eq_left]
  unfold Discovery.add
  cases hp : candidates? s t p with
  | none =>
      refine ⟨fun parts => ?_, hold⟩
      rw [hbrings, or_iff_left (not_brings_of_candidates? hp)]
      exact h.found parts
  | some qs =>
      obtain ⟨new, hfold, hsub, hnew, hkeys⟩ := exists_foldl_addFile t d.found qs
      dsimp only
      have hfirst : ∀ q ∈ new, IsFirst s t (ps ++ [p]) (t.cwd.resolve q).parts ps.length := by
        intro q hq
        refine isFirst_concat (fun hlisted => hnew q hq ((h.found _).mpr hlisted)) ?_
        exact (resolve_candidates? ht hp _).mp (List.mem_map_of_mem (hsub.subset hq))
      refine ⟨fun parts => ?_, ?_⟩
      · rw [hfold, hkeys, h.found, resolve_candidates? ht hp, hbrings]
      · rw [hfold]
        refine List.pairwise_append.mpr ⟨hold, ?_, fun a ha b hb => ?_⟩
        · exact ((pairwise_candidates? hp).sublist hsub).imp_of_mem fun ha hb hab =>
            ⟨_, _, hfirst _ ha, hfirst _ hb, .inr ⟨rfl, hab⟩⟩
        · obtain ⟨m, hm⟩ := exists_isFirst ((h.found _).mp (List.mem_map_of_mem ha))
          exact ⟨m, _, hm.append [p], hfirst b hb, .inl hm.lt⟩

end Discovery

end HeaderReflection
