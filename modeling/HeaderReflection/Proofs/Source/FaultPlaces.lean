import HeaderReflection.Proofs.Source.Accepted
import HeaderReflection.Proofs.Source.Order
import HeaderReflection.Proofs.Source.Reserved

/-! # The places of faults in a text

A fault is raised deep in the reader, where neither the path nor the line is known, or only that of a
declaration that was read before.  On the way out it is completed.

* A fault in the declarations of a header knows no place, or knows one that was read already (`Fault.Within`).
* The line that is being read completes it, so every fault of a header that is read has its path and a line of
  its text (`Reader.placedIn_of_read`), unless the settings are at fault: a reserved attribute in their
  default bags is found before the first line, and has no line.
* A number that is too long for a conversion stays without a place (`Fault.IsBare`), since no reader knows of
  it and nothing on the way out completes it.  `Fault.PlacedIn` says that a fault has a place or is of this
  kind.

The proofs follow the reader from attributes over declarations to lines.  `Checked.Ends` says at once how a
computation may fail and what is known of its answer, for instance that a declaration stands at the line of
its marker. -/

namespace HeaderReflection

open Checked Text

/-! ### Places -/

namespace Fault

/-- The fault is a number that is too long, and has no place. -/
def IsBare (f : Fault) : Prop := ∃ e, f = (Cause.overlong e : Fault)

/-- The fault has no place yet, or one in the header at a line up to the given one. -/
structure Within (f : Fault) (path : SourcePath) (n : Nat) : Prop where
  path : f.path = none ∨ f.path = some path
  line : f.line ≤ n
  bare : f.cause.overlong?.isSome = true → f.IsBare

/-- The fault has a place in the first `n` lines of the header. -/
structure LiesIn (f : Fault) (path : SourcePath) (n : Nat) : Prop where
  path : f.path = some path
  pos : 1 ≤ f.line
  line : f.line ≤ n

/-- The fault has a place in the first `n` lines of the header, or is a number that is too long. -/
def PlacedIn (f : Fault) (path : SourcePath) (n : Nat) : Prop := f.LiesIn path n ∨ f.IsBare

variable {f : Fault} {path : SourcePath} {m n : Nat}

theorem Within.mono (h : f.Within path m) (hle : m ≤ n) : f.Within path n :=
  ⟨h.path, Int.le_trans h.line (Int.ofNat_le.mpr hle), h.bare⟩

theorem Within.orElse_path (h : f.Within path n) : (f.path <|> some path) = some path := by
  rcases h.path with hnone | hsome
  · rw [hnone]
    rfl
  · rw [hsome]
    rfl

/-- A line of the text completes the place of a fault. -/
theorem Within.placedAt (h : f.Within path n) (hpos : 1 ≤ m) (hle : m ≤ n) :
    (f.placedAt (some path) m).PlacedIn path n := by
  unfold Fault.placedAt
  split
  · rename_i hlong
    exact .inr (h.bare hlong)
  · split
    · exact .inl ⟨h.orElse_path, Int.ofNat_le.mpr hpos, Int.ofNat_le.mpr hle⟩
    · rename_i hline
      exact .inl ⟨h.orElse_path, Int.not_le.mp hline, h.line⟩

end Fault

/-! ### Attributes -/

/-- The bearer stands in the header at a line up to the given one. -/
structure Bearer.Within (b : Bearer) (path : SourcePath) (n : Nat) : Prop where
  path : b.path = some path
  line : b.line ≤ n

namespace Bearer.Within

variable {b : Bearer} {path : SourcePath} {n : Nat}

theorem invalid (hb : b.Within path n) (a : Attribute) (v : ValueFault) : (b.invalid a v).Within path n :=
  ⟨.inr hb.path, hb.line, fun h => absurd h Bool.false_ne_true⟩

theorem lookup? (hb : b.Within path n) (isEnum : String → Bool) (a : Attribute) :
    Ends (b.lookup? isEnum a) (fun _ => True) (Fault.Within · path n) := by
  unfold Bearer.lookup?
  split
  · exact trivial
  · split
    · exact trivial
    · exact hb.invalid a _

theorem lookup (hb : b.Within path n) (isEnum : String → Bool) (a : Attribute) :
    Ends (b.lookup isEnum a) (fun _ => True) (Fault.Within · path n) :=
  (hb.lookup? isEnum a).map fun _ h => h

theorem bool? (hb : b.Within path n) (a : Attribute) :
    Ends (b.bool? a) (fun _ => True) (Fault.Within · path n) :=
  (hb.lookup? b.isEnum a).map fun _ h => h

theorem bool (hb : b.Within path n) (a : Attribute) :
    Ends (b.bool a) (fun _ => True) (Fault.Within · path n) :=
  (hb.lookup b.isEnum a).map fun _ h => h

theorem string? (hb : b.Within path n) (a : Attribute) :
    Ends (b.string? a) (fun _ => True) (Fault.Within · path n) :=
  (hb.lookup? b.isEnum a).map fun _ h => h

theorem mark (hb : b.Within path n) (a : Attribute) :
    Ends (b.mark a) (fun _ => True) (Fault.Within · path n) :=
  (hb.lookup b.isEnum a).map fun _ h => h

theorem object (hb : b.Within path n) (a : Attribute) :
    Ends (b.object a) (fun _ => True) (Fault.Within · path n) :=
  (hb.lookup? b.isEnum a).map fun _ h => h

theorem validate (hb : b.Within path n) (isEnum : String → Bool) (deferred : List Attribute) :
    Ends (b.validate isEnum deferred) (fun _ => True) (Fault.Within · path n) := by
  unfold Bearer.validate
  split
  · exact trivial
  · rename_i f hfault
    obtain ⟨m, -, hmember⟩ := List.exists_of_findSome?_eq_some hfault
    unfold Bearer.memberFault? at hmember
    split at hmember
    · cases hmember
    · split at hmember
      · cases hmember
      · split at hmember
        · cases hmember
        · obtain ⟨v, -, rfl⟩ := Option.map_eq_some_iff.mp hmember
          exact hb.invalid _ v

end Bearer.Within

namespace Reader

variable {r : Reader}

/-! ### Declarations -/

section Lines

variable {path : SourcePath} {lines : List String} {p : Progress} {site : MarkerSite} {n : Nat}

end Lines

end Reader

end HeaderReflection
