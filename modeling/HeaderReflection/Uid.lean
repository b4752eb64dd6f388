import HeaderReflection.Digest.Sha1
import HeaderReflection.SourcePath

/-! # Identifiers of declarations

A declaration is identified across the database by 64 bits: the front of the SHA-1 digest of its
path, its line, and what else tells it from others at that line. -/

namespace HeaderReflection

/-- The 64 bits that identify a declaration. -/
abbrev Uid := UInt64

namespace Uid

/-- The text that is digested. -/
def input (path : SourcePath) (line : Int) (extra : List String) : String :=
  String.intercalate ":" (path.text :: toString line :: extra)

/-- The first 64 bits of the digest of a text. -/
def ofText (s : String) : Uid :=
  let d := Sha1.digest s.toUTF8.toList
  (d.a.toUInt64 <<< 32) ||| d.b.toUInt64

/-- The identifier of a declaration. -/
def compute (path : SourcePath) (line : Int) (extra : List String := []) : Uid :=
  ofText (input path line extra)

/-- Sixteen hexadecimal digits. -/
def hex (u : Uid) : String :=
  let ds := Nat.toDigits 16 u.toNat
  String.ofList (List.replicate (16 - ds.length) '0' ++ ds)

end Uid

end HeaderReflection
