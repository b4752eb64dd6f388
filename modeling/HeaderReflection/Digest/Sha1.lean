/-! # SHA-1

The 160-bit digest of a byte string.  A message is padded to whole blocks of sixteen words of 32
bits (`length_pad_mod`); each block is expanded to eighty words, and each word turns the chaining
state once. -/

namespace HeaderReflection.Sha1

/-- The chaining state of five words. -/
structure State where
  a : UInt32
  b : UInt32
  c : UInt32
  d : UInt32
  e : UInt32
  deriving DecidableEq, Repr

/-- The state before the first block. -/
def State.initial : State := ⟨0x67452301, 0xEFCDAB89, 0x98BADCFE, 0x10325476, 0xC3D2E1F0⟩

/-- Wordwise sum. -/
def State.add (s t : State) : State := ⟨s.a + t.a, s.b + t.b, s.c + t.c, s.d + t.d, s.e + t.e⟩

/-- Rotation to the left by `n < 32`, `n` not zero. -/
def rotate (x n : UInt32) : UInt32 := (x <<< n) ||| (x >>> (32 - n))

/-- The eight bytes of a bit length, the highest first. -/
def lengthBytes (bits : Nat) : List UInt8 :=
  [56, 48, 40, 32, 24, 16, 8, 0].map fun k => UInt8.ofNat (bits >>> k)

/-- A one bit, zeros up to a whole block, and the length in bits at its end. -/
def pad (message : List UInt8) : List UInt8 :=
  message ++ [0x80] ++ List.replicate ((119 - message.length % 64) % 64) 0 ++
    lengthBytes (8 * message.length)

/-- The words of a byte string, the highest byte of each first. -/
def words : List UInt8 → List UInt32
  | p :: q :: r :: s :: rest =>
    ((p.toUInt32 <<< 24) ||| (q.toUInt32 <<< 16) ||| (r.toUInt32 <<< 8) ||| s.toUInt32) ::
      words rest
  | _ => []

/-- Adds `n` words to a schedule that is listed last word first. -/
def expand : Nat → List UInt32 → List UInt32
  | 0, w => w
  | n + 1, w =>
    let next := w.getD 2 0 ^^^ w.getD 7 0 ^^^ w.getD 13 0 ^^^ w.getD 15 0
    expand n (rotate next 1 :: w)

/-- The mixing function of round `t` and its constant. -/
def mix (t : Nat) (s : State) : UInt32 :=
  if t < 20 then ((s.b &&& s.c) ||| (~~~ s.b &&& s.d)) + 0x5A827999
  else if t < 40 then (s.b ^^^ s.c ^^^ s.d) + 0x6ED9EBA1
  else if t < 60 then ((s.b &&& s.c) ||| (s.b &&& s.d) ||| (s.c &&& s.d)) + 0x8F1BBCDC
  else (s.b ^^^ s.c ^^^ s.d) + 0xCA62C1D6

/-- One round, with the schedule word `w`. -/
def round (s : State) (t : Nat) (w : UInt32) : State :=
  ⟨rotate s.a 5 + mix t s + s.e + w, s.a, rotate s.b 30, s.c, s.d⟩

/-- The rounds of a schedule, numbered from `t`. -/
def rounds (t : Nat) (s : State) : List UInt32 → State
  | [] => s
  | w :: ws => rounds (t + 1) (round s t w) ws

/-- The state after one block of sixteen words. -/
def compress (s : State) (block : List UInt32) : State :=
  s.add (rounds 0 s (expand 64 block.reverse).reverse)

/-- The state after the blocks of a padded message. -/
def chain (s : State) (ws : List UInt32) : State :=
  if ws.length < 16 then s else chain (compress s (ws.take 16)) (ws.drop 16)
termination_by ws.length
decreasing_by simp only [List.length_drop]; omega

/-- The digest of a message. -/
def digest (message : List UInt8) : State := chain .initial (words (pad message))

/-- Padding fills whole blocks. -/
theorem length_pad_mod (message : List UInt8) : (pad message).length % 64 = 0 := by
  simp only [pad, lengthBytes, List.length_append, List.length_cons, List.length_nil,
    List.length_replicate, List.length_map]
  omega

end HeaderReflection.Sha1
