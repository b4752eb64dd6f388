/-! # Binary floating point

A number of the 64-bit binary format is held by its bits, so that equality is equality of numbers and all
arithmetic on it is exact arithmetic on naturals.

* A finite number is a mantissa times a power of two, up to its sign (`Binary64.mantissaExponent`).
* `Binary64.ofRatio` rounds a quotient to the nearest number, a tie to the even one; beyond the largest finite
  number it is infinite.
* A decimal is a quotient by or a multiple of a power of ten, and is rounded as such (`Binary64.ofDecimal`).

This is all that attribute lists need: a fraction is read, kept, and written again, and nothing is computed
with it. -/

namespace HeaderReflection

/-- A number of the 64-bit binary format: sign, eleven bits of exponent, 52 of fraction. -/
structure Binary64 where
  bits : UInt64
  deriving DecidableEq, Repr

namespace Binary64

/-- The sign bit is set. -/
def isNegative (x : Binary64) : Bool := x.bits >>> 63 != 0

/-- The bits below the sign. -/
def magnitude (x : Binary64) : Nat := x.bits.toNat % Nat.pow 2 63

/-- The bits of infinity below the sign. -/
def infinityBits : Nat := 0x7FF * Nat.pow 2 52

/-- Puts a sign before the other 63 bits. -/
def ofMagnitude (negative : Bool) (n : Nat) : Binary64 :=
  ⟨UInt64.ofNat ((if negative then Nat.pow 2 63 else 0) + n)⟩

/-- Neither infinite nor undefined. -/
def isFinite (x : Binary64) : Bool := x.magnitude < infinityBits

/-! ### Finite numbers -/

/-- A finite number is `m · 2^(q - 1074)` up to sign, for the pair `(m, q)`. -/
def mantissaExponent (x : Binary64) : Nat × Nat :=
  let e := x.magnitude / Nat.pow 2 52
  let f := x.magnitude % Nat.pow 2 52
  if e = 0 then (f, 0) else (f + Nat.pow 2 52, e - 1)

/-! ### Rounding -/

/-- The integer nearest to `num / den`, the even one of two. -/
def roundDiv (num den : Nat) : Nat :=
  let q := num / den
  let r := 2 * (num % den)
  if r < den then q else if r = den then q + q % 2 else q + 1

/-- The number nearest to `num / den`; beyond the largest finite one it is infinite. -/
def ofRatio (negative : Bool) (num den : Nat) : Binary64 :=
  if num = 0 then ofMagnitude negative 0 else
  -- the exponent `e - 1074` for which the mantissa has 53 bits, or the least one
  let guess := num.log2 + 1074 - (den.log2 + 53)
  let mantissa (e : Nat) : Nat × Nat :=
    if 1074 ≤ e then (num, den * Nat.pow 2 (e - 1074)) else (num * Nat.pow 2 (1074 - e), den)
  let e := if (mantissa guess).1 / (mantissa guess).2 < Nat.pow 2 53 then guess else guess + 1
  let m := roundDiv (mantissa e).1 (mantissa e).2
  -- the implied leading bit of a full mantissa carries into the exponent
  ofMagnitude negative (min (e * Nat.pow 2 52 + m) infinityBits)

/-- The number nearest to `digits · 10^exponent`.  A value beyond the range of exponents is settled
without writing out the power. -/
def ofDecimal (negative : Bool) (digits : Nat) (exponent : Int) : Binary64 :=
  let top : Int := (Nat.toDigits 10 digits).length + exponent
  if digits = 0 ∨ top < -400 then ofMagnitude negative 0
  else if 400 < top then ofMagnitude negative infinityBits
  else if 0 ≤ exponent then ofRatio negative (digits * Nat.pow 10 exponent.toNat) 1
  else ofRatio negative digits (Nat.pow 10 (-exponent).toNat)

end Binary64

end HeaderReflection
