import HeaderReflection.Binary64

/-! # Shortest decimals

The decimal text of a binary number has the fewest digits that still lie in the interval of reals which round
to it, and of two such decimals the nearer.  The interval is closed if the mantissa of the number is even,
since then a tie rounds to it.

The digits are looked for on grids of powers of ten, the coarsest first (`Binary64.shortest`).  Everything is
computed with naturals, so the ends of the interval are exact.

`NumberLayout` says how digits and exponent are laid out: from which exponents on a number is written with
one, and with how many digits. -/

namespace HeaderReflection

/-! ### Digits -/

namespace Binary64

/-- The integer `k` with `10^(k-1) ≤ num / den < 10^k`, for a positive quotient. -/
def decimalExponent (num den : Nat) : Int :=
  if den ≤ num then (Nat.toDigits 10 (num / den)).length
  else 1 - (Nat.toDigits 10 ((den - 1) / num)).length

/-- The multiples of `10^(-p)` next to `num / den` which lie between `low / den` and `high / den`,
the bounds themselves when `closed`; the nearer one if both do, and the even one of two as near. -/
def gridPoint? (closed : Bool) (low num high den : Nat) (p : Int) : Option Nat :=
  let up : Nat := if 0 ≤ p then Nat.pow 10 p.toNat else 1
  let down : Nat := if 0 ≤ p then den else den * Nat.pow 10 (-p).toNat
  let within (d : Nat) : Bool :=
    if closed then low * up ≤ d * down && d * down ≤ high * up
    else low * up < d * down && d * down < high * up
  let d := num * up / down
  match within d, within (d + 1) with
  | true, true =>
    let r := 2 * (num * up % down)
    if r < down ∨ (r = down ∧ d % 2 = 0) then some d else some (d + 1)
  | true, false => some d
  | false, true => some (d + 1)
  | false, false => none

/-- The shortest decimal of a finite positive number: digits `d` and the exponent `k` of the power
of ten just above it, the number being near `0.d · 10^k`. -/
def shortest (x : Binary64) : List Char × Int :=
  let (m, q) := x.mantissaExponent
  -- in units of a quarter of the last place
  let unit : Nat × Nat := if 1076 ≤ q then (Nat.pow 2 (q - 1076), 1) else (1, Nat.pow 2 (1076 - q))
  let num := 4 * m * unit.1
  let low := (4 * m - if m = Nat.pow 2 52 ∧ 0 < q then 1 else 2) * unit.1
  let high := (4 * m + 2) * unit.1
  let k := decimalExponent num unit.2
  let candidate (n : Nat) : Option Nat :=
    gridPoint? (m % 2 == 0) low num high unit.2 ((n : Int) - k)
  match (List.range' 1 17).findSome? fun n => (candidate n).map fun d => (n, d) with
  | some (n, d) =>
    let ds := Nat.toDigits 10 d
    -- a point that reaches the next power of ten has a digit more
    (ds, k + ((ds.length : Int) - n))
  | none => (['0'], 1)

end Binary64

/-! ### Layout -/

/-- How a decimal is laid out. -/
structure NumberLayout where
  /-- The least exponent of the leading digit that is written without an exponent part. -/
  least : Int
  /-- The first exponent of the leading digit that is written with an exponent part. -/
  beyond : Int
  /-- The least number of digits of the exponent. -/
  exponentWidth : Nat
  /-- The text of infinity. -/
  infinity : String
  deriving DecidableEq, Repr

namespace NumberLayout

/-- Digits without the zeros behind the last other digit. -/
def significant (ds : List Char) : List Char := (ds.reverse.dropWhile (· == '0')).reverse

/-- The text of a positive decimal `0.d · 10^k`. -/
def decimal (l : NumberLayout) (ds : List Char) (k : Int) : List Char :=
  let ds := significant ds
  let e := k - 1
  if e < l.least ∨ l.beyond ≤ e then
    let width := Nat.toDigits 10 e.natAbs
    let mantissa := match ds with
      | [] => ['0']
      | [d] => [d]
      | d :: rest => d :: '.' :: rest
    mantissa ++ ['e', if e < 0 then '-' else '+'] ++
      List.replicate (l.exponentWidth - width.length) '0' ++ width
  else if k ≤ 0 then '0' :: '.' :: (List.replicate (-k).toNat '0' ++ ds)
  else
    let whole := ds.take k.toNat
    let rest := ds.drop k.toNat
    whole ++ List.replicate (k.toNat - whole.length) '0' ++ ['.'] ++
      if rest.isEmpty then ['0'] else rest

/-- The text of a number. -/
def render (l : NumberLayout) (x : Binary64) : String :=
  let body :=
    if x.magnitude = 0 then "0.0"
    else if x.isFinite then
      let (ds, k) := x.shortest
      String.ofList (l.decimal ds k)
    else if x.magnitude = Binary64.infinityBits then l.infinity
    else "nan"
  if x.isNegative then "-" ++ body else body

end NumberLayout

end HeaderReflection
