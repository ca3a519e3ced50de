import FragmentRouting.Decimal.Binary

/-!
# Shortest decimal digits

The fewest decimal digits that read back as a given floating-point number, and of several such
decimals the one nearest to it.

Every real number in an interval around the number reads back as it. The ends belong to the
interval if the mantissa is even, because reading sends a tie to the even mantissa. A grid of
decimals with a given count of digits meets the interval only if one of the two neighbours of the
number on that grid does.
-/

namespace FragmentRouting.Decimal

/-- The decimal `0.d₁d₂… * 10 ^ point`, for the digits `d₁d₂…` of a whole number. -/
structure Digits where
  digits : Nat
  point : Int
  deriving DecidableEq, Repr

/-- How many decimal digits `n` has; none for zero. -/
def digitCount (n : Nat) : Nat :=
  if n = 0 then 0 else (Nat.toDigits 10 n).length

/-- The power `point` of ten with `10 ^ (point - 1) ≤ num / den < 10 ^ point`. -/
def decimalPoint (num den : Nat) : Int :=
  if den ≤ num then digitCount (num / den) else 1 - digitCount ((den - 1) / num)

/-- A positive number with the interval that reads back as it, as fractions of one denominator. -/
structure Rounding where
  low : Nat
  value : Nat
  high : Nat
  den : Nat
  closed : Bool

/-- The interval of the number `mantissa * 2 ^ exponent`. Below a power of two the numbers lie
twice as close. -/
def Rounding.ofBinary (mantissa : Nat) (exponent : Int) : Rounding :=
  let up := 1 <<< (exponent - 2).toNat
  let below := if mantissa = 1 <<< 52 ∧ exponent ≠ -1074 then 1 else 2
  { low := (4 * mantissa - below) * up
    value := 4 * mantissa * up
    high := (4 * mantissa + 2) * up
    den := 1 <<< (2 - exponent).toNat
    closed := mantissa % 2 = 0 }

/-- Whether `n * 10 ^ scale` lies in the interval. -/
def Rounding.holds (r : Rounding) (n : Nat) (scale : Int) : Bool :=
  let up := Nat.pow 10 scale.toNat * r.den
  let down := Nat.pow 10 (-scale).toNat
  if r.closed then r.low * down ≤ n * up && n * up ≤ r.high * down
  else r.low * down < n * up && n * up < r.high * down

/-- The decimal with `count` digits nearest to the number, if one of that grid reads back. The
upper neighbour may be the next power of ten, which has a single digit. -/
def Rounding.onGrid? (r : Rounding) (point : Int) (count : Nat) : Option Digits :=
  let scale := point - count
  let up := Nat.pow 10 scale.toNat * r.den
  let down := Nat.pow 10 (-scale).toNat
  let below := r.value * down / up
  let result (n : Nat) : Digits :=
    if n = Nat.pow 10 count then ⟨1, point + 1⟩ else ⟨n, point⟩
  match r.holds below scale, r.holds (below + 1) scale with
  | true, true =>
    let excess := 2 * (r.value * down % up)
    if excess < up ∨ (excess = up ∧ below % 2 = 0) then some (result below)
    else some (result (below + 1))
  | true, false => some (result below)
  | false, true => some (result (below + 1))
  | false, false => none

/-- The shortest decimal of a positive number. Seventeen digits are always enough. -/
def shortest (mantissa : Nat) (exponent : Int) : Digits :=
  let r := Rounding.ofBinary mantissa exponent
  let point := decimalPoint r.value r.den
  ((List.range 17).findSome? fun k => r.onGrid? point (k + 1)).getD ⟨0, 0⟩

end FragmentRouting.Decimal
