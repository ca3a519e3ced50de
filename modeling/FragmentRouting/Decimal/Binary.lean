/-!
# Floating-point numbers as exact fractions

A finite number is a sign, a whole mantissa and a power of two.
-/

namespace FragmentRouting.Decimal

/-- The number `mantissa * 2 ^ exponent`, with a minus sign if `negative`. -/
structure Binary where
  negative : Bool
  mantissa : Nat
  exponent : Int
  deriving DecidableEq, Repr

/-- The kinds of floating-point number. -/
inductive Kind where
  | finite (number : Binary)
  | infinite (negative : Bool)
  | notANumber
  deriving DecidableEq, Repr

/-- Reads the three fields of the double-precision layout. -/
def Kind.ofFloat (x : Float) : Kind :=
  let bits := x.toBits.toNat
  let negative := decide (1 <<< 63 ≤ bits)
  let biased : Nat := (bits >>> 52) % 2048
  let fraction := bits % (1 <<< 52)
  if biased = 2047 then
    if fraction = 0 then .infinite negative else .notANumber
  else if biased = 0 then .finite ⟨negative, fraction, -1074⟩
  else .finite ⟨negative, (1 <<< 52) + fraction, (biased : Int) - 1075⟩

/-- The number as a whole number, if it is one. -/
def Binary.toInt? (b : Binary) : Option Int :=
  let signed (n : Nat) : Int := if b.negative then -(n : Int) else n
  if 0 ≤ b.exponent then some (signed (b.mantissa <<< b.exponent.toNat))
  else
    let unit : Nat := 1 <<< (-b.exponent).toNat
    if b.mantissa % unit = 0 then some (signed (b.mantissa / unit)) else none

/-- The number as a whole number, if it is one. -/
def wholeNumber? (x : Float) : Option Int :=
  match Kind.ofFloat x with
  | .finite b => b.toInt?
  | _ => none

end FragmentRouting.Decimal
