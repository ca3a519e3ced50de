import FragmentRouting.Decimal.Notation
import FragmentRouting.Value.Basic

/-!
# Decimal and complex numbers from text
-/

namespace FragmentRouting

/-- A decimal with all its places. -/
def ScaledDecimal.ofText? (text : String) : Option ScaledDecimal :=
  (Decimal.Literal.ofText? text.toList).map fun l =>
    { negative := l.negative
      coefficient := Decimal.natOfDigits (l.whole ++ l.fraction)
      exponent := l.exponent - l.fraction.length }

namespace Value

/-- The length of the real part of a complex number: all up to the last sign that neither comes
first nor belongs to an exponent. -/
def realLength (text : List Char) : Nat :=
  ((List.range text.length).filter fun i =>
    0 < i && (text[i]? == some '+' || text[i]? == some '-') && !text[i - 1]?.any (·.toLower == 'e'))
    |>.getLast?.getD 0

/-- A complex number such as `1+2j`, `-2j` or `1`, also between brackets. -/
def complex? (text : String) : Option Value := do
  let body := text.toList.filter fun c => c ≠ '(' ∧ c ≠ ')'
  if body.getLast? = some 'j' then
    let body := body.dropLast
    let length := realLength body
    let re ← if length = 0 then some 0.0 else Decimal.float? (String.ofList (body.take length))
    return .complex re (← Decimal.float? (String.ofList (body.drop length)))
  else return .complex (← Decimal.float? (String.ofList body)) 0.0

end Value

end FragmentRouting
