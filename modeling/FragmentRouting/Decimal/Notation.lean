import FragmentRouting.Decimal.Shortest
import FragmentRouting.Text.Digit

/-!
# Numbers as text, and text as numbers
-/

namespace FragmentRouting.Decimal

/-- Digits with the point at `point`, positional while the number lies between `10 ^ -4` and
`10 ^ 16` and otherwise with an exponent of at least two digits. A whole number ends in `.0`
when it is written by position. -/
def Digits.text (d : Digits) : String :=
  let digits := Nat.toDigits 10 d.digits
  let count : Int := digits.length
  if -4 < d.point ∧ d.point ≤ 16 then
    if d.point ≤ 0 then
      String.ofList ('0' :: '.' :: List.replicate (-d.point).toNat '0' ++ digits)
    else if count ≤ d.point then
      String.ofList (digits ++ List.replicate (d.point - count).toNat '0' ++ ['.', '0'])
    else
      String.ofList (digits.take d.point.toNat ++ '.' :: digits.drop d.point.toNat)
  else
    let exponent := d.point - 1
    let mantissa := match digits with
      | [] => []
      | [c] => [c]
      | c :: rest => c :: '.' :: rest
    String.ofList mantissa ++ (if exponent < 0 then "e-" else "e+")
      ++ Text.padded 2 exponent.natAbs

/-- The shortest text that reads back as the number. -/
def floatText (x : Float) : String :=
  match Kind.ofFloat x with
  | .notANumber => "nan"
  | .infinite negative => if negative then "-inf" else "inf"
  | .finite b =>
    (if b.negative then "-" else "")
      ++ if b.mantissa = 0 then "0.0" else (shortest b.mantissa b.exponent).text

/-- The floating-point number nearest to `digits * 10 ^ exponent`. Numbers far outside the range
become zero or infinite without being computed. -/
def nearestFloat (negative : Bool) (digits : Nat) (exponent : Int) : Float :=
  let size := exponent + digitCount digits
  let magnitude :=
    if digits = 0 ∨ size < -400 then 0.0
    else if 400 < size then 1.0 / 0.0
    else Float.ofScientific digits (exponent < 0) exponent.natAbs
  if negative then -magnitude else magnitude

/-- The value of a run of decimal digits. -/
def natOfDigits (digits : List Char) : Nat :=
  digits.foldl (fun n c => 10 * n + (c.toNat - 48)) 0

/-- A decimal number in its parts: sign, whole digits, digits after the point, exponent. -/
structure Literal where
  negative : Bool
  whole : List Char
  fraction : List Char
  exponent : Int
  deriving Repr

/-- The number nearest to the literal. -/
def Literal.toFloat (l : Literal) : Float :=
  nearestFloat l.negative (natOfDigits (l.whole ++ l.fraction)) (l.exponent - l.fraction.length)

/-- Takes a minus or plus sign off the front. -/
def takeSign : List Char → Bool × List Char
  | '-' :: rest => (true, rest)
  | '+' :: rest => (false, rest)
  | rest => (false, rest)

/-- A signed exponent, which is the whole text. -/
def exponent? (text : List Char) : Option Int :=
  let (negative, digits) := takeSign text
  if digits.isEmpty || !digits.all Char.isDigit then none
  else
    let n : Int := natOfDigits digits
    some (if negative then -n else n)

/-- A whole text as a decimal number: an optional sign, digits with at most one point, and an
optional exponent. -/
def Literal.ofText? (text : List Char) : Option Literal := do
  let (negative, body) := takeSign text
  let whole := body.takeWhile Char.isDigit
  let afterWhole := body.dropWhile Char.isDigit
  let (fraction, rest) := match afterWhole with
    | '.' :: r => (r.takeWhile Char.isDigit, r.dropWhile Char.isDigit)
    | r => ([], r)
  if whole.isEmpty && fraction.isEmpty then none
  else
    match rest with
    | [] => some ⟨negative, whole, fraction, 0⟩
    | e :: r => if e = 'e' ∨ e = 'E' then some ⟨negative, whole, fraction, ← exponent? r⟩ else none

/-- A floating-point number from text; infinities and the undefined number have names. -/
def float? (text : String) : Option Float :=
  let (negative, body) := takeSign text.toList
  let name := String.ofList (body.map Char.toLower)
  if name = "inf" ∨ name = "infinity" then
    some (if negative then -(1.0 / 0.0) else 1.0 / 0.0)
  else if name = "nan" then some (0.0 / 0.0)
  else (Literal.ofText? text.toList).map Literal.toFloat

end FragmentRouting.Decimal
