import FragmentRouting.Decimal.Notation
import FragmentRouting.Text.Quoted
import FragmentRouting.Value.Basic

/-!
# Values as text

`Value.display` is the plain text of a value, and `Value.literal` the text in which it stands
inside a list, a tuple, a mapping or a set. They differ for text, dates, times, durations and
decimals.
-/

namespace FragmentRouting

open Text (quoted quotedBytes)

/-- Writes the coefficient with its point, or with an exponent if the number is far from it. -/
def ScaledDecimal.text (d : ScaledDecimal) : String :=
  let digits := Nat.toDigits 10 d.coefficient
  let count : Int := digits.length
  let point := d.exponent + count
  let sign := if d.negative then "-" else ""
  if d.exponent ≤ 0 ∧ -6 ≤ point - 1 then
    if d.exponent = 0 then sign ++ String.ofList digits
    else if point ≤ 0 then
      sign ++ String.ofList ('0' :: '.' :: List.replicate (-point).toNat '0' ++ digits)
    else sign ++ String.ofList (digits.take point.toNat ++ '.' :: digits.drop point.toNat)
  else
    let mantissa := match digits with
      | [] => []
      | [c] => [c]
      | c :: rest => c :: '.' :: rest
    sign ++ String.ofList mantissa ++ (if point - 1 < 0 then "E-" else "E+")
      ++ toString (point - 1).natAbs

/-- The arguments that rebuild a duration. -/
def Duration.literal (d : Duration) : String :=
  let days := if d.days = 0 then [] else ["days=" ++ toString d.days]
  let seconds := if d.rest = 0 then [] else ["seconds=" ++ toString d.rest]
  let arguments := if d.seconds = 0 then ["0"] else days ++ seconds
  "datetime.timedelta(" ++ ", ".intercalate arguments ++ ")"

/-- Seconds and microseconds are left off from the right as long as they are zero. -/
def Clock.literalParts (c : Clock) : List Nat :=
  if c.microsecond ≠ 0 then [c.hour, c.minute, c.second, c.microsecond]
  else if c.second ≠ 0 then [c.hour, c.minute, c.second]
  else [c.hour, c.minute]

def Clock.literal (c : Clock) : String :=
  "datetime.time(" ++ ", ".intercalate (c.literalParts.map toString) ++ ")"

def Date.literal (d : Date) : String :=
  "datetime.date(" ++ ", ".intercalate ([d.year, d.month, d.day].map toString) ++ ")"

def offsetLiteral (minutes : Int) : String :=
  if minutes = 0 then "datetime.timezone.utc"
  else "datetime.timezone(" ++ (Duration.mk (minutes * 60)).literal ++ ")"

def DateTime.literal (t : DateTime) : String :=
  let numbers := [t.date.year, t.date.month, t.date.day] ++ t.clock.literalParts
  let zone := (t.offset.map fun m => ", tzinfo=" ++ offsetLiteral m).getD ""
  "datetime.datetime(" ++ ", ".intercalate (numbers.map toString) ++ zone ++ ")"

/-- A part of a complex number, without the fraction of a whole number. -/
def complexPart (x : Float) : String :=
  let text := (Decimal.floatText x).toList
  String.ofList (if text.drop (text.length - 2) = ['.', '0'] then text.dropLast.dropLast else text)

/-- A complex number; one without a real part has no brackets. -/
def complexText (re im : Float) : String :=
  let imaginary := complexPart im
  if re == 0 && re.toBits == 0 then imaginary ++ "j"
  else
    let sign := if imaginary.toList.head? = some '-' then "" else "+"
    "(" ++ complexPart re ++ sign ++ imaginary ++ "j)"

namespace Value

/-- Items between brackets. -/
def bracketed (opening closing : String) (items : List String) : String :=
  opening ++ ", ".intercalate items ++ closing

mutual

def literal : Value → String
  | null => "None"
  | bool b => if b then "True" else "False"
  | int n => toString n
  | float x => Decimal.floatText x
  | text s => quoted s
  | date d => d.literal
  | dateTime t => t.literal
  | list items => bracketed "[" "]" (literals items)
  | tuple items => match literals items with
    | [item] => bracketed "(" ",)" [item]
    | texts => bracketed "(" ")" texts
  | map entries => bracketed "\x7b" "\x7d" (entryLiterals entries)
  | set items => match literals items with
    | [] => "set()"
    | texts => bracketed "\x7b" "\x7d" texts
  | bytes b => quotedBytes b
  | clock c => c.literal
  | duration d => d.literal
  | decimal d => "Decimal('" ++ d.text ++ "')"
  | complex re im => complexText re im
  | object => "<object>"
  | kind name => "<class '" ++ name ++ "'>"

def literals : List Value → List String
  | [] => []
  | v :: rest => literal v :: literals rest

def entryLiterals : List (Value × Value) → List String
  | [] => []
  | (k, v) :: rest => (literal k ++ ": " ++ literal v) :: entryLiterals rest

end

/-- The plain text of a value. -/
def display : Value → String
  | text s => s
  | date d => d.text
  | dateTime t => t.textWith " "
  | clock c => c.text
  | duration d => d.text
  | decimal d => d.text
  | v => v.literal

end Value

end FragmentRouting
