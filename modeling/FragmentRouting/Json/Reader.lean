import FragmentRouting.Decimal.Notation
import FragmentRouting.Text.Digit
import FragmentRouting.Value.Basic

/-!
# Reading JSON

Every reader takes the characters that are left and gives a value with those left after it. A fault
is placed by the count of characters left where it lies.

Numbers may also be `NaN` or infinite. A number without fraction and exponent is read as a whole
number, unless it has too many digits. Of several items under one name the last counts, in the place
of the first.

An escape can name one half of a surrogate pair. Together, the two halves make one character. A half
that is left alone makes none, so no text can hold it.
-/

namespace FragmentRouting.Json

inductive Cause where
  | value
  | name
  | colon
  | comma
  | extra
  | unterminated
  | escape
  | unicodeEscape
  | control
  | byteOrderMark
  deriving DecidableEq, Repr

/-- What is wrong with a text, and how many characters are left there. -/
structure Fault where
  cause : Cause
  left : Nat
  deriving DecidableEq, Repr

/-- Why there is no value to a text. -/
inductive Refusal where
  /-- The text is no JSON. -/
  | fault (f : Fault)
  /-- A whole number has more digits than are converted. -/
  | digits (count : Nat)
  /-- A half of a surrogate pair is left alone. -/
  | unpaired
  deriving DecidableEq, Repr

def Cause.message : Cause → String
  | value => "Expecting value"
  | name => "Expecting property name enclosed in double quotes"
  | colon => "Expecting ':' delimiter"
  | comma => "Expecting ',' delimiter"
  | extra => "Extra data"
  | unterminated => "Unterminated string starting at"
  | escape => "Invalid \\escape"
  | unicodeEscape => "Invalid \\uXXXX escape"
  | control => "Invalid control character at"
  | byteOrderMark => "Unexpected UTF-8 BOM (decode using utf-8-sig)"

/-- The fault with the line and the column, which count from one, and the position, which counts
from zero. -/
def Fault.message (f : Fault) (text : List Char) : String :=
  let position := text.length - f.left
  let before := text.take position
  let line := before.count '\n' + 1
  let column := (before.reverse.takeWhile (· ≠ '\n')).length + 1
  f.cause.message ++ ": line " ++ toString line ++ " column " ++ toString column
    ++ " (char " ++ toString position ++ ")"

/-- A value, and the characters left after it. -/
abbrev After (α : Type) := α × List Char

/-- The refusal at a place with `left` characters left. -/
def Refusal.at (cause : Cause) (left : Nat) : Refusal :=
  .fault ⟨cause, left⟩

def fail {α : Type} (cause : Cause) (rest : List Char) : Except Refusal (After α) :=
  .error (.at cause rest.length)

def isBlank (c : Char) : Bool :=
  c = ' ' || c = '\t' || c = '\n' || c = '\r'

def skipBlanks (rest : List Char) : List Char :=
  rest.dropWhile isBlank

/-- The character of a letter after a backslash. -/
def escaped? : Char → Option Char
  | '"' => some '"'
  | '\\' => some '\\'
  | '/' => some '/'
  | 'b' => some '\x08'
  | 'f' => some '\x0c'
  | 'n' => some '\n'
  | 'r' => some '\r'
  | 't' => some '\t'
  | _ => none

/-- A code unit of four hexadecimal digits, at the characters from the `u` on. At least one more
character has to follow. -/
def readUnit (rest : List Char) : Except Refusal (After Nat) :=
  match rest with
  | _ :: a :: b :: c :: d :: e :: more =>
    match Text.hexValue? a, Text.hexValue? b, Text.hexValue? c, Text.hexValue? d with
    | some w, some x, some y, some z =>
      .ok (4096 * w + 256 * x + 16 * y + z, e :: more)
    | _, _, _, _ => fail .unicodeEscape rest
  | _ => fail .unicodeEscape rest

section
variable (spare : Option Char)

/-- What is read in the place of half of a pair that is left alone: `spare`, if there is one. -/
def readHalf (rest : List Char) : Except Refusal (After Char) :=
  match spare with
  | some c => .ok (c, rest)
  | none => .error .unpaired

/-- The character of one or two code units, at the characters from the `u` on. -/
def readUnicode (rest : List Char) : Except Refusal (After Char) := do
  let (unit, rest) ← readUnit rest
  if 0xd800 ≤ unit ∧ unit < 0xdc00 ∧ 6 < rest.length then
    match rest with
    | '\\' :: 'u' :: more =>
      let (low, after) ← readUnit ('u' :: more)
      if 0xdc00 ≤ low ∧ low < 0xe000 then
        return (Char.ofNat (0x10000 + (unit - 0xd800) * 0x400 + (low - 0xdc00)), after)
      else readHalf spare rest
    | _ => readHalf spare rest
  else if 0xd800 ≤ unit ∧ unit < 0xe000 then readHalf spare rest
  else return (Char.ofNat unit, rest)

/-- The text up to the closing quote. `start` characters are left at the opening quote. -/
def readText (start : Nat) : Nat → List Char → List Char → Except Refusal (After String)
  | 0, _, _ => .error (.at .unterminated start)
  | _, _, [] => .error (.at .unterminated start)
  | fuel + 1, seen, c :: rest =>
    if c = '"' then .ok (String.ofList seen.reverse, rest)
    else if c = '\\' then
      match rest with
      | [] => .error (.at .unterminated start)
      | 'u' :: _ => do
        let (d, rest) ← readUnicode spare rest
        readText start fuel (d :: seen) rest
      | letter :: rest =>
        match escaped? letter with
        | some d => readText start fuel (d :: seen) rest
        | none => fail .escape (c :: letter :: rest)
    else if c.toNat < 32 then fail .control (c :: rest)
    else readText start fuel (c :: seen) rest

/-- The text between the quotes at the front. -/
def readQuoted (rest : List Char) : Except Refusal (After String) :=
  readText spare rest.length rest.length [] (rest.drop 1)

end

/-- A run of digits, which may be empty. -/
def digits (rest : List Char) : List Char × List Char :=
  (rest.takeWhile Char.isDigit, rest.dropWhile Char.isDigit)

/-- The digits after a point, if there are any. -/
def readFraction (rest : List Char) : List Char × List Char :=
  match rest with
  | '.' :: more =>
    match digits more with
    | ([], _) => ([], rest)
    | found => found
  | _ => ([], rest)

/-- An exponent with at least one digit, if there is one. -/
def readExponent (rest : List Char) : Option Int × List Char :=
  match rest with
  | e :: more =>
    if e = 'e' ∨ e = 'E' then
      let (negative, more) := Decimal.takeSign more
      match digits more with
      | ([], _) => (none, rest)
      | (found, after) =>
        let n : Int := Decimal.natOfDigits found
        (some (if negative then -n else n), after)
    else (none, rest)
  | [] => (none, [])

/-- The most digits that a whole number is converted from. -/
def mostDigits : Nat :=
  4300

/-- The number at the front: digits without a zero in front, and perhaps a fraction and an
exponent. -/
def readNumber (rest : List Char) : Except Refusal (After Value) :=
  let (negative, body) := match rest with
    | '-' :: more => (true, more)
    | _ => (false, rest)
  let (whole, after) := match body with
    | '0' :: more => (['0'], more)
    | _ => digits body
  if whole.isEmpty then fail .value rest
  else
    let (fraction, after) := readFraction after
    let (exponent, after) := readExponent after
    if fraction.isEmpty && exponent.isNone then
      if mostDigits < whole.length then .error (.digits whole.length)
      else
        let n : Int := Decimal.natOfDigits whole
        .ok (.int (if negative then -n else n), after)
    else
      let literal : Decimal.Literal := ⟨negative, whole, fraction, exponent.getD 0⟩
      .ok (.float literal.toFloat, after)

/-- The words that stand for values. -/
def words : List (String × Value) :=
  [("null", .null), ("true", .bool true), ("false", .bool false), ("NaN", .float (0.0 / 0.0)),
    ("Infinity", .float (1.0 / 0.0)), ("-Infinity", .float (-(1.0 / 0.0)))]

/-- The value of a word at the front. -/
def readWord? (rest : List Char) : Option (Value × List Char) :=
  words.findSome? fun (word, value) =>
    (word.toList.isPrefixOf? rest).map fun after => (value, after)

section
variable (spare : Option Char)

mutual

/-- The value at the front. -/
def readValue : Nat → List Char → Except Refusal (After Value)
  | 0, rest => fail .value rest
  | fuel + 1, rest =>
    match rest with
    | '"' :: _ => (readQuoted spare rest).map fun (s, rest) => (.text s, rest)
    | '[' :: more =>
      match skipBlanks more with
      | ']' :: after => .ok (.list [], after)
      | more => readItems fuel [] more
    | '\x7b' :: more =>
      match skipBlanks more with
      | '\x7d' :: after => .ok (.map [], after)
      | more => readMembers fuel [] more
    | _ =>
      match readWord? rest with
      | some result => .ok result
      | none => readNumber rest

/-- The items up to the closing bracket, after those already read, which are in reverse. -/
def readItems : Nat → List Value → List Char → Except Refusal (After Value)
  | 0, _, rest => fail .value rest
  | fuel + 1, seen, rest => do
    let (v, rest) ← readValue fuel rest
    match skipBlanks rest with
    | ']' :: after => return (.list (v :: seen).reverse, after)
    | ',' :: more => readItems fuel (v :: seen) (skipBlanks more)
    | rest => fail .comma rest

/-- The members up to the closing brace, after those already read, which are in reverse. -/
def readMembers : Nat → List (Value × Value) → List Char → Except Refusal (After Value)
  | 0, _, rest => fail .name rest
  | fuel + 1, seen, rest =>
    match rest with
    | '"' :: _ => do
      let (name, rest) ← readQuoted spare rest
      match skipBlanks rest with
      | ':' :: more =>
        let (v, rest) ← readValue fuel (skipBlanks more)
        let seen := (.text name, v) :: seen
        match skipBlanks rest with
        | '\x7d' :: after => return (Value.ofEntries seen.reverse, after)
        | ',' :: more => readMembers fuel seen (skipBlanks more)
        | rest => fail .comma rest
      | rest => fail .colon rest
    | _ => fail .name rest

end

/-- The value that makes up a whole text, with `spare` for each half of a pair that is left alone. -/
def readWith (text : List Char) : Except Refusal Value :=
  match text with
  | '\ufeff' :: _ => .error (.at .byteOrderMark text.length)
  | _ => do
    let (v, rest) ← readValue spare (2 * text.length + 2) (skipBlanks text)
    match skipBlanks rest with
    | [] => return v
    | rest => .error (.at .extra rest.length)

end

/-- The value that makes up a whole text. A half of a pair that is left alone is told after all
faults of the text, as it does no harm before it is written. There is no value then, even if the
half would never be written. -/
def read (text : List Char) : Except Refusal Value := do
  let _ ← readWith (some '\ufffd') text
  readWith none text

end FragmentRouting.Json
