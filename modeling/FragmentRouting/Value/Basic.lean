import FragmentRouting.Decimal.Binary
import FragmentRouting.Value.Calendar

/-!
# Values

What an application hands to the query encoder. Only some kinds of value have a place in a query;
the others are here because a caller can pass them and has to be told.
-/

namespace FragmentRouting

/-- A decimal number that keeps its trailing zeros: `coefficient * 10 ^ exponent`. -/
structure ScaledDecimal where
  negative : Bool
  coefficient : Nat
  exponent : Int
  deriving DecidableEq, Repr

inductive Value where
  | null
  | bool (b : Bool)
  | int (n : Int)
  | float (x : Float)
  | text (s : String)
  | date (d : Date)
  | dateTime (t : DateTime)
  | list (items : List Value)
  | tuple (items : List Value)
  | map (entries : List (Value × Value))
  | set (items : List Value)
  | bytes (bytes : List UInt8)
  | clock (c : Clock)
  | duration (d : Duration)
  | decimal (d : ScaledDecimal)
  | complex (re im : Float)
  | object
  | kind (name : String)
  deriving Inhabited

namespace Value

/-- The name of the kind of value, as messages give it. -/
def kindName : Value → String
  | null => "NoneType"
  | bool _ => "bool"
  | int _ => "int"
  | float _ => "float"
  | text _ => "str"
  | date _ => "date"
  | dateTime _ => "datetime"
  | list _ => "list"
  | tuple _ => "tuple"
  | map _ => "dict"
  | set _ => "set"
  | bytes _ => "bytes"
  | clock _ => "time"
  | duration _ => "timedelta"
  | decimal _ => "Decimal"
  | complex _ _ => "complex"
  | object => "object"
  | kind _ => "type"

/-- Null, false, zero and whatever is empty count as nothing. -/
def isNothing : Value → Bool
  | null => true
  | bool b => !b
  | int n => n == 0
  | float x => x == 0
  | text s => s.isEmpty
  | list items | tuple items | set items => items.isEmpty
  | map entries => entries.isEmpty
  | bytes b => b.isEmpty
  | duration d => d.seconds == 0
  | decimal d => d.coefficient == 0
  | complex re im => re == 0 && im == 0
  | date _ | dateTime _ | clock _ | object | kind _ => false

/-- The values that are written as one text in a query. -/
def isScalar : Value → Bool
  | bool _ | int _ | float _ | text _ | date _ | dateTime _ => true
  | _ => false

/-- Numbers are compared by size, whatever their kind. -/
def sameNumber (x y : Value) : Bool :=
  match x, y with
  | float a, float b => a == b
  | float a, y => match Decimal.wholeNumber? a, whole? y with
    | some m, some n => m == n
    | _, _ => false
  | x, float b => match whole? x, Decimal.wholeNumber? b with
    | some m, some n => m == n
    | _, _ => false
  | x, y => match whole? x, whole? y with
    | some m, some n => m == n
    | _, _ => false
where
  whole? : Value → Option Int
    | int n => some n
    | bool b => some (if b then 1 else 0)
    | _ => none

mutual

/-- Whether two values are one key of a mapping. -/
def sameKey : Value → Value → Bool
  | null, null => true
  | text a, text b => a == b
  | date a, date b => a == b
  | dateTime a, dateTime b => a == b
  | tuple as, tuple bs => sameKeys as bs
  | a, b => sameNumber a b

def sameKeys : List Value → List Value → Bool
  | [], [] => true
  | a :: as, b :: bs => sameKey a b && sameKeys as bs
  | _, _ => false

end

/-- Sets the item of a key, which keeps its place if it is there already. -/
def putEntry (key item : Value) : List (Value × Value) → List (Value × Value)
  | [] => [(key, item)]
  | (k, v) :: rest => if sameKey k key then (k, item) :: rest else (k, v) :: putEntry key item rest

/-- The mapping built by setting one item after the other. -/
def ofEntries (entries : List (Value × Value)) : Value :=
  map (entries.foldl (fun m e => putEntry e.1 e.2 m) [])

end Value

end FragmentRouting
