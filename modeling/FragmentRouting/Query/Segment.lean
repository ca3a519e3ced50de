import FragmentRouting.Query.Delimiter
import FragmentRouting.Value.Written

/-!
# Segments of a query string

A mapping becomes a row of segments `name=text` between ampersands. Mappings inside it prolong the
names, and whatever is null or empty has no segment.
-/

namespace FragmentRouting

/-- The text of a value in a query. Whole numbers have no fraction, and a day and its time are
joined by a `T`. -/
def Value.queryText : Value → String
  | bool b => if b then "true" else "false"
  | date d => d.text
  | dateTime t => t.textWith "T"
  | float x => match Decimal.wholeNumber? x with
    | some n => toString n
    | none => Decimal.floatText x
  | v => v.display

namespace Query

/-- The percent-encoded text of a value. -/
def fieldText (v : Value) (delimiter : Delimiter := some "|") : String :=
  delimiter.encode v.queryText

/-- Segments between ampersands. -/
def joined (segments : List String) : String :=
  "&".intercalate segments

/-- The segments of a list. Null items are left out, and a list without other items has no
segment. -/
def listSegments (delimiter : Delimiter) (name : String) (items : List Value) : List String :=
  let present := items.filter fun v => match v with
    | .null => false
    | _ => true
  let texts := present.map fun v => fieldText v delimiter
  match texts, delimiter.enabled? with
  | [], _ => []
  | _, none => texts.map fun text => name ++ "=" ++ text
  | _, some separator => [name ++ "=" ++ String.join (texts.map (String.ofList separator ++ ·))]

mutual

/-- The segments of the item under a name. -/
def itemSegments (delimiter : Delimiter) (name : String) :
    Value → Except Failure (List String)
  | .null => .ok []
  | .list items | .tuple items => .ok (listSegments delimiter name items)
  | .map entries => do
    let text := joined (← entrySegments delimiter (name ++ ".") entries)
    return if text.isEmpty then [] else [text]
  | v =>
    if v.isScalar then .ok [name ++ "=" ++ fieldText v delimiter]
    else .error (.notEncodable v.kindName name)

/-- The segments of the entries of a mapping, whose names follow `stem`. -/
def entrySegments (delimiter : Delimiter) (stem : String) :
    List (Value × Value) → Except Failure (List String)
  | [] => .ok []
  | (key, item) :: rest => do
    let first ← itemSegments delimiter (stem ++ key.display) item
    return first ++ (← entrySegments delimiter stem rest)

end

/-- The query string of a mapping. Nothing at all becomes the empty text. -/
def encode (v : Value) (stem : String := "") (delimiter : Delimiter := some "|") :
    Except Failure String :=
  if v.isNothing then .ok ""
  else
    match v with
    | .map entries => do return joined (← entrySegments delimiter stem entries)
    | _ => .error (.notAMapping v.kindName)

end Query

end FragmentRouting
