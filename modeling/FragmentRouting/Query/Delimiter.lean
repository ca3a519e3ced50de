import FragmentRouting.Failure
import FragmentRouting.Percent

/-!
# List delimiters

A delimiter between the items of a list keeps a list in one query value. Without one, a list is a
repeated key.
-/

namespace FragmentRouting

/-- The text between list items. Both `none` and the empty text switch lists in one value off. -/
abbrev Delimiter := Option String

namespace Delimiter

/-- Characters that carry a meaning in a query string or a fragment. -/
def reserved : List Char :=
  ['&', '=', '.', '?', '#', '%']

/-- Why a delimiter may not be configured, if it may not. -/
def fault? : Delimiter → Option Failure
  | none => none
  | some text =>
    match text.toList with
    | [] => none
    | [c] => if reserved.contains c then some (.delimiterReserved text) else none
    | _ => some (.delimiterTooLong text)

/-- The characters of a delimiter that is switched on. -/
def enabled? : Delimiter → Option (List Char)
  | none => none
  | some text => if text.isEmpty then none else some text.toList

/-- The items that a raw value holds, if it is a list. Empty pieces are no items. -/
def items? (delimiter : Delimiter) (raw : String) : Option (List String) :=
  match delimiter.enabled? with
  | none => none
  | some separator =>
    match Text.pieces separator raw.toList with
    | [_] => none
    | pieces => some ((pieces.filter (!·.isEmpty)).map String.ofList)

/-- Percent-encodes a text so that the delimiter does not occur in it. -/
def encode (delimiter : Delimiter) (text : String) : String :=
  let encoded := Percent.encode text.toList
  String.ofList <|
    match delimiter.enabled? with
    | none => encoded
    | some separator => Text.replace separator (separator.flatMap Percent.escape) encoded

end Delimiter

end FragmentRouting
