import FragmentRouting.Template.Item

/-!
# Matching a fragment

A fragment is a path and perhaps a query, which begins with a question mark and lies on one line.
The items of a template are matched against the path from the left. Where there is a choice, the
preferred one is tried first: a longer segment before a shorter one, a shorter splat before a
longer one, a group before its absence, a further repetition before none.

Matching passes on what it captured and the text that is left to a function for the rest of the
match; if that fails, the next choice is tried.
-/

namespace FragmentRouting.Template

/-- A captured text, or nothing if the capture lies in a group that is absent. -/
abbrev Slot := Option String

/-- The longest text at the front that a segment can read: no slash and no question mark. -/
def segmentRun (text : List Char) : List Char :=
  text.takeWhile fun c => c ≠ '/' && c ≠ '?'

/-- The longest text at the front that a splat can read: no question mark. -/
def splatRun (text : List Char) : List Char :=
  text.takeWhile (· ≠ '?')

namespace Atom

/-- How many characters an atom can read at the front of a text, in order of preference. -/
def lengths (text : List Char) : Atom → List Nat
  | char c => if text.head? = some c then [1] else []
  | segment => (List.range' 1 (segmentRun text).length).reverse
  | splat => List.range ((splatRun text).length + 1)

/-- Reads an atom in every way, in order of preference, until `next` accepts the text read and the
text left. -/
def reading {β : Type} (text : List Char) (next : List Char → List Char → Option β) (a : Atom) :
    Option β :=
  (a.lengths text).findSome? fun n => next (text.take n) (text.drop n)

/-- The captures of an atom that has read `word`. -/
def captures (word : List Char) : Atom → List Slot
  | char _ => []
  | segment | splat => [some (String.ofList word)]

/-- The captures of an atom that has read nothing. -/
def absent : Atom → List Slot
  | char _ => []
  | segment | splat => [none]

/-- Reads an atom any number of times and keeps the captures of the last time. A time that reads
the empty text is the last. -/
def readingMany {β : Type} (a : Atom) (next : List Slot → List Char → Option β) :
    Nat → List Slot → List Char → Option β
  | 0, last, text => next last text
  | fuel + 1, last, text =>
    (a.reading text fun word left =>
        if word.isEmpty then next (a.captures word) left
        else readingMany a next fuel (a.captures word) left)
      <|> next last text

end Atom

mutual

/-- The captures of an item that is absent. -/
def Item.absent : Item → List Slot
  | .once a | .many a => a.absent
  | .optional body => absentSlots body

/-- The captures of items that are absent. -/
def absentSlots : List Item → List Slot
  | [] => []
  | item :: rest => item.absent ++ absentSlots rest

end

mutual

def matchItem {β : Type} (text : List Char) (next : List Slot → List Char → Option β) :
    Item → Option β
  | .once a => a.reading text fun word left => next (a.captures word) left
  | .many a => a.readingMany next (text.length + 1) a.absent text
  | .optional body => matchItems text next body <|> next (absentSlots body) text

/-- Matches the items one after the other from the front of the text, and then `next`. -/
def matchItems {β : Type} (text : List Char) (next : List Slot → List Char → Option β) :
    List Item → Option β
  | [] => next [] text
  | item :: rest =>
    matchItem text
      (fun captured left => matchItems left (fun more left => next (captured ++ more) left) rest)
      item

end

/-- What a fragment holds: a slot for each name of the template, and the query with its question
mark. -/
structure Captures where
  slots : List Slot
  query : Option String
  deriving DecidableEq, Repr

/-- The query that makes up the whole text, if nothing else is left. -/
def query? : List Char → Option (Option String)
  | [] => some none
  | c :: rest =>
    if c = '?' ∧ !rest.contains '\n' then some (some (String.ofList (c :: rest))) else none

/-- Matches the whole fragment. -/
def match? (items : List Item) (fragment : String) : Option Captures :=
  matchItems fragment.toList
    (fun slots left => (query? left).map fun query => ⟨slots, query⟩) items

end FragmentRouting.Template
