import FragmentRouting.Text.Pieces

/-!
# Pairs of a query string

A query string is a row of pairs between ampersands. The first equals sign of a pair ends its key,
and the points of the key separate the names on a path. A pair of brackets in a key, plain or
percent-encoded, marks a list and is no part of the names.
-/

namespace FragmentRouting.Query

/-- A path of names with the text found at it. -/
structure Pair where
  path : List String
  raw : String
  deriving DecidableEq, Repr

/-- The length of the list marker that a text starts with, or zero. -/
def markerLength : List Char → Nat
  | '[' :: ']' :: _ => 2
  | '%' :: '5' :: b :: '%' :: '5' :: d :: _ =>
    if (b = 'B' ∨ b = 'b') ∧ (d = 'D' ∨ d = 'd') then 6 else 0
  | _ => 0

/-- A key without its list markers, where the first `skipped` characters belong to a marker
already found. -/
def unmarkedFrom : Nat → List Char → List Char
  | _, [] => []
  | skipped + 1, _ :: rest => unmarkedFrom skipped rest
  | 0, c :: rest =>
    match markerLength (c :: rest) with
    | 0 => c :: unmarkedFrom 0 rest
    | length + 1 => unmarkedFrom length rest

/-- A key without its list markers, found from the left in one pass. -/
def unmarked (key : List Char) : List Char :=
  unmarkedFrom 0 key

/-- The names on the path of a key. -/
def pathOf (key : List Char) : List String :=
  ((unmarked key).splitOn '.').map String.ofList

def Pair.ofText (text : List Char) : Pair :=
  let (key, raw) := Text.cutAt '=' text
  ⟨pathOf key, String.ofList raw⟩

/-- The pairs of a query string. Nothing between two ampersands is no pair. -/
def pairs (text : String) : List Pair :=
  ((text.toList.splitOn '&').filter (!·.isEmpty)).map Pair.ofText

end FragmentRouting.Query
