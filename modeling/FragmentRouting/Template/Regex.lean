import FragmentRouting.Text.Blank
import FragmentRouting.Text.Word

/-!
# The regular expression of a template

The text of a template is rewritten four times: characters that mean something else in a regular
expression are escaped, parentheses with a partner become groups that may be absent, and segments
and splats become groups that capture. The result is anchored at both ends, with a last group for
the query.
-/

namespace FragmentRouting.Template

open Text (isWord)

/-- A character that stands for itself in a template but not in a regular expression. -/
def needsEscape (c : Char) : Bool :=
  ['-', '\x7b', '\x7d', '[', ']', '+', '?', '.', ',', '\\', '^', '$', '|', '#'].contains c
    || Text.isBlank c

/-- What a rewriting finds at the start of a text: the characters to put there, and how many
characters behind the first one they replace. -/
abbrev Finder := List Char → Option (List Char × Nat)

/-- The text with all that a rewriting finds replaced, from the left and without overlap, where the
first `skipped` characters have been replaced already. -/
def rewriteFrom (find : Finder) : Nat → List Char → List Char
  | _, [] => []
  | skipped + 1, _ :: rest => rewriteFrom find skipped rest
  | 0, c :: rest =>
    match find (c :: rest) with
    | some (replacement, more) => replacement ++ rewriteFrom find more rest
    | none => c :: rewriteFrom find 0 rest

def rewrite (find : Finder) (text : List Char) : List Char :=
  rewriteFrom find 0 text

/-- Finds a character to escape. -/
def escape? : Finder
  | [] => none
  | c :: _ => if needsEscape c then some (['\\', c], 0) else none

/-- Finds a mark with a name. -/
def named? (mark : Char) (group : String) : Finder
  | [] => none
  | c :: rest =>
    let name := rest.takeWhile isWord
    if c = mark ∧ name ≠ [] then some (group.toList, name.length) else none

/-- How a group opens that does not capture. -/
def plainOpening : String :=
  "(?:"

/-- The group of a segment. -/
def segmentGroup : String :=
  "([^/?]+)"

/-- The group of a splat. -/
def splatGroup : String :=
  "([^?]*?)"

/-- Finds a segment. The colon of a group that does not capture marks none. -/
def segment? : Finder := fun text =>
  let word := (text.drop plainOpening.length).takeWhile isWord
  if plainOpening.toList.isPrefixOf text ∧ word ≠ [] then
    some (plainOpening.toList ++ word, plainOpening.length - 1 + word.length)
  else named? ':' segmentGroup text

def splat? : Finder :=
  named? '*' splatGroup

/-- The positions of the parentheses that have a partner. `opened` are the positions of the opening
ones that still wait for theirs, the last one first. -/
def partners : Nat → List Nat → List Char → List Nat
  | _, _, [] => []
  | position, opened, c :: rest =>
    if c = '(' then partners (position + 1) (position :: opened) rest
    else if c = ')' then
      match opened with
      | [] => partners (position + 1) [] rest
      | first :: others => first :: position :: partners (position + 1) others rest
    else partners (position + 1) opened rest

/-- A parenthesis that has a partner, or any character that has none. -/
def optionalGroup (c : Char) (paired : Bool) : List Char :=
  if paired then (if c = '(' then plainOpening else ")?").toList else [c]

/-- The text with each pair of parentheses around what may be absent. -/
def optionalGroups (text : List Char) : List Char :=
  let paired := partners 0 [] text
  text.zipIdx.flatMap fun c => optionalGroup c.1 (paired.contains c.2)

/-- The query: all that follows the first question mark outside the path, on one line. -/
def queryRegex : String :=
  "(\\?.*)?"

/-- The regular expression that matches nothing. -/
def neverRegex : String :=
  "(?!)"

/-- The regular expression of a template. -/
def regexOf (template : String) : String :=
  let body := optionalGroups (rewrite escape? template.toList)
  "^" ++ String.ofList (rewrite splat? (rewrite segment? body)) ++ queryRegex ++ "\\Z"

end FragmentRouting.Template
