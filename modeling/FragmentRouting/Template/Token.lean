import FragmentRouting.Text.Word

/-!
# Tokens of a template

A colon with a name after it stands for one segment of a path, an asterisk with a name after it
for any stretch of a path. A name is a run of word characters, as long as possible. Parentheses
enclose what may be absent. An asterisk without a name repeats what stands before it, and every
other character stands for itself.
-/

namespace FragmentRouting.Template

open Text (isWord)

inductive Token where
  | char (c : Char)
  | segment (name : String)
  | splat (name : String)
  | star
  | opening
  | closing
  deriving DecidableEq, Repr

/-- The token of a character that starts no name. -/
def Token.ofChar (c : Char) : Token :=
  if c = '*' then .star
  else if c = '(' then .opening
  else if c = ')' then .closing
  else .char c

/-- The tokens of a template, where the first `skipped` characters belong to a name already
read. -/
def tokensFrom : Nat → List Char → List Token
  | _, [] => []
  | skipped + 1, _ :: rest => tokensFrom skipped rest
  | 0, c :: rest =>
    let name := rest.takeWhile isWord
    if c = ':' ∧ name ≠ [] then .segment (String.ofList name) :: tokensFrom name.length rest
    else if c = '*' ∧ name ≠ [] then .splat (String.ofList name) :: tokensFrom name.length rest
    else .ofChar c :: tokensFrom 0 rest

/-- The tokens of a template. -/
def tokens (template : String) : List Token :=
  tokensFrom 0 template.toList

/-- The position of the first `mark` with a name after it. -/
def firstNamed? (mark : Char) : List Char → Option Nat
  | [] => none
  | c :: rest =>
    if c = mark ∧ rest.head?.any isWord then some 0 else (firstNamed? mark rest).map (· + 1)

namespace Token

/-- The name that a token gives to what it captures. -/
def name? : Token → Option String
  | segment name | splat name => some name
  | _ => none

def isSplat : Token → Bool
  | splat _ => true
  | _ => false

end Token

end FragmentRouting.Template
