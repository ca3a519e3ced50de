import FragmentRouting.Extraction
import FragmentRouting.Text.Digit

/-!
# Printing JSON

One line, with a space after each comma and colon. Only quotes, backslashes and controls are
escaped.
-/

namespace FragmentRouting.Json

def escapeChar (c : Char) : List Char :=
  if c = '"' ∨ c = '\\' then ['\\', c]
  else if c = '\n' then ['\\', 'n']
  else if c = '\r' then ['\\', 'r']
  else if c = '\t' then ['\\', 't']
  else if c = '\x08' then ['\\', 'b']
  else if c = '\x0c' then ['\\', 'f']
  else if c.toNat < 32 then '\\' :: 'u' :: Text.lowerHex 4 c.toNat
  else [c]

def quoted (text : String) : String :=
  String.ofList ('"' :: text.toList.flatMap escapeChar ++ ['"'])

def array (items : List String) : String :=
  "[" ++ ", ".intercalate items ++ "]"

def object (members : List String) : String :=
  "\x7b" ++ ", ".intercalate members ++ "\x7d"

mutual

def printed : Parameter → String
  | .text s => quoted s
  | .list items => array (printedItems items)
  | .block entries => object (printedMembers entries)

def printedItems : List Parameter → List String
  | [] => []
  | p :: rest => printed p :: printedItems rest

def printedMembers : List (String × Parameter) → List String
  | [] => []
  | (name, p) :: rest => (quoted name ++ ": " ++ printed p) :: printedMembers rest

end

def printedBlock (b : Block) : String :=
  object (printedMembers b)

/-- An absent argument is null. -/
def printedArguments (arguments : Arguments) : String :=
  array (arguments.map fun p => (p.map printed).getD "null")

end FragmentRouting.Json
