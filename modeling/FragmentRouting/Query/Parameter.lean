import FragmentRouting.Entries
import FragmentRouting.Value.Basic

/-!
# Parameters

What a fragment can hold: text, lists, and blocks of named parameters in the order in which their
names first occurred.
-/

namespace FragmentRouting

inductive Parameter where
  | text (s : String)
  | list (items : List Parameter)
  | block (entries : List (String × Parameter))
  deriving Inhabited

/-- Named parameters in order. -/
abbrev Block := Entries String Parameter

namespace Block

/-- The block inside the block under a name. Text and lists count as an empty block. -/
def inner (name : String) (b : Block) : Block :=
  match Entries.item? name b with
  | some (.block entries) => entries
  | _ => []

/-- Changes the parameter at a path, creating the blocks on the way. -/
def update (change : Option Parameter → Parameter) : List String → Block → Block
  | [], b => b
  | [name], b => Entries.put name (change (Entries.item? name b)) b
  | name :: path, b => Entries.put name (.block (update change path (inner name b))) b

end Block

namespace Parameter

/-- The name of the kind of parameter, as messages give it. -/
def kindName : Parameter → String
  | text _ => "str"
  | list _ => "list"
  | block _ => "dict"

mutual

/-- The parameter as a value to encode. -/
def toValue : Parameter → Value
  | text s => .text s
  | list items => .list (toValues items)
  | block entries => .map (toEntries entries)

def toValues : List Parameter → List Value
  | [] => []
  | p :: rest => toValue p :: toValues rest

def toEntries : List (String × Parameter) → List (Value × Value)
  | [] => []
  | (name, p) :: rest => (.text name, toValue p) :: toEntries rest

end

end Parameter

/-- The block as a value to encode. -/
def Block.toValue (b : Block) : Value :=
  .map (Parameter.toEntries b)

end FragmentRouting
