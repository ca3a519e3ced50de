import FragmentRouting.Query.Delimiter
import FragmentRouting.Query.Pair
import FragmentRouting.Query.Parameter

/-!
# The block of a query string

The pairs of a query string are read one after the other into a block. A list replaces what its
path held before, a text joins it.
-/

namespace FragmentRouting.Query

/-- The parameter at a path after one more raw value. -/
def absorb (delimiter : Delimiter) (raw : String) (current : Option Parameter) : Parameter :=
  match delimiter.items? raw with
  | some items => .list (items.map fun item => .text (Percent.decode item))
  | none =>
    let value := Parameter.text (Percent.decode raw)
    match current with
    | none => value
    | some (.text s) => if s.isEmpty then value else .list [.text s, value]
    | some (.list items) => .list (items ++ [value])
    | some (.block entries) => .list [.block entries, value]

/-- The block after one more pair. -/
def addPair (delimiter : Delimiter) (b : Block) (pair : Pair) : Block :=
  b.update (absorb delimiter pair.raw) pair.path

/-- The block of a row of pairs. -/
def blockOf (delimiter : Delimiter) (pairs : List Pair) : Block :=
  pairs.foldl (addPair delimiter) []

/-- The block of a query string. -/
def decode (text : String) (delimiter : Delimiter := some "|") : Block :=
  blockOf delimiter (pairs text)

/-- The texts that decoding a raw value reads for escapes. -/
def escapedTexts (delimiter : Delimiter) (raw : String) : List String :=
  (delimiter.items? raw).getD [raw]

end FragmentRouting.Query
