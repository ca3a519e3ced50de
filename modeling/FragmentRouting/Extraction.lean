import FragmentRouting.Pattern
import FragmentRouting.Query.Block

/-!
# Parameters of a fragment

A fragment that a pattern matches gives the arguments for a handler: a value for each name and a
block for the query, or one block in which the query and the names are merged.
-/

namespace FragmentRouting

open Template (Captures Slot)

/-- What a handler is called with. Nothing stands in the place of a capture that is absent. -/
abbrev Arguments := List (Option Parameter)

namespace Pattern

/-- Whether the capture at a position stays percent-encoded. If a splat comes first, all do. -/
def keepsRaw (p : Pattern) (slot : Nat) : Bool :=
  p.encodedSplats && p.hasSplat && (p.leadsWithSplat || p.splatSlots.contains slot)

/-- The texts of the captures. -/
def slotTexts (p : Pattern) (slots : List Slot) : List Slot :=
  slots.zipIdx.map fun (slot, i) => slot.map fun text =>
    if p.keepsRaw i then text else Percent.decode text

/-- The block of the query, which is given with its question mark. -/
def queryBlock (p : Pattern) (query : String) : Block :=
  Query.decode (String.ofList (query.toList.drop 1)) p.delimiter

/-- The block in which the captures are set by name, after the query. Absent ones are left out. -/
def namedBlock (names : List String) (texts : List Slot) (block : Block) : Block :=
  (names.zip texts).foldl
    (fun b (name, text) => match text with
      | some s => Entries.put name (.text s) b
      | none => b)
    block

/-- The arguments that captures give. -/
def argumentsOf (p : Pattern) (captures : Captures) : Arguments :=
  let texts := p.slotTexts captures.slots
  let block := captures.query.map p.queryBlock
  if p.named then [some (.block (namedBlock p.names texts (block.getD [])))]
  else texts.map (·.map .text) ++ (block.map fun b => some (.block b)).toList

/-- The arguments of a fragment. -/
def argumentsFor (p : Pattern) (fragment : String) : Except Failure Arguments :=
  match p.captures? fragment with
  | some captures => .ok (p.argumentsOf captures)
  | none => .error (.mismatch p.template fragment)

/-- The texts that extraction reads for percent-escapes, in order: first those of the query. -/
def escapedTexts (p : Pattern) (fragment : String) : List String :=
  match p.captures? fragment with
  | none => []
  | some captures =>
    let inQuery := (captures.query.map fun query =>
      (Query.pairs (String.ofList (query.toList.drop 1))).flatMap fun pair =>
        Query.escapedTexts p.delimiter pair.raw).getD []
    inQuery ++ (captures.slots.zipIdx.filter fun s => !p.keepsRaw s.2).filterMap fun s => s.1

end Pattern

end FragmentRouting
