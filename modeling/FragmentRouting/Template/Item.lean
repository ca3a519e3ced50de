import FragmentRouting.Template.Nested
import FragmentRouting.Template.Token

/-!
# Items of a template

What a fragment is matched against: characters and captures, of which an asterisk may repeat one,
and groups that may be absent. A template with a parenthesis that has no partner, or with an
asterisk that has nothing to repeat, has no items.
-/

namespace FragmentRouting.Template

/-- What an asterisk can repeat. -/
inductive Atom where
  | char (c : Char)
  | segment
  | splat
  deriving DecidableEq, Repr

inductive Item where
  | once (a : Atom)
  | many (a : Atom)
  | optional (body : List Item)

/-- An item, or an asterisk that still has to find what it repeats. -/
inductive Part where
  | atom (a : Atom)
  | optional (body : List Item)
  | star

/-- The part that a token stands for. A parenthesis left alone stands for none. -/
def Token.part? : Token → Option Part
  | char c => some (.atom (.char c))
  | segment _ => some (.atom .segment)
  | splat _ => some (.atom .splat)
  | star => some .star
  | opening | closing => none

/-- Each asterisk repeats the atom before it. An asterisk at the start, after a group or after
another asterisk has nothing to repeat. -/
def itemsOfParts? : List Part → Option (List Item)
  | [] => some []
  | .atom a :: .star :: rest => (itemsOfParts? rest).map (.many a :: ·)
  | .atom a :: rest => (itemsOfParts? rest).map (.once a :: ·)
  | .optional body :: rest => (itemsOfParts? rest).map (.optional body :: ·)
  | .star :: _ => none

mutual

def partOf? : Nested Token → Option Part
  | .leaf t => t.part?
  | .group body => (partsOf? body).bind fun parts => (itemsOfParts? parts).map .optional

def partsOf? : List (Nested Token) → Option (List Part)
  | [] => some []
  | node :: rest => (partOf? node).bind fun part => (partsOf? rest).map (part :: ·)

end

/-- The trees of a template. -/
def nodes (template : String) : List (Nested Token) :=
  Nested.nest .opening .closing (tokens template)

/-- The items of a template, if it has any meaning. -/
def items? (template : String) : Option (List Item) :=
  (partsOf? (nodes template)).bind itemsOfParts?

/-- How many captures an atom makes. -/
def Atom.slots : Atom → Nat
  | char _ => 0
  | segment | splat => 1

mutual

def Item.slots : Item → Nat
  | .once a | .many a => a.slots
  | .optional body => slotsOf body

/-- How many captures the items make. -/
def slotsOf : List Item → Nat
  | [] => 0
  | item :: rest => item.slots + slotsOf rest

end

end FragmentRouting.Template
