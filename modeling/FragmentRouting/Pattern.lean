import FragmentRouting.Config
import FragmentRouting.Template.Matching
import FragmentRouting.Template.Regex

/-!
# Patterns

A pattern is a compiled template together with the settings under which its parameters are
extracted. Every template compiles; one without meaning gives a pattern that matches nothing.
-/

namespace FragmentRouting

open Template (Captures Item Token)

structure Pattern where
  template : String
  named : Bool
  encodedSplats : Bool
  delimiter : Delimiter
  /-- The compiled template. -/
  items : Option (List Item) := Template.items? template
  compiled : items = Template.items? template := by rfl

namespace Pattern

/-- Compiles a template. The settings are those of `config`, unless `named` says otherwise. -/
def ofTemplate (template : String) (named : Option Bool := none) (config : Config := .standard) : Pattern :=
  { template
    named := named.getD config.named
    encodedSplats := config.encodedSplats
    delimiter := config.delimiter }

/-- The tokens of the template that capture something. -/
def namedTokens (p : Pattern) : List Token :=
  (Template.tokens p.template).filter fun t => t.name?.isSome

/-- The names of the captures, in order. -/
def names (p : Pattern) : List String :=
  (Template.tokens p.template).filterMap Token.name?

/-- The positions of the splats among the captures. -/
def splatSlots (p : Pattern) : List Nat :=
  (p.namedTokens.zipIdx.filter fun t => t.1.isSplat).map fun t => t.2

/-- How far the first splat stands behind the first segment, or `-1` if there is no segment. There
is none without a splat. -/
def splatOffset? (p : Pattern) : Option Int :=
  let text := p.template.toList
  (Template.firstNamed? '*' text).map fun splat =>
    match Template.firstNamed? ':' text with
    | some segment => (splat : Int) - segment
    | none => -1

def hasSplat (p : Pattern) : Bool :=
  p.splatOffset?.isSome

/-- Whether a splat stands before every segment. -/
def leadsWithSplat (p : Pattern) : Bool :=
  p.splatOffset?.any (· < 0)

/-- The regular expression of the template. -/
def regex (p : Pattern) : String :=
  match p.items with
  | none => Template.neverRegex
  | some _ => Template.regexOf p.template

/-- The groups of the regular expression: one for each capture, and one for the query. -/
def groups (p : Pattern) : Nat :=
  match p.items with
  | none => 0
  | some items => Template.slotsOf items + 1

/-- What the pattern captures of a fragment that it matches as a whole. -/
def captures? (p : Pattern) (fragment : String) : Option Captures :=
  p.items.bind fun items => Template.match? items fragment

def isMatch (p : Pattern) (fragment : String) : Bool :=
  (p.captures? fragment).isSome

end Pattern

end FragmentRouting
