import FragmentRouting.Extraction

/-!
# Events

What the library reports of its work, as records of a channel, a level and a message. The events
of an operation are a function of what the operation was given.
-/

namespace FragmentRouting

open Text (quoted)

inductive Event where
  /-- A template without meaning was compiled. -/
  | meaningless (template : String)
  | compiled (template regex : String)
  | registered (template name : String)
  | unmatched (fragment : String)
  | matched (fragment template : String)
  | malformedEscape (text : String)
  | notUtf8 (text : String)
  deriving DecidableEq, Repr

namespace Event

def channel : Event → String
  | malformedEscape _ | notUtf8 _ => "fragroute.query"
  | _ => "fragroute.routing"

def level : Event → String
  | meaningless _ => "WARNING"
  | _ => "DEBUG"

def message : Event → String
  | meaningless template =>
    "Route " ++ quoted template ++ " does not compile (<re.error>), it will never match"
  | compiled template regex => "Compiled route " ++ quoted template ++ " as " ++ quoted regex
  | registered template name =>
    "Registered route " ++ quoted template ++ " -> " ++ (if name.isEmpty then "<anonymous>" else name)
  | unmatched fragment => "No route matches " ++ quoted fragment
  | matched fragment template =>
    "Fragment " ++ quoted fragment ++ " matched route " ++ quoted template
  | malformedEscape text => "Malformed percent-escape in " ++ quoted text ++ ", keeping raw value"
  | notUtf8 text => "Escapes in " ++ quoted text ++ " are not valid UTF-8, keeping raw value"

/-- The event of reading an escaped text, if it cannot be read. -/
def ofReading? (text : String) : Option Event :=
  match Percent.read text.toList with
  | .decoded _ => none
  | .malformed => some (.malformedEscape text)
  | .notUtf8 => some (.notUtf8 text)

/-- The events of compiling a pattern. -/
def ofTemplate (p : Pattern) : List Event :=
  (if p.items.isNone then [.meaningless p.template] else []) ++ [.compiled p.template p.regex]

/-- The events of decoding a query string. -/
def ofQuery (text : String) (delimiter : Delimiter) : List Event :=
  (Query.pairs text).flatMap fun pair =>
    (Query.escapedTexts delimiter pair.raw).filterMap ofReading?

/-- The events of extracting the parameters of a fragment. -/
def ofExtraction (p : Pattern) (fragment : String) : List Event :=
  (p.escapedTexts fragment).filterMap ofReading?

end Event

end FragmentRouting
