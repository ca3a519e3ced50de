import FragmentRouting.Text.Quoted

/-!
# Failures

Every way in which an operation of the library can fail, with the message that a caller reads.
-/

namespace FragmentRouting

open Text (quoted)

inductive Failure where
  /-- A list delimiter of two or more characters. -/
  | delimiterTooLong (delimiter : String)
  /-- A list delimiter that a query string or a fragment needs for itself. -/
  | delimiterReserved (delimiter : String)
  /-- No handler goes by the name under which a route was to be registered. -/
  | unknownHandler (name template : String)
  /-- A command line target that describes no router. -/
  | notARouter (target kind : String)
  /-- Parameters were asked for of a fragment that the pattern does not match. -/
  | mismatch (template fragment : String)
  /-- The value to encode as a query is not a mapping. -/
  | notAMapping (kind : String)
  /-- An item of a mapping has a kind that no query can hold. -/
  | notEncodable (kind name : String)
  /-- A value other than text was given where a template or a fragment belongs. -/
  | notText (kind : String)
  /-- A value other than text was given where the name of a handler belongs. -/
  | notAName (kind : String)
  /-- A value that cannot be called was given as a handler. -/
  | notCallable (kind : String)
  /-- An operation was called with too few or too many arguments. -/
  | argumentCount (operation : String)
  /-- A handler failed by itself. -/
  | raised (handler : String)
  /-- Handlers dispatched each other without end. -/
  | nestedTooDeep
  /-- A module lacks the name that was asked for. -/
  | noAttribute (module name : String)
  /-- A module that cannot be found. `parent` is set if it was looked for inside a plain module. -/
  | noModule (name : String) (parent : Option String)
  /-- A target without a module name. -/
  | emptyModuleName
  /-- A target that is relative to nothing. -/
  | relativeModuleName (name : String)
  /-- A whole number has too many digits to be converted. -/
  | tooManyDigits (count limit : Nat)
  /-- A half of a surrogate pair is left alone, so that the text it stands in cannot be written. -/
  | unpairedSurrogate
  deriving DecidableEq, Repr

namespace Failure

/-- What kind of fault a failure is. -/
inductive Category where
  | configuration
  | mismatch
  | type
  | value
  | attribute
  | missingModule
  | recursion
  deriving DecidableEq, Repr

def category : Failure → Category
  | delimiterTooLong _ | delimiterReserved _ | unknownHandler _ _ | notARouter _ _ =>
    .configuration
  | mismatch _ _ => .mismatch
  | notAMapping _ | notEncodable _ _ | notText _ | notAName _ | notCallable _
  | argumentCount _ | relativeModuleName _ => .type
  | raised _ | emptyModuleName | tooManyDigits _ _ | unpairedSurrogate => .value
  | noAttribute _ _ => .attribute
  | noModule _ _ => .missingModule
  | nestedTooDeep => .recursion

def message : Failure → String
  | delimiterTooLong d => "array_delimiter must be a single character, got " ++ quoted d
  | delimiterReserved d => "array_delimiter " ++ quoted d ++ " collides with query-string syntax"
  | unknownHandler name template =>
    "No handler named " ++ quoted name ++ " for route " ++ quoted template
  | notARouter target kind =>
    quoted target ++ " is a " ++ kind ++ "; expected a Router, a Router subclass, "
      ++ "a route_map mapping, or a factory returning one of those"
  | mismatch template fragment =>
    "Fragment " ++ quoted fragment ++ " does not match route " ++ quoted template
  | notAMapping kind => "encode_query expects a mapping, got " ++ kind
  | notEncodable kind name => "Cannot encode " ++ kind ++ " value for query key " ++ quoted name
  | notText kind => "expected string or bytes-like object, got '" ++ kind ++ "'"
  | notAName kind => "attribute name must be string, not '" ++ kind ++ "'"
  | notCallable kind => "'" ++ kind ++ "' object is not callable"
  | argumentCount operation => "wrong number of arguments for " ++ quoted operation
  | raised handler => "raised by " ++ handler
  | nestedTooDeep => "maximum recursion depth exceeded"
  | noAttribute module name => "module " ++ quoted module ++ " has no attribute " ++ quoted name
  | noModule name none => "No module named " ++ quoted name
  | noModule name (some parent) =>
    "No module named " ++ quoted name ++ "; " ++ quoted parent ++ " is not a package"
  | emptyModuleName => "Empty module name"
  | relativeModuleName name =>
    "the 'package' argument is required to perform a relative import for " ++ quoted name
  | tooManyDigits count limit =>
    "Exceeds the limit (" ++ toString limit ++ " digits) for integer string conversion: value has "
      ++ toString count ++ " digits; use sys.set_int_max_str_digits() to increase the limit"
  | unpairedSurrogate => "surrogates not allowed"

end Failure

end FragmentRouting
