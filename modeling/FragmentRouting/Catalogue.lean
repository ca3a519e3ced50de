import FragmentRouting.Failure

/-!
# Public names

The names that the library offers, and the module that defines each.
-/

namespace FragmentRouting

inductive Published.Kind where
  | type
  | function
  deriving DecidableEq, Repr

/-- What a public name stands for. -/
inductive Published where
  | definition (kind : Published.Kind) (module name : String)
  | text (s : String)
  | names (names : List String)
  deriving DecidableEq, Repr

/-- Each public definition with its kind and its module, in alphabetical order. -/
def catalogue : List (String × Published.Kind × String) :=
  [("ConfigurationError", .type, "fragroute.errors"),
    ("FragrouteError", .type, "fragroute.errors"),
    ("Pattern", .type, "fragroute.routing.pattern"),
    ("PatternMismatch", .type, "fragroute.errors"),
    ("Route", .type, "fragroute.routing.route"),
    ("RouteMatch", .type, "fragroute.routing.route"),
    ("Router", .type, "fragroute.routing.router"),
    ("RouterConfig", .type, "fragroute.config"),
    ("compile_pattern", .function, "fragroute.routing.pattern"),
    ("decode_query", .function, "fragroute.query"),
    ("decode_value", .function, "fragroute.query"),
    ("encode_query", .function, "fragroute.query"),
    ("extract_parameters", .function, "fragroute.routing.params")]

/-- What a public name stands for. -/
def published (name : String) : Except Failure Published :=
  if name = "__version__" then .ok (.text "0.1.0")
  else if name = "__all__" then .ok (.names (catalogue.map fun d => d.1))
  else
    match catalogue.lookup name with
    | some (kind, module) => .ok (.definition kind module name)
    | none => .error (.noAttribute "fragroute" name)

end FragmentRouting
