import FragmentRouting.Query.Segment
import FragmentRouting.Router.Handler

/-!
# Routers

A router keeps its routes newest first and gives a fragment to the first route whose pattern
matches it.
-/

namespace FragmentRouting

structure Route where
  pattern : Pattern
  handler : Option Handler
  /-- The name that was given for the handler. -/
  name : Option Parameter

/-- A route with the arguments that a fragment gives its handler. -/
structure Selection where
  route : Route
  arguments : Arguments

structure Router where
  config : Config := .standard
  /-- The names under which a handler is found apart from the operations: what the application
  defines, and whatever else of a router can be called. -/
  methods : List String := []
  /-- The routes, newest first. -/
  routes : List Route := []

namespace Router

/-- The handler of a name: one of `methods`, or an operation of the router. -/
def handler? (r : Router) (name : String) : Option Handler :=
  if r.methods.contains name then some (.function name)
  else (Operation.ofName? name).map .operation

/-- The handler that a name stands for. An empty name stands for none. -/
def resolve (r : Router) (template : String) : Option Parameter → Except Failure (Option Handler)
  | none => .ok none
  | some (.text name) =>
    if name.isEmpty then .ok none
    else
      match r.handler? name with
      | some h => .ok (some h)
      | none => .error (.unknownHandler name template)
  | some (.list items) => if items.isEmpty then .ok none else .error (.notAName "list")
  | some (.block entries) => if entries.isEmpty then .ok none else .error (.notAName "dict")

/-- The handler and the name of a new route. A handler given as designation goes before
`explicit`. A name is looked up only without it, so with it even a value that names nothing will
do. -/
def settle (r : Router) (template : String) (designation : Designation)
    (explicit : Option Handler) : Except Failure (Option Handler × Option Parameter) :=
  match designation, explicit with
  | .handler h, _ => .ok (some h, some (.text h.name))
  | .name n, some h => .ok (some h, n)
  | .name n, none => (r.resolve template n).map fun h => (h, n)
  | .misfit _ text, some h => .ok (some h, some (.text text))
  | .misfit kind _, none => .error (.notAName kind)

/-- The router with one more route, which is tried before the others. -/
def register (r : Router) (pattern : Pattern) (designation : Designation)
    (explicit : Option Handler := none) : Except Failure Router := do
  let (handler, name) ← r.settle pattern.template designation explicit
  return { r with routes := ⟨pattern, handler, name⟩ :: r.routes }

/-- The first route that matches a fragment, with its arguments. -/
def select? (r : Router) (fragment : String) : Option Selection :=
  r.routes.findSome? fun route =>
    (route.pattern.captures? fragment).map fun captures =>
      ⟨route, route.pattern.argumentsOf captures⟩

/-- A path with a query behind a question mark, unless the query is nothing or becomes the empty
text. A text is taken as a query that is already encoded. -/
def address (r : Router) (path : String) (query : Value) : Except Failure String := do
  let text ← match query with
    | .text s => pure s
    | v => Query.encode v "" r.config.delimiter
  return if text.isEmpty then path else path ++ "?" ++ text

end Router

end FragmentRouting
