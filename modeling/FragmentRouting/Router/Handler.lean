import FragmentRouting.Extraction

/-!
# Handlers

What a route calls with the parameters of a fragment.
-/

namespace FragmentRouting

/-- The operations of a router that a route can call. -/
inductive Operation where
  | dispatch
  | select
  | route
  | address
  | execute
  deriving DecidableEq, Repr

namespace Operation

def all : List Operation :=
  [dispatch, select, route, address, execute]

/-- The name by which a route can ask for an operation. -/
def name : Operation → String
  | dispatch => "dispatch"
  | select => "match"
  | route => "route"
  | address => "to_fragment"
  | execute => "execute"

/-- The operation of a name. -/
def ofName? (name : String) : Option Operation :=
  all.find? fun o => o.name = name

end Operation

inductive Handler where
  /-- A function of the application. -/
  | function (name : String)
  /-- A function of the application that fails whenever it is called. -/
  | failing (name : String)
  /-- An object of the application that can be called but has no name of its own. -/
  | unnamed (label : String)
  | operation (o : Operation)
  /-- A value that cannot be called. -/
  | value (p : Parameter)

/-- The name under which a route to the handler is listed. -/
def Handler.name : Handler → String
  | function name | failing name => name
  | unnamed _ | value _ => ""
  | operation o => o.name

/-- What a route is registered with: a handler, or a value that may name one. -/
inductive Designation where
  | handler (h : Handler)
  | name (n : Option Parameter)
  /-- A value of some kind that neither is a handler nor can name one, with its text. -/
  | misfit (kind text : String)

end FragmentRouting
