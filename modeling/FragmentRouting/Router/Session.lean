import FragmentRouting.Event
import FragmentRouting.Router.Basic

/-!
# Sessions

A router at work: registering and dispatching, with the calls of handlers and the events in the
order in which they happened. Both are kept when an action fails.
-/

namespace FragmentRouting

inductive Call where
  /-- A handler of the application was called. -/
  | handler (label : String) (arguments : Arguments)
  /-- Execution of a route begins. -/
  | begins (name : Option Parameter) (arguments : Arguments)
  /-- Execution of a route has ended without failure. -/
  | ends (name : Option Parameter)

structure Session where
  router : Router := {}
  /-- Whether the beginning and the end of each execution are recorded as calls. -/
  traced : Bool := false
  calls : List Call := []
  events : List Event := []

/-- What is done in a session. -/
abbrev Action := ExceptT Failure (StateM Session)

namespace Session

def record (call : Call) : Action Unit :=
  modify fun s => { s with calls := s.calls ++ [call] }

def report (events : List Event) : Action Unit :=
  modify fun s => { s with events := s.events ++ events }

/-- The text of a name in an event. -/
def nameText : Option Parameter → String
  | none => ""
  | some p => if p.toValue.isNothing then "" else p.toValue.display

/-- Registers a pattern that is already compiled. -/
def registerPattern (pattern : Pattern) (designation : Designation)
    (explicit : Option Handler := none) : Action Unit := do
  let s ← get
  match s.router.register pattern designation explicit with
  | .error failure => throw failure
  | .ok router =>
    set { s with router }
    let name := match router.routes with
      | route :: _ => route.name
      | [] => none
    report [.registered pattern.template (nameText name)]

/-- Compiles a template under the configuration of the router and registers it. -/
def registerTemplate (template : String) (designation : Designation)
    (explicit : Option Handler := none) (named : Option Bool := none) : Action Unit := do
  let pattern := Pattern.ofTemplate template named (← get).router.config
  report (Event.ofTemplate pattern)
  registerPattern pattern designation explicit

/-- Registers declared routes, the last first, so that the first is tried first. -/
def registerAll (routes : Entries String Designation) : Action Unit :=
  routes.reverse.forM fun (template, designation) => registerTemplate template designation

/-- The first route that matches a fragment, with its arguments. -/
def select (fragment : String) : Action (Option Selection) := do
  let found := (← get).router.select? fragment
  match found with
  | none => pure ()
  | some m => report (Event.ofExtraction m.route.pattern fragment)
  return found

/-- An argument that has to be text. -/
def textArgument : Option Parameter → Action String
  | some (.text s) => pure s
  | some p => throw (.notText p.kindName)
  | none => throw (.notText "NoneType")

/-- Calls an operation of the router. `again` dispatches a fragment. -/
def callOperation (again : String → Action Bool) (operation : Operation) (arguments : Arguments) :
    Action Unit := do
  match operation, arguments with
  | .dispatch, [fragment] =>
    let _ ← again (← textArgument fragment)
  | .select, [fragment] =>
    let _ ← select (← textArgument fragment)
  | .route, [template] =>
    registerTemplate (← textArgument template) (.name (some (.text "")))
  | .route, [template, name] =>
    registerTemplate (← textArgument template) (.name name)
  | .route, [template, name, handler] =>
    registerTemplate (← textArgument template) (.name name) (handler.map .value)
  | .address, [_] | .address, [_, _] => pure ()
  | .execute, [none, _, _] => pure ()
  | .execute, [some p, _, _] => throw (.notCallable p.kindName)
  | operation, _ => throw (.argumentCount operation.name)

/-- Calls a handler. -/
def call (again : String → Action Bool) (arguments : Arguments) : Handler → Action Unit
  | .function name => record (.handler name arguments)
  | .failing name => do
    record (.handler name arguments)
    throw (.raised name)
  | .unnamed label => record (.handler label arguments)
  | .operation operation => callOperation again operation arguments
  | .value p => throw (.notCallable p.kindName)

/-- Calls the handler of a route, if it has one. -/
def execute (again : String → Action Bool) (m : Selection) : Action Unit := do
  if (← get).traced then record (.begins m.route.name m.arguments)
  match m.route.handler with
  | none => pure ()
  | some h => call again m.arguments h
  if (← get).traced then record (.ends m.route.name)

/-- Finds the route of a fragment and calls its handler. Handlers may dispatch in turn, at most
`depth` times inside each other. -/
def dispatchWithin (depth : Nat) (fragment : String) : Action Bool := do
  match ← select fragment with
  | none =>
    report [.unmatched fragment]
    return false
  | some m =>
    report [.matched fragment m.route.pattern.template]
    let again : String → Action Bool := match depth with
      | 0 => fun _ => throw .nestedTooDeep
      | depth + 1 => dispatchWithin depth
    execute again m
    return true

/-- Finds the route of a fragment and calls its handler. The answer is whether there is one. -/
def dispatch (fragment : String) : Action Bool :=
  dispatchWithin 1000 fragment

/-- Runs an action and gives its outcome and the session after it. -/
def perform {α : Type} (s : Session) (action : Action α) : Except Failure α × Session :=
  action.run.run s

/-- A session whose router has the declared routes. -/
def start (config : Config) (methods : List String) (routes : Entries String Designation)
    (traced : Bool := false) : Except Failure Unit × Session :=
  perform { router := { config, methods }, traced } (registerAll routes)

end Session

end FragmentRouting
