import FragmentRouting.Router.Session
import FragmentRouting.Text.Pieces

/-!
# Routers by name

A target `module:attribute` names a router, or something from which a router can be made.
-/

namespace FragmentRouting.CommandLine

/-- What a module can hold. -/
inductive Export where
  | router (r : Router)
  /-- A kind of router with handlers and declared routes of its own. -/
  | routerKind (methods : List String) (routes : Entries String Designation)
  | mapping (routes : Entries String Designation)
  /-- A function without arguments that gives something else. -/
  | factory (result : Export)
  /-- A function that needs arguments. -/
  | function (name : String)
  /-- A module inside another one. -/
  | module
  | value (v : Value)

structure Module where
  name : String
  exports : List (String × Export)
  /-- Whether it is made to have modules inside it. -/
  isPackage : Bool := false

/-- A value in the place of a handler. -/
def designationOf (v : Value) : Designation :=
  match v with
  | .text s => .name (some (.text s))
  | .kind name => .handler (.function name)
  | v => if v.isNothing then .name none else .misfit v.kindName v.display

/-- Registers the routes of a plain mapping, the last first. -/
def registerValues (entries : List (Value × Value)) : Action Unit :=
  entries.reverse.forM fun (template, handler) =>
    match template with
    | .text s => Session.registerTemplate s (designationOf handler)
    | v => throw (.notText v.kindName)

namespace Export

/-- The name of the kind of export, as messages give it. -/
def kindName : Export → String
  | router _ => "Router"
  | routerKind _ _ => "type"
  | mapping _ => "dict"
  | factory _ | function _ => "function"
  | module => "module"
  | value v => v.kindName

/-- The router that an export is or describes, with the session in which it was made. -/
def router? : Export → Option (Except Failure Unit × Session)
  | router r => some (.ok (), { router := r })
  | routerKind methods routes => some (Session.start .standard methods routes)
  | mapping routes => some (Session.start .standard [] routes)
  | value (.map entries) => some (Session.perform {} (registerValues entries))
  | value _ | factory _ | function _ | module => none

end Export

/-- The name of a module and of those around it: `a.b.c`, `a.b` and `a` for `a.b.c`. -/
def enclosing (path : String) : List String :=
  let parts := path.toList.splitOn '.'
  (List.range parts.length).map fun i =>
    String.ofList (['.'].intercalate (parts.take (parts.length - i)))

/-- Why a module is missing. The innermost module around it that is there lacks the next name on
the way, and without one the outermost name is missing. -/
def missingModule (modules : List Module) (path : String) : Failure :=
  go (enclosing path)
where
  go : List String → Failure
    | name :: parent :: rest =>
      match modules.find? fun m => m.name = parent with
      | some m => .noModule name (if m.isPackage then none else some parent)
      | none => go (parent :: rest)
    | [name] => .noModule name none
    | [] => .noModule path none

/-- The export that a target names. Without an attribute it is the export `router`. -/
def exportOf (modules : List Module) (target : String) : Except Failure Export :=
  let (path, wanted) := Text.cutAt ':' target.toList
  let name := String.ofList path
  let member := if wanted.isEmpty then "router" else String.ofList wanted
  match path with
  | [] => .error .emptyModuleName
  | '.' :: _ => .error (.relativeModuleName name)
  | _ =>
    match modules.find? fun m => m.name = name with
    | none => .error (missingModule modules name)
    | some m =>
      match m.exports.lookup member with
      | some e => .ok e
      | none => .error (.noAttribute name member)

/-- The router that a target describes, with the events of making it. A factory is called once. -/
def routerOf (modules : List Module) (target : String) : Except Failure Router × List Event :=
  match exportOf modules target with
  | .error f => (.error f, [])
  | .ok e =>
    let made := match e with
      | .factory result => result.router?
      | e => e.router?
    match made, e with
    | some (result, s), _ => (result.map fun _ => s.router, s.events)
    | none, .function name => (.error (.argumentCount name), [])
    | none, _ => (.error (.notARouter target e.kindName), [])

end FragmentRouting.CommandLine
