import FragmentRouting.CommandLine.Invocation
import FragmentRouting.CommandLine.Library
import FragmentRouting.Json.Printer
import FragmentRouting.Json.Reader

/-!
# Running commands

A command line is turned into an exit code and the text for the two output streams.
-/

namespace FragmentRouting.CommandLine

structure Outcome where
  exitCode : Nat := 0
  output : String := ""
  errors : String := ""
  deriving DecidableEq, Repr

/-- The outcome of a command line with the events on the way to it. Failures that no command
answers for are passed on. -/
abbrev Report := Except Failure Outcome × List Event

namespace Outcome

def printed (line : String) : Outcome :=
  { output := line ++ "\n" }

def failed (exitCode : Nat) (message : String) : Outcome :=
  { exitCode, errors := message ++ "\n" }

end Outcome

/-- The configuration that the arguments describe. An empty delimiter is none. -/
def configOf (a : Invocation) : Except Failure Config :=
  Config.ofFields (if a.delimiter.isEmpty then none else some a.delimiter) a.named a.encodedSplat

/-- Goes on under the configuration that the arguments describe. -/
def withConfig (a : Invocation) (next : Config → Report) : Report :=
  match configOf a with
  | .ok config => next config
  | .error f => (.ok (.failed 2 ("Error: " ++ f.message)), [])

def runCompile (template : String) : Report :=
  let p := Pattern.ofTemplate template
  let names := if p.names.isEmpty then "-" else ", ".intercalate p.names
  let splat := (p.splatOffset?.map fun n => "splat:   " ++ toString n ++ "\n").getD ""
  (.ok { output := "regex:   " ++ p.regex ++ "\nparams:  " ++ names ++ "\n" ++ splat },
    Event.ofTemplate p)

def runExtract (a : Invocation) (template : String) (fragment : Option String) : Report :=
  withConfig a fun config =>
    let p := Pattern.ofTemplate template none config
    match fragment with
    | none => (.error (.notText "list"), Event.ofTemplate p)
    | some fragment =>
      match p.argumentsFor fragment with
      | .ok arguments =>
        (.ok (.printed (Json.printedArguments arguments)),
          Event.ofTemplate p ++ Event.ofExtraction p fragment)
      | .error _ =>
        (.ok (.failed 1 ("No match: " ++ Text.quoted fragment ++ " against "
          ++ Text.quoted template)), Event.ofTemplate p)

def runEncode (a : Invocation) (data : String) : Report :=
  withConfig a fun config =>
    match Json.read data.toList with
    | .error (.fault fault) => (.ok (.failed 1 ("Error: " ++ fault.message data.toList)), [])
    | .error (.digits count) => (.error (.tooManyDigits count Json.mostDigits), [])
    | .error .unpaired => (.error .unpairedSurrogate, [])
    | .ok value =>
      match Query.encode value "" config.delimiter with
      | .ok text => (.ok (.printed text), [])
      | .error f => (.ok (.failed 1 ("Error: " ++ f.message)), [])

/-- The query without the question mark that may stand in front of it. -/
def withoutMark (query : String) : String :=
  match query.toList with
  | '?' :: rest => String.ofList rest
  | _ => query

def runDecode (a : Invocation) (query : String) : Report :=
  withConfig a fun config =>
    let text := withoutMark query
    (.ok (.printed (Json.printedBlock (Query.decode text config.delimiter))),
      Event.ofQuery text config.delimiter)

/-- The columns of a route in the table of routes. -/
structure Row where
  template : String
  names : String
  handler : String

def Row.ofRoute (route : Route) : Row :=
  let names := route.pattern.names
  let handler := Session.nameText route.name
  { template := if route.pattern.template.isEmpty then "''" else route.pattern.template
    names := if names.isEmpty then "-" else ", ".intercalate names
    handler := if handler.isEmpty then "<anonymous>" else handler }

/-- The text with spaces behind it up to a width. -/
def padRight (width : Nat) (text : String) : String :=
  text ++ String.ofList (List.replicate (width - text.length) ' ')

/-- The longest of some lengths, and at least `least`. -/
def widest (least : Nat) (texts : List String) : Nat :=
  (texts.map String.length).foldl max least

/-- The table of routes, in columns as wide as their longest cell. -/
def table (rows : List Row) : String :=
  let templates := widest 5 (rows.map Row.template)
  let names := widest 6 (rows.map Row.names)
  let handlers := widest 0 (rows.map Row.handler)
  let line (r : Row) : String :=
    padRight templates r.template ++ "  " ++ padRight names r.names ++ "  " ++ r.handler ++ "\n"
  let rule := String.ofList (List.replicate (min (templates + names + 4 + handlers) 80) '-')
  line ⟨"ROUTE", "PARAMS", "HANDLER"⟩ ++ rule ++ "\n" ++ String.join (rows.map line)

/-- Lists the routes of a target in the given modules or, failing these, in the library. -/
def runRoutes (modules : List Module) (target : String) : Report :=
  match routerOf (modules ++ library) target with
  | (.ok r, events) =>
    let outcome : Outcome :=
      if r.routes.isEmpty then .printed "No routes registered."
      else { output := table (r.routes.map Row.ofRoute) }
    (.ok outcome, events)
  | (.error f, events) =>
    match f.category with
    | .missingModule | .attribute | .configuration =>
      (.ok (.failed 1 ("Error: " ++ f.message)), events)
    | _ => (.error f, events)

/-- Runs a command. All its arguments are there. -/
def runCommand (modules : List Module) (c : Command) (a : Invocation) : Report :=
  match c, a.values with
  | .compile, some template :: _ => runCompile template
  | .extract, some template :: fragment :: _ => runExtract a template fragment
  | .encode, some data :: _ => runEncode a data
  | .decode, some query :: _ => runDecode a query
  | .routes, some target :: _ => runRoutes modules target
  | _, _ => (.error (.argumentCount c.name), [])

/-- What a command line that no command runs for leads to. -/
def stopped (within : Option Command) (stop : Stop) : Outcome :=
  match stop, within with
  | .help, none => { output := help }
  | .help, some c => { output := c.help }
  | .misuse message, none => .failed 2 (usage ++ "fragroute: error: " ++ message)
  | .misuse message, some c => .failed 2 (c.usage ++ c.program ++ ": error: " ++ message)

/-- Runs a command line, with the modules that a target can name. -/
def run (modules : List Module) (words : List String) : Report :=
  match request words with
  | .overview => (.ok { output := help }, [])
  | .run c a => runCommand modules c a
  | .stopped within stop => (.ok (stopped within stop), [])

end FragmentRouting.CommandLine
