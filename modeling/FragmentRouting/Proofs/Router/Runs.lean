import FragmentRouting.Proofs.Router.Execution

/-!
# Runs of a router

A router is made with declared routes and then asked, one request after the other: to register a
route, to list its routes, to select the route of a fragment, to dispatch a fragment, or for an
address. A run is such a row of requests with their outcomes, failures among them.

* `Router.Lists r qs`: the routes of `r` are those of the registrations `qs`, in this order;
* `Answered s request outcome after`: what the router answers in `s`, and what is left of `s`;
* `Run.answers`: after every run the router lists the registrations that succeeded, the last first,
  and behind them what was declared, the first first; and it answers the next request by that list.
-/

namespace FragmentRouting

inductive Request where
  | register (q : Registration)
  | routes
  | select (fragment : String)
  | dispatch (fragment : String)
  | address (path : String) (query : Value)

inductive Answer where
  | registered
  | routes (routes : List Route)
  | selected (found : Option Selection)
  | dispatched (matched : Bool)
  | address (fragment : String)

namespace Request

/-- What a router does at a request. -/
def action : Request → Action Answer
  | .register q => do
    q.action
    return .registered
  | .routes => return .routes (← get).router.routes
  | .select fragment => return .selected (← Session.select fragment)
  | .dispatch fragment => return .dispatched (← Session.dispatch fragment)
  | .address path query => do
    match (← get).router.address path query with
    | .ok text => return .address text
    | .error failure => throw failure

/-- Whether the handler that a dispatch runs leaves the router as it is. -/
def Spares (s : Session) : Request → Prop
  | .dispatch fragment => ∀ m, s.router.select? fragment = some m →
      ∀ h, m.route.handler = some h →
        Session.Keeps (· = s.router) (Session.call Session.redispatch m.arguments h)
  | _ => True

end Request

/-- A router that only has handlers of the application is left as it is by all of them. -/
theorem Request.spares_of_application {s : Session}
    (application : ∀ route ∈ s.router.routes, ∀ o, route.handler ≠ some (.operation o))
    (fragment : String) : (Request.dispatch fragment).Spares s := by
  intro m hm h hh
  have notOperation : ∀ o, h ≠ .operation o :=
    fun o e => application m.route (Router.mem_of_select? hm) o (hh.trans (e ▸ rfl))
  exact Session.keeps_call_of_application notOperation m.arguments

/-- The requests of a run, each with its outcome. -/
abbrev History := List (Request × Except Failure Answer)

/-- The registrations of a run that succeeded, in the order in which they were asked for. -/
def History.registered (history : History) : List Registration :=
  history.filterMap fun
    | (.register q, .ok _) => some q
    | _ => none

/-- The sessions of a router that is made with declared routes and then asked. -/
inductive Run (config : Config) (methods : List String) (declared : Entries String Designation)
    (traced : Bool) : History → Session → Prop
  | start {s : Session} (made : Session.start config methods declared traced = (.ok (), s)) :
      Run config methods declared traced [] s
  | ask {history : History} {s : Session} (run : Run config methods declared traced history s)
      (request : Request) (spares : request.Spares s) :
      Run config methods declared traced
        (history ++ [(request, (s.perform request.action).1)]) (s.perform request.action).2

variable {config : Config} {methods : List String} {declared : Entries String Designation}
  {traced : Bool}

/-! ## The routes of a run -/

/-- The routes of a router are those that registrations make of it, in this order. -/
def Router.Lists (r : Router) (qs : List Registration) : Prop :=
  qs.map (fun q => q.route r) = r.routes.map .ok

theorem Router.Lists.prepend {r : Router} {qs : List Registration} (h : r.Lists qs)
    {q : Registration} {route : Route} (hroute : q.route r = .ok route) :
    (r.prepend route).Lists (q :: qs) := by
  have others : qs.map (fun q => q.route (r.prepend route)) = r.routes.map .ok := h
  have first : q.route (r.prepend route) = .ok route := hroute
  rw [Lists, List.map_cons, others, first]
  rfl

/-- The router of a session has these settings and lists these registrations. -/
structure Serves (config : Config) (methods : List String) (qs : List Registration) (s : Session) :
    Prop where
  config : s.router.config = config
  methods : s.router.methods = methods
  lists : s.router.Lists qs

theorem Serves.of_router_eq {qs : List Registration} {s after : Session}
    (h : Serves config methods qs s) (same : after.router = s.router) :
    Serves config methods qs after := by
  obtain ⟨hconfig, hmethods, hlists⟩ := h
  rw [← same] at hconfig hmethods hlists
  exact ⟨hconfig, hmethods, hlists⟩

theorem Serves.prepend {qs : List Registration} {s after : Session} (h : Serves config methods qs s)
    {q : Registration} {route : Route} (hroute : q.route s.router = .ok route)
    (hafter : after.router = s.router.prepend route) : Serves config methods (q :: qs) after := by
  obtain ⟨hconfig, hmethods, hlists⟩ := h
  refine ⟨?_, ?_, ?_⟩ <;> rw [hafter]
  · exact hconfig
  · exact hmethods
  · exact hlists.prepend hroute

/-- A registration that succeeds comes to stand before the others. -/
theorem Serves.register {qs : List Registration} {s after : Session}
    (h : Serves config methods qs s) (q : Registration)
    (hstep : s.perform q.action = (.ok (), after)) : Serves config methods (q :: qs) after := by
  obtain ⟨events, step⟩ := s.perform_register q
  rw [hstep] at step
  cases hroute : q.route s.router with
  | error failure =>
    rw [hroute] at step
    cases step
  | ok route =>
    rw [hroute] at step
    cases step
    exact h.prepend hroute rfl

/-- Registering one after the other until the last has succeeded. The induction is on what is still
to be registered, over whatever is listed by then. -/
theorem Serves.forM {entries : Entries String Designation} {qs : List Registration} {s s' : Session}
    (h : Serves config methods qs s)
    (hrun : s.perform (entries.forM fun (template, designation) =>
      Session.registerTemplate template designation) = (.ok (), s')) :
    Serves config methods (entries.reverse.map .ofDeclared ++ qs) s' := by
  induction entries generalizing qs s with
  | nil =>
    cases hrun
    exact h
  | cons entry rest ih =>
    have inOrder : s.perform (do
        (Registration.ofDeclared entry).action
        rest.forM fun (template, designation) => Session.registerTemplate template designation) =
        (.ok (), s') := hrun
    rw [Session.perform_bind] at inOrder
    rcases hstep : s.perform (Registration.ofDeclared entry).action with ⟨failure | _, next⟩
    · rw [hstep] at inOrder
      cases inOrder
    · rw [hstep] at inOrder
      have whole := ih (h.register _ hstep) inOrder
      rwa [List.reverse_cons, List.map_append, List.append_assoc]

/-- A new router lists what was declared. -/
theorem serves_start {s : Session}
    (made : Session.start config methods declared traced = (.ok (), s)) :
    Serves config methods (declared.map .ofDeclared) s := by
  have fresh : Serves config methods [] { router := { config, methods }, traced } := ⟨rfl, rfl, rfl⟩
  have all := fresh.forM made
  rwa [List.reverse_reverse, List.append_nil] at all

/-! ## The answers of a run -/

/-- Nothing has happened but that events were reported. -/
def OnlyReports (s after : Session) : Prop :=
  ∃ events, after = s.reported events

/-- The selection is executed once, with the given outcome and the session afterwards. Where the
handler is of the application, its call is the only one. -/
structure ExecutedOnce (m : Selection) (s : Session) (ended : Except Failure Unit)
    (after : Session) : Prop where
  execution : ∃ before, OnlyReports s before ∧
    before.perform (Session.execute Session.redispatch m) = (ended, after)
  calls : m.OfApplication → ended = m.outcome ∧ after.calls = s.calls ++ m.calls s.traced

/-- What a router answers to a request in `s`, and what it leaves of `s`. -/
def Answered (s : Session) (request : Request) (outcome : Except Failure Answer)
    (after : Session) : Prop :=
  match request with
  | .register q =>
    match q.route s.router with
    | .ok route =>
      outcome = .ok .registered ∧ OnlyReports { s with router := s.router.prepend route } after
    | .error failure => outcome = .error failure ∧ OnlyReports s after
  | .routes => outcome = .ok (.routes s.router.routes) ∧ after = s
  | .select fragment =>
    OnlyReports s after ∧
      ∃ found, outcome = .ok (.selected found) ∧ s.router.IsFirst fragment found
  | .dispatch fragment =>
    after.router = s.router ∧
      ∃ found, s.router.IsFirst fragment found ∧
        match found with
        | none => outcome = .ok (.dispatched false) ∧ OnlyReports s after
        | some m => ∃ ended, ExecutedOnce m s ended after ∧
            outcome = ended.map fun _ => .dispatched true
  | .address path query => outcome = (s.router.address path query).map .address ∧ after = s

theorem answered_register (s : Session) (q : Registration) :
    Answered s (.register q) (s.perform (Request.register q).action).1
      (s.perform (Request.register q).action).2 := by
  obtain ⟨events, step⟩ := s.perform_register q
  rw [Request.action, Session.perform_bind, step]
  dsimp only [Answered]
  cases q.route s.router with
  | ok route => exact ⟨rfl, events, rfl⟩
  | error failure => exact ⟨rfl, events, rfl⟩

theorem answered_select (s : Session) (fragment : String) :
    Answered s (.select fragment) (s.perform (Request.select fragment).action).1
      (s.perform (Request.select fragment).action).2 := by
  obtain ⟨events, step⟩ := s.perform_select fragment
  rw [Request.action, Session.perform_bind, step]
  exact ⟨⟨events, rfl⟩, _, rfl, s.router.isFirst_select? fragment⟩

theorem answered_dispatch (s : Session) {fragment : String}
    (spares : (Request.dispatch fragment).Spares s) :
    Answered s (.dispatch fragment) (s.perform (Request.dispatch fragment).action).1
      (s.perform (Request.dispatch fragment).action).2 := by
  obtain ⟨events, step⟩ := s.perform_dispatch fragment
  have first := s.router.isFirst_select? fragment
  rw [Request.action, Session.perform_bind, step]
  cases hfound : s.router.select? fragment with
  | none =>
    rw [hfound] at first
    exact ⟨rfl, none, first, rfl, events, rfl⟩
  | some m =>
    rw [hfound] at first
    -- Only the handler could change the router, and it spares it.
    have kept : Session.Keeps (· = s.router) (Session.execute Session.redispatch m) :=
      Session.keeps_execute_of_handler (spares m hfound)
    have same := kept (s.reported events) rfl
    rcases hexecute : (s.reported events).perform (Session.execute Session.redispatch m)
      with ⟨ended, after⟩
    rw [hexecute] at same
    have once : ExecutedOnce m s ended after := by
      refine ⟨⟨_, ⟨events, rfl⟩, hexecute⟩, ?_⟩
      intro application
      rw [Session.perform_execute application] at hexecute
      cases hexecute
      exact ⟨rfl, rfl⟩
    simp only [hexecute]
    cases ended with
    | ok done => exact ⟨same, some m, first, .ok done, once, rfl⟩
    | error failure => exact ⟨same, some m, first, .error failure, once, rfl⟩

theorem Request.answered {s : Session} {request : Request} (spares : request.Spares s) :
    Answered s request (s.perform request.action).1 (s.perform request.action).2 := by
  cases request with
  | register q => exact answered_register s q
  | routes => exact ⟨rfl, rfl⟩
  | select fragment => exact answered_select s fragment
  | dispatch fragment => exact answered_dispatch s spares
  | address path query =>
    rw [Request.action, Session.perform_get_bind]
    dsimp only [Answered]
    cases s.router.address path query <;> exact ⟨rfl, rfl⟩

/-! ## Runs -/

/-- An answered request adds its registration in front if it is one that succeeded, and otherwise
leaves the routes as they are. -/
theorem Serves.answered {qs : List Registration} {s after : Session} {request : Request}
    {outcome : Except Failure Answer} (h : Serves config methods qs s)
    (step : Answered s request outcome after) :
    Serves config methods ((History.registered [(request, outcome)]).reverse ++ qs) after := by
  cases request with
  | register q =>
    dsimp only [Answered] at step
    cases hroute : q.route s.router with
    | ok route =>
      rw [hroute] at step
      obtain ⟨rfl, events, rfl⟩ := step
      exact h.prepend hroute rfl
    | error failure =>
      rw [hroute] at step
      obtain ⟨rfl, events, rfl⟩ := step
      exact h.of_router_eq rfl
  | routes =>
    obtain ⟨-, rfl⟩ := step
    exact h
  | select fragment =>
    obtain ⟨⟨events, rfl⟩, -⟩ := step
    exact h.of_router_eq rfl
  | dispatch fragment =>
    obtain ⟨same, -⟩ := step
    exact h.of_router_eq same
  | address path query =>
    obtain ⟨-, rfl⟩ := step
    exact h

theorem History.registered_append (first second : History) :
    History.registered (first ++ second) = first.registered ++ second.registered :=
  List.filterMap_append

/-- What a router is asked in between does not matter to its routes: they are the registrations
that succeeded, the last first, and then what was declared, the first first. -/
theorem Run.serves {history : History} {s : Session}
    (run : Run config methods declared traced history s) :
    Serves config methods (history.registered.reverse ++ declared.map .ofDeclared) s := by
  induction run with
  | start made => exact serves_start made
  | ask _ request spares ih =>
    rw [History.registered_append, List.reverse_append, List.append_assoc]
    exact ih.answered (Request.answered spares)

/-- After every run a router lists the registrations that succeeded, the last first, and behind
them what was declared. By this list it answers the next request: a selection is the first route
that matches, and a dispatch executes it once and then answers `true`, unless the handler fails. -/
theorem Run.answers {history : History} {s : Session}
    (run : Run config methods declared traced history s) :
    Serves config methods (history.registered.reverse ++ declared.map .ofDeclared) s ∧
      ∀ request : Request, request.Spares s →
        Answered s request (s.perform request.action).1 (s.perform request.action).2 :=
  ⟨run.serves, fun _ spares => Request.answered spares⟩

/-- A run in which a pattern is registered before the declared routes and a registration fails. -/
theorem Run.answers_of_failed_registration :
    ∃ (docs lost : Registration) (history : History) (s : Session),
      (Run .standard ["show"] [("users/:id", .name (some (.text "show"))), ("*rest", .name none)]
          true history s ∧
        history = [(.register docs, .ok .registered),
          (.register lost, .error (.unknownHandler "nobody" "lost"))] ∧
        (s.router.select? "users/42").isSome ∧ (Request.dispatch "users/42").Spares s) ∧
      Serves .standard ["show"] [docs, .ofDeclared ("users/:id", .name (some (.text "show"))),
          .ofDeclared ("*rest", .name none)] s ∧
        Answered s (.dispatch "users/42") (s.perform (Request.dispatch "users/42").action).1
          (s.perform (Request.dispatch "users/42").action).2 := by
  let docs : Registration :=
    { source := .pattern (.ofTemplate "docs(/:page)" (some true))
      designation := .handler (.unnamed "reader") }
  let lost : Registration :=
    { source := .template "lost" none, designation := .name (some (.text "nobody")) }
  let declared : Entries String Designation :=
    [("users/:id", .name (some (.text "show"))), ("*rest", .name none)]
  let fresh := (Session.start .standard ["show"] declared true).2
  let first := (fresh.perform (Request.register docs).action).2
  let s := (first.perform (Request.register lost).action).2
  have started : Run .standard ["show"] declared true [] fresh := .start rfl
  have grown : Run .standard ["show"] declared true [(.register docs, .ok .registered)] first :=
    started.ask (.register docs) trivial
  have run : Run .standard ["show"] declared true [(.register docs, .ok .registered),
      (.register lost, .error (.unknownHandler "nobody" "lost"))] s :=
    grown.ask (.register lost) trivial
  have application : ∀ route ∈ s.router.routes, ∀ o, route.handler ≠ some (.operation o) := by
    have routes : s.router.routes =
        [⟨.ofTemplate "docs(/:page)" (some true), some (.unnamed "reader"), some (.text "")⟩,
          ⟨.ofTemplate "users/:id", some (.function "show"), some (.text "show")⟩,
          ⟨.ofTemplate "*rest", none, none⟩] := rfl
    simp [routes]
  have spares := Request.spares_of_application application "users/42"
  have matched : (s.router.select? "users/42").isSome := by decide +kernel
  obtain ⟨serves, answers⟩ := run.answers
  exact ⟨docs, lost, _, s, ⟨run, rfl, matched, spares⟩, serves, answers _ spares⟩

/-- A dispatch need not answer where a route matches: a handler that fails makes it fail. -/
theorem dispatch_fails_with_handler :
    ¬ ∀ (config : Config) (methods : List String) (declared : Entries String Designation)
        (traced : Bool) (history : History) (s : Session) (fragment : String),
      Run config methods declared traced history s → (Request.dispatch fragment).Spares s →
        (s.router.select? fragment).isSome → (s.perform (Session.dispatch fragment)).1 = .ok true := by
  intro always
  let failing : Registration :=
    { source := .template "p" none, designation := .handler (.failing "f") }
  let fresh := (Session.start .standard [] []).2
  let s := (fresh.perform (Request.register failing).action).2
  have run : Run .standard [] [] false [(.register failing, .ok .registered)] s :=
    .ask (.start rfl) (.register failing) trivial
  have application : ∀ route ∈ s.router.routes, ∀ o, route.handler ≠ some (.operation o) := by
    have routes : s.router.routes =
        [⟨.ofTemplate "p", some (.failing "f"), some (.text "f")⟩] := rfl
    simp [routes]
  have spares := Request.spares_of_application application "p"
  have matched : (s.router.select? "p").isSome := by decide +kernel
  have outcome := always _ _ _ _ _ s "p" run spares matched
  have failed : (s.perform (Session.dispatch "p")).1.isOk = false := by decide +kernel
  rw [outcome] at failed
  cases failed

end FragmentRouting
