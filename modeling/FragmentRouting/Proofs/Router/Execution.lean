import FragmentRouting.Proofs.Router.Reachable

/-!
# What a router does when it is asked

One equation for each thing a router is asked for, with the outcome and the session afterwards:

* `perform_register`: a registration puts its route before the others, or fails and leaves them;
* `perform_select`, `isFirst_select?`: the selection is the first route that matches;
* `perform_dispatch`: a dispatch executes the selected route once, or nothing;
* `perform_execute`: an execution calls the handler once and ends as the handler does.
-/

namespace FragmentRouting

/-! ## Registrations -/

/-- What a route is registered from. A pattern is taken as it is. -/
inductive Source where
  | template (text : String) (named : Option Bool)
  | pattern (p : Pattern)

structure Registration where
  source : Source
  designation : Designation
  explicit : Option Handler := none

namespace Registration

def ofDeclared (declared : String × Designation) : Registration :=
  { source := .template declared.1 none, designation := declared.2 }

def pattern (q : Registration) (config : Config) : Pattern :=
  match q.source with
  | .template text named => .ofTemplate text named config
  | .pattern p => p

def action (q : Registration) : Action Unit :=
  match q.source with
  | .template text named => Session.registerTemplate text q.designation q.explicit named
  | .pattern p => Session.registerPattern p q.designation q.explicit

/-- The route that a registration makes, or its failure. The routes that are there already do not
matter. -/
def route (q : Registration) (r : Router) : Except Failure Route :=
  (r.settle (q.pattern r.config).template q.designation q.explicit).map fun settled =>
    ⟨q.pattern r.config, settled.1, settled.2⟩

end Registration

namespace Router

/-- The router with one more route before the others. -/
def prepend (r : Router) (route : Route) : Router :=
  { r with routes := route :: r.routes }

theorem register_eq (r : Router) (q : Registration) :
    r.register (q.pattern r.config) q.designation q.explicit = (q.route r).map r.prepend := by
  unfold register Registration.route
  cases r.settle (q.pattern r.config).template q.designation q.explicit <;> rfl

end Router

namespace Session

/-- The session with further events. -/
def reported (s : Session) (events : List Event) : Session :=
  { s with events := s.events ++ events }

@[simp] theorem reported_nil (s : Session) : s.reported [] = s := by
  simp [reported]

@[simp] theorem reported_reported (s : Session) (first second : List Event) :
    (s.reported first).reported second = s.reported (first ++ second) := by
  simp [reported]

theorem perform_report_bind {α : Type} (s : Session) (events : List Event) (a : Action α) :
    s.perform (do report events; a) = (s.reported events).perform a := rfl

theorem perform_registerPattern (s : Session) (pattern : Pattern) (designation : Designation)
    (explicit : Option Handler) :
    ∃ events, s.perform (registerPattern pattern designation explicit) =
      match s.router.register pattern designation explicit with
      | .ok router => (.ok (), { s.reported events with router })
      | .error failure => (.error failure, s.reported events) := by
  rw [registerPattern, perform_get_bind]
  cases s.router.register pattern designation explicit with
  | ok router => exact ⟨_, rfl⟩
  | error failure => exact ⟨[], by rw [reported_nil]; rfl⟩

/-- A registration puts the route that it makes before the others. One that fails leaves the
session as it was, but for events. -/
theorem perform_register (s : Session) (q : Registration) :
    ∃ events, s.perform q.action = match q.route s.router with
      | .ok route => (.ok (), { s.reported events with router := s.router.prepend route })
      | .error failure => (.error failure, s.reported events) := by
  -- Compiling a template reports before it registers, so registering starts from another session
  -- with the same router.
  have made : ∀ t : Session, t.router = s.router →
      ∃ events, t.perform (registerPattern (q.pattern s.router.config) q.designation q.explicit) =
        match q.route s.router with
        | .ok route => (.ok (), { t.reported events with router := s.router.prepend route })
        | .error failure => (.error failure, t.reported events) := by
    intro t ht
    obtain ⟨events, registered⟩ :=
      perform_registerPattern t (q.pattern s.router.config) q.designation q.explicit
    refine ⟨events, registered.trans ?_⟩
    rw [ht, Router.register_eq]
    cases q.route s.router <;> rfl
  obtain ⟨source, designation, explicit⟩ := q
  cases source with
  | pattern p => exact made s rfl
  | template text named =>
    obtain ⟨events, registered⟩ :=
      made (s.reported (Event.ofTemplate (.ofTemplate text named s.router.config))) rfl
    refine ⟨Event.ofTemplate (.ofTemplate text named s.router.config) ++ events,
      registered.trans ?_⟩
    rw [reported_reported]

end Session

/-! ## Selections -/

/-- Whether a selection is the first route that matches, with the arguments of the fragment, or
none does. -/
def Router.IsFirst (r : Router) (fragment : String) : Option Selection → Prop
  | none => ∀ route ∈ r.routes, route.pattern.isMatch fragment = false
  | some m => ∃ before after, r.routes = before ++ m.route :: after ∧
      (∀ route ∈ before, route.pattern.isMatch fragment = false) ∧
      m.route.pattern.isMatch fragment = true ∧
      m.route.pattern.argumentsFor fragment = .ok m.arguments

theorem Router.isFirst_select? (r : Router) (fragment : String) :
    r.IsFirst fragment (r.select? fragment) := by
  have unmatched : ∀ route : Route,
      (route.pattern.captures? fragment).map
          (fun captures => (⟨route, route.pattern.argumentsOf captures⟩ : Selection)) = none →
        route.pattern.isMatch fragment = false := by
    intro route h
    rw [Pattern.isMatch, Option.map_eq_none_iff.mp h]
    rfl
  cases hfound : r.select? fragment with
  | none =>
    intro route hroute
    exact unmatched route (List.findSome?_eq_none_iff.mp hfound route hroute)
  | some m =>
    obtain ⟨before, route, after, hroutes, hroute, hbefore⟩ :=
      List.findSome?_eq_some_iff.mp hfound
    obtain ⟨captures, hcaptures, rfl⟩ := Option.map_eq_some_iff.mp hroute
    refine ⟨before, after, hroutes, fun other hother => unmatched other (hbefore other hother),
      ?_, ?_⟩
    · simp [Pattern.isMatch, hcaptures]
    · simp [Pattern.argumentsFor, hcaptures]

theorem Router.mem_of_select? {r : Router} {fragment : String} {m : Selection}
    (h : r.select? fragment = some m) : m.route ∈ r.routes := by
  have first := r.isFirst_select? fragment
  rw [h] at first
  obtain ⟨before, after, hroutes, -⟩ := first
  simp [hroutes]

/-- A selection cannot fail: the arguments are read only of a fragment that the pattern matches. -/
theorem Session.perform_select (s : Session) (fragment : String) :
    ∃ events, s.perform (select fragment) =
      (.ok (s.router.select? fragment), s.reported events) := by
  rw [select, perform_get_bind]
  cases s.router.select? fragment with
  | none => exact ⟨[], by rw [reported_nil]; rfl⟩
  | some m => exact ⟨_, rfl⟩

/-! ## Executions -/

namespace Handler

/-- The calls that the application sees of a handler. -/
def calls (arguments : Arguments) : Handler → List Call
  | .function name | .failing name => [.handler name arguments]
  | .unnamed label => [.handler label arguments]
  | .operation _ | .value _ => []

/-- How a call of a handler of the application ends. -/
def outcome : Handler → Except Failure Unit
  | .failing name => .error (.raised name)
  | .value p => .error (.notCallable p.kindName)
  | .function _ | .unnamed _ | .operation _ => .ok ()

end Handler

namespace Selection

/-- Whether the handler, if there is one, is of the application and no operation of the router. -/
def OfApplication (m : Selection) : Prop :=
  ∀ o, m.route.handler ≠ some (.operation o)

/-- How one execution ends. -/
def outcome (m : Selection) : Except Failure Unit :=
  match m.route.handler with
  | none => .ok ()
  | some h => h.outcome

/-- The calls of one execution: the handler once, and where a session is traced, the beginning
before it and the end after it. A failure leaves out the end. -/
def calls (m : Selection) (traced : Bool) : List Call :=
  (if traced then [.begins m.route.name m.arguments] else []) ++
    (m.route.handler.map (Handler.calls m.arguments)).getD [] ++
    (match m.outcome with
      | .ok _ => if traced then [.ends m.route.name] else []
      | .error _ => [])

end Selection

namespace Session

/-- The session with further calls. -/
def recorded (s : Session) (calls : List Call) : Session :=
  { s with calls := s.calls ++ calls }

@[simp] theorem traced_recorded (s : Session) (calls : List Call) :
    (s.recorded calls).traced = s.traced := rfl

@[simp] theorem recorded_nil (s : Session) : s.recorded [] = s := by
  simp [recorded]

@[simp] theorem recorded_recorded (s : Session) (first second : List Call) :
    (s.recorded first).recorded second = s.recorded (first ++ second) := by
  simp [recorded]

variable {again : String → Action Bool}

theorem perform_call {h : Handler} (application : ∀ o, h ≠ .operation o) (s : Session)
    (arguments : Arguments) :
    s.perform (call again arguments h) = (h.outcome, s.recorded (h.calls arguments)) := by
  cases h with
  | function name | failing name | unnamed label => rfl
  | value p => rw [Handler.calls, recorded_nil]; rfl
  | operation o => exact absurd rfl (application o)

theorem keeps_call_of_application {P : Router → Prop} {h : Handler}
    (application : ∀ o, h ≠ .operation o) (arguments : Arguments) :
    Keeps P (call again arguments h) := by
  intro s hs
  rw [perform_call application]
  exact hs

/-- Recording only where a session is traced. -/
theorem perform_record_if (s : Session) (call : Call) :
    s.perform (do if (← get).traced then record call) =
      (.ok (), s.recorded (if s.traced then [call] else [])) := by
  rw [perform_get_bind]
  by_cases traced : s.traced
  · rw [if_pos traced, if_pos traced]
    rfl
  · rw [if_neg traced, if_neg traced, recorded_nil]
    rfl

/-- What an execution does between the records of its beginning and of its end. -/
def callHandler (again : String → Action Bool) (m : Selection) : Action Unit :=
  match m.route.handler with
  | none => pure ()
  | some h => call again m.arguments h

theorem perform_callHandler {m : Selection} (application : m.OfApplication) (s : Session) :
    s.perform (callHandler again m) =
      (m.outcome,
        s.recorded ((m.route.handler.map (Handler.calls m.arguments)).getD [])) := by
  unfold callHandler Selection.outcome
  cases hhandler : m.route.handler with
  | none =>
    simp only [Option.map_none, Option.getD_none, recorded_nil]
    rfl
  | some h =>
    have notOperation : ∀ o, h ≠ .operation o := fun o e => application o (hhandler.trans (e ▸ rfl))
    exact perform_call notOperation s m.arguments

theorem perform_execute_eq (m : Selection) (s : Session) :
    s.perform (execute again m) =
      (s.recorded (if s.traced then [.begins m.route.name m.arguments] else [])).perform (do
        callHandler again m
        if (← get).traced then record (.ends m.route.name)) := by
  unfold execute callHandler
  rw [perform_get_bind]
  by_cases traced : s.traced
  · rw [if_pos traced, if_pos traced]
    cases m.route.handler <;> rfl
  · rw [if_neg traced, if_neg traced, recorded_nil]
    cases m.route.handler <;> rfl

/-- An execution calls the handler once, with the arguments that were selected, and ends as the
handler does. -/
theorem perform_execute {m : Selection} (application : m.OfApplication) (s : Session) :
    s.perform (execute again m) = (m.outcome, s.recorded (m.calls s.traced)) := by
  rw [perform_execute_eq, perform_bind, perform_callHandler application, Selection.calls]
  cases m.outcome with
  | ok =>
    simp only [perform_record_if, traced_recorded, recorded_recorded, List.append_assoc]
    rfl
  | error failure => simp only [recorded_recorded, List.append_nil]

/-! ## Dispatches -/

/-- How an operation of the router that is called as a handler dispatches. -/
def redispatch : String → Action Bool :=
  dispatchWithin 999

theorem dispatch_eq (fragment : String) :
    dispatch fragment = (do
      match ← select fragment with
      | none =>
        report [.unmatched fragment]
        return false
      | some m =>
        report [.matched fragment m.route.pattern.template]
        execute redispatch m
        return true) := by
  change dispatchWithin (999 + 1) fragment = _
  rw [dispatchWithin]
  rfl

/-- A dispatch executes the selected route once and answers when the execution has ended. Where
nothing is selected, nothing is executed. -/
theorem perform_dispatch (s : Session) (fragment : String) :
    ∃ events, s.perform (dispatch fragment) = match s.router.select? fragment with
      | none => (.ok false, s.reported events)
      | some m =>
        let (ended, after) := (s.reported events).perform (execute redispatch m)
        (ended.map fun _ => true, after) := by
  obtain ⟨events, selected⟩ := s.perform_select fragment
  rw [dispatch_eq, perform_bind, selected]
  cases s.router.select? fragment with
  | none =>
    refine ⟨events ++ [.unmatched fragment], ?_⟩
    rw [← reported_reported]
    rfl
  | some m =>
    refine ⟨events ++ [.matched fragment m.route.pattern.template], ?_⟩
    rw [← reported_reported]
    dsimp only
    rw [perform_report_bind, perform_bind]
    rcases perform _ (execute redispatch m) with ⟨_ | _, after⟩ <;> rfl

end Session

end FragmentRouting
