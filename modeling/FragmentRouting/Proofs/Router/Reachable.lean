import FragmentRouting.Router.Session

/-!
# Reachable routers

A session begins with declared routes and goes on with registrations of templates, selections,
dispatches and executions. A handler may be an operation of the router that registers further
templates.

* `Keeps P a`: the action leaves a property of routers true, also when it fails;
* `Reachable s`: the sessions that any run of these leads to;
* `Reachable.router_induction`: what holds of routers without routes and what every registration
  of a template keeps holds of every reachable router;
* `Router.no_handler_of_register_eq_error`: which registrations can fail;
* `Reachable.fromTemplates`: every route was compiled under the configuration of its router.
-/

namespace FragmentRouting

namespace Session

/-- An action that leaves a property of routers true, also when it fails. -/
def Keeps (P : Router → Prop) {α : Type} (a : Action α) : Prop :=
  ∀ s : Session, P s.router → P (s.perform a).2.router

/-- A property of routers that registering a template keeps. -/
def Registrable (P : Router → Prop) : Prop :=
  ∀ (r r' : Router) (template : String) (named : Option Bool) (designation : Designation)
    (explicit : Option Handler), P r →
    r.register (.ofTemplate template named r.config) designation explicit = .ok r' → P r'

variable {P : Router → Prop} {α β : Type}

/-! ## Performing in order -/

theorem perform_get_bind (s : Session) (f : Session → Action α) :
    s.perform (get >>= f) = s.perform (f s) := rfl

theorem perform_bind (s : Session) (a : Action α) (f : α → Action β) :
    s.perform (a >>= f) = match s.perform a with
      | (.ok x, s') => s'.perform (f x)
      | (.error failure, s') => (.error failure, s') := by
  simp only [perform, ExceptT.run_bind, StateT.run_bind]
  rcases StateT.run (ExceptT.run a) s with ⟨_ | _, _⟩ <;> rfl

namespace Keeps

theorem pure (x : α) : Keeps P (pure x) :=
  fun _ h => h

theorem throw (failure : Failure) : Keeps P (throw failure : Action α) :=
  fun _ h => h

theorem bind {a : Action α} {f : α → Action β} (ha : Keeps P a) (hf : ∀ x, Keeps P (f x)) :
    Keeps P (a >>= f) := by
  intro s hs
  have first := ha s hs
  rw [perform_bind]
  rcases hperform : s.perform a with ⟨failure | x, s'⟩
  · rwa [hperform] at first
  · rw [hperform] at first
    exact hf x s' first

theorem get : Keeps P (MonadState.get : Action Session) :=
  fun _ h => h

theorem record (call : Call) : Keeps P (record call) :=
  fun _ h => h

theorem report (events : List Event) : Keeps P (report events) :=
  fun _ h => h

end Keeps

/-! ## What each action does to the router -/

/-- Registering a pattern changes the router as its registration does, if that succeeds. -/
theorem router_registerPattern (s : Session) (pattern : Pattern) (designation : Designation)
    (explicit : Option Handler) :
    (s.perform (registerPattern pattern designation explicit)).2.router =
      match s.router.register pattern designation explicit with
      | .ok r => r
      | .error _ => s.router := by
  rw [registerPattern, perform_get_bind]
  cases s.router.register pattern designation explicit <;> rfl

theorem router_registerTemplate (s : Session) (template : String) (designation : Designation)
    (explicit : Option Handler) (named : Option Bool) :
    (s.perform (registerTemplate template designation explicit named)).2.router =
      match s.router.register (.ofTemplate template named s.router.config) designation explicit with
      | .ok r => r
      | .error _ => s.router := by
  rw [registerTemplate, perform_get_bind]
  exact router_registerPattern _ _ _ _

theorem keeps_registerTemplate (hP : Registrable P) (template : String)
    (designation : Designation) (explicit : Option Handler) (named : Option Bool) :
    Keeps P (registerTemplate template designation explicit named) := by
  intro s hs
  rw [router_registerTemplate]
  split
  · rename_i r' hr'
    exact hP _ r' _ _ _ _ hs hr'
  · exact hs

theorem keeps_registerAll (hP : Registrable P) (routes : Entries String Designation) :
    Keeps P (registerAll routes) := by
  unfold registerAll
  induction routes.reverse with
  | nil => exact .pure ()
  | cons route rest ih =>
    exact .bind (keeps_registerTemplate hP _ _ _ _) fun _ => ih

theorem keeps_select (fragment : String) : Keeps P (select fragment) := by
  refine .bind .get fun s => ?_
  dsimp only
  split
  · exact .bind (.pure ()) fun _ => .pure _
  · exact .bind (.report _) fun _ => .pure _

theorem keeps_textArgument (argument : Option Parameter) : Keeps P (textArgument argument) := by
  unfold textArgument
  split
  · exact .pure _
  · exact .throw _
  · exact .throw _

variable {again : String → Action Bool}

theorem keeps_callOperation (hP : Registrable P) (hagain : ∀ fragment, Keeps P (again fragment))
    (operation : Operation) (arguments : Arguments) :
    Keeps P (callOperation again operation arguments) := by
  unfold callOperation
  split
  · exact .bind (keeps_textArgument _) fun _ => .bind (hagain _) fun _ => .pure ()
  · exact .bind (keeps_textArgument _) fun _ => .bind (keeps_select _) fun _ => .pure ()
  · exact .bind (keeps_textArgument _) fun _ => keeps_registerTemplate hP _ _ _ _
  · exact .bind (keeps_textArgument _) fun _ => keeps_registerTemplate hP _ _ _ _
  · exact .bind (keeps_textArgument _) fun _ => keeps_registerTemplate hP _ _ _ _
  · exact .pure ()
  · exact .pure ()
  · exact .pure ()
  · exact .throw _
  · exact .throw _

theorem keeps_call (hP : Registrable P) (hagain : ∀ fragment, Keeps P (again fragment))
    (arguments : Arguments) (handler : Handler) : Keeps P (call again arguments handler) := by
  cases handler with
  | function name | unnamed name => exact .record _
  | failing name => exact .bind (.record _) fun _ => .throw _
  | operation o => exact keeps_callOperation hP hagain o arguments
  | value p => exact .throw _

/-- An execution keeps what the handler of the route keeps. -/
theorem keeps_execute_of_handler {m : Selection}
    (h : ∀ handler, m.route.handler = some handler → Keeps P (call again m.arguments handler)) :
    Keeps P (execute again m) := by
  have closing : Keeps P (do if (← get).traced then record (.ends m.route.name)) := by
    refine .bind .get fun s => ?_
    split
    · exact .record _
    · exact .pure ()
  unfold execute
  refine .bind .get fun s => ?_
  cases hhandler : m.route.handler with
  | none =>
    dsimp only
    split
    · exact .bind (.record _) fun _ => closing
    · exact closing
  | some handler =>
    have called := Keeps.bind (h handler hhandler) fun _ => closing
    dsimp only
    split
    · exact .bind (.record _) fun _ => called
    · exact called

theorem keeps_execute (hP : Registrable P) (hagain : ∀ fragment, Keeps P (again fragment))
    (m : Selection) : Keeps P (execute again m) :=
  keeps_execute_of_handler fun handler _ => keeps_call hP hagain m.arguments handler

theorem keeps_dispatchWithin (hP : Registrable P) (depth : Nat) (fragment : String) :
    Keeps P (dispatchWithin depth fragment) := by
  induction depth generalizing fragment with
  | zero =>
    rw [dispatchWithin]
    refine .bind (keeps_select _) fun found => ?_
    cases found with
    | none => exact .bind (.report _) fun _ => .pure _
    | some m =>
      exact .bind (.report _) fun _ =>
        .bind (keeps_execute hP (fun _ => .throw _) m) fun _ => .pure _
  | succ depth ih =>
    rw [dispatchWithin]
    refine .bind (keeps_select _) fun found => ?_
    cases found with
    | none => exact .bind (.report _) fun _ => .pure _
    | some m =>
      exact .bind (.report _) fun _ => .bind (keeps_execute hP ih m) fun _ => .pure _

/-! ## Runs -/

/-- The sessions that registering templates, selecting, dispatching and executing lead to. Routes
are only ever registered from templates, under the configuration of the router. -/
inductive Reachable : Session → Prop
  | start (config : Config) (methods : List String) (routes : Entries String Designation)
      (traced : Bool) : Reachable (start config methods routes traced).2
  | register {s : Session} (h : Reachable s) (template : String) (designation : Designation)
      (explicit : Option Handler) (named : Option Bool) :
      Reachable (s.perform (registerTemplate template designation explicit named)).2
  | select {s : Session} (h : Reachable s) (fragment : String) :
      Reachable (s.perform (Session.select fragment)).2
  | dispatch {s : Session} (h : Reachable s) (fragment : String) :
      Reachable (s.perform (Session.dispatch fragment)).2
  | execute {s : Session} (h : Reachable s) (m : Selection) :
      Reachable (s.perform (Session.execute Session.dispatch m)).2

/-- What holds of routers without routes and what every registration of a template keeps holds of
every reachable router. -/
theorem Reachable.router_induction (hP : Registrable P)
    (fresh : ∀ (config : Config) (methods : List String), P { config, methods })
    {s : Session} (h : Reachable s) : P s.router := by
  induction h with
  | start config methods routes traced => exact keeps_registerAll hP routes _ (fresh config methods)
  | register _ template designation explicit named ih =>
    exact keeps_registerTemplate hP template designation explicit named _ ih
  | select _ fragment ih => exact keeps_select fragment _ ih
  | dispatch _ fragment ih => exact keeps_dispatchWithin hP 1000 fragment _ ih
  | execute _ m ih =>
    exact keeps_execute hP (fun fragment => keeps_dispatchWithin hP 1000 fragment) m _ ih

end Session

namespace Router

/-- Every route was compiled from a template under the configuration of the router. -/
def FromTemplates (r : Router) : Prop :=
  ∀ route ∈ r.routes, ∃ template named, route.pattern = .ofTemplate template named r.config

/-- A successful registration puts one route with the pattern before the others. -/
theorem register_eq_ok {r r' : Router} {pattern : Pattern} {designation : Designation}
    {explicit : Option Handler} (h : r.register pattern designation explicit = .ok r') :
    ∃ handler name, r' = { r with routes := ⟨pattern, handler, name⟩ :: r.routes } := by
  unfold register at h
  cases hsettle : r.settle pattern.template designation explicit with
  | error failure => rw [hsettle] at h; cases h
  | ok settled =>
    rw [hsettle] at h
    cases h
    exact ⟨settled.1, settled.2, rfl⟩

/-- A registration can fail only if a handler is neither designated nor given beside a name. -/
theorem no_handler_of_register_eq_error {r : Router} {pattern : Pattern} {designation : Designation}
    {explicit : Option Handler} {failure : Failure}
    (h : r.register pattern designation explicit = .error failure) :
    explicit = none ∧ ∀ handler, designation ≠ .handler handler := by
  cases designation with
  | handler handler => cases h
  | name n =>
    cases explicit with
    | none => exact ⟨rfl, nofun⟩
    | some handler => cases h
  | misfit kind text =>
    cases explicit with
    | none => exact ⟨rfl, nofun⟩
    | some handler => cases h

theorem registrable_fromTemplates : Session.Registrable FromTemplates := by
  intro r r' template named designation explicit hr hregister
  obtain ⟨handler, name, rfl⟩ := register_eq_ok hregister
  exact List.forall_mem_cons.mpr ⟨⟨template, named, rfl⟩, hr⟩

end Router

/-- Every route of a reachable router was compiled from a template under its configuration. -/
theorem Session.Reachable.fromTemplates {s : Session} (h : Reachable s) :
    s.router.FromTemplates :=
  h.router_induction Router.registrable_fromTemplates fun _ _ => List.forall_mem_nil _

end FragmentRouting
