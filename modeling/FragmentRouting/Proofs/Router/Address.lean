import FragmentRouting.Proofs.Extraction.Arguments
import FragmentRouting.Proofs.Query.RoundTrip
import FragmentRouting.Proofs.Router.Reachable
import FragmentRouting.Proofs.Template.Suffix

/-!
# Selecting an address

An address built from a path and a mapping is selected like the path, and gives its handler the
normal form of the mapping on top:

* `select?_append`: every route captures of an address what it captures of the path;
* `select_address`: what selecting an address gives, for the routers that sessions reach.
-/

namespace FragmentRouting.Router

open Query (Encodable entryKeys normalEntries foldedLeaf)

/-! ## Every route -/

theorem findSome?_rel {α β : Type} {R : β → β → Prop} {f g : α → Option β} {xs : List α}
    (h : ∀ x ∈ xs, Option.Rel R (f x) (g x)) :
    Option.Rel R (xs.findSome? f) (xs.findSome? g) := by
  induction xs with
  | nil => exact .none
  | cons x xs ih =>
    obtain ⟨hx, hxs⟩ := List.forall_mem_cons.mp h
    rw [List.findSome?_cons, List.findSome?_cons]
    generalize f x = a, g x = b at hx
    cases hx with
    | none => exact ih hxs
    | some hr => exact .some hr

theorem FromTemplates.delimiter_eq {r : Router} (h : r.FromTemplates) {route : Route}
    (hroute : route ∈ r.routes) : route.pattern.delimiter = r.config.delimiter := by
  obtain ⟨template, named, hpattern⟩ := h route hroute
  rw [hpattern]
  rfl

/-- A query on one line leaves the route of a path selected and joins its block to the
arguments. -/
theorem select?_append {r : Router} (fromTemplates : r.FromTemplates)
    (plain : ∀ route ∈ r.routes, '?' ∉ route.pattern.template.toList) {path query : String}
    (noQuery : '?' ∉ path.toList) (oneLine : '\n' ∉ query.toList) :
    Option.Rel (fun m m' => m'.route = m.route ∧
        m.route.pattern.Joins (Query.decode query r.config.delimiter) m.arguments m'.arguments)
      (r.select? path) (r.select? (path ++ "?" ++ query)) := by
  apply findSome?_rel
  intro route hroute
  rw [Pattern.captures?_append (plain route hroute) noQuery]
  cases hcaptures : route.pattern.captures? path with
  | none => exact .none
  | some captures =>
    obtain ⟨slots, old⟩ := captures
    obtain rfl : old = none := Pattern.captures?_query noQuery hcaptures
    have joins := route.pattern.argumentsOf_joins slots (String.ofList ('?' :: query.toList))
    have block : route.pattern.queryBlock (String.ofList ('?' :: query.toList)) =
        Query.decode query r.config.delimiter := by
      simp [Pattern.queryBlock, fromTemplates.delimiter_eq hroute]
    rw [block] at joins
    simp only [Template.withQuery, oneLine, if_false, Option.map_some, Option.bind_some]
    exact .some ⟨rfl, joins⟩

/-- Selecting an address gives what selecting the path gives, up to the arguments. The route is the
same, and unless the query is empty, the normal form of the mapping joins the arguments. -/
theorem select_address {s : Session} (reachable : s.Reachable)
    (plain : ∀ route ∈ s.router.routes, '?' ∉ route.pattern.template.toList) {c : Char}
    (hdelimiter : s.router.config.delimiter = some (String.singleton c))
    (noDigit : Percent.isEscapeDigit c = false) (noLine : c ≠ '\n') {path : String}
    (noQuery : '?' ∉ path.toList) {entries : List (Value × Value)} (h : Encodable entries)
    (hkeys : ∀ key ∈ entryKeys entries, '\n' ∉ key.toList) :
    ∃ text fragment, Query.encode (.map entries) "" s.router.config.delimiter = .ok text ∧
      s.router.address path (.map entries) = .ok fragment ∧
      Option.Rel (fun m m' => m'.route = m.route ∧
          if text = "" then m'.arguments = m.arguments
          else m.route.pattern.Joins (normalEntries foldedLeaf entries) m.arguments m'.arguments)
        (s.router.select? path) (s.router.select? fragment) := by
  have accepted : Delimiter.fault? (some (String.singleton c)) = none :=
    hdelimiter ▸ s.router.config.faultless
  have hmark : s.router.config.delimiter.IsMark (some c) :=
    hdelimiter ▸ Query.isMark_of_accepted accepted noDigit
  have other : some c ≠ some '\n' := fun e => noLine (Option.some.inj e)
  obtain ⟨text, htext, hread⟩ := Query.decode_encode_folded hmark h
  have oneLine := Query.oneLine_encode hmark other h hkeys htext
  refine ⟨text, if text.isEmpty then path else path ++ "?" ++ text, htext, ?_, ?_⟩
  · simp only [address, htext]
    rfl
  · by_cases nothing : text = ""
    · have same : (if text.isEmpty then path else path ++ "?" ++ text) = path := by simp [nothing]
      rw [same]
      cases s.router.select? path with
      | none => exact .none
      | some m => exact .some ⟨rfl, by simp [nothing]⟩
    · have longer : (if text.isEmpty then path else path ++ "?" ++ text) =
          path ++ "?" ++ text := by simp [nothing]
      rw [longer, ← hread]
      simp only [nothing, if_false]
      exact select?_append reachable.fromTemplates plain noQuery oneLine

/-- A router with a route that names its captures before one that does not, each with a path that
it matches. -/
theorem select_address_of_two_routes :
    ∃ s : Session, (s.Reachable ∧
        (∀ route ∈ s.router.routes, '?' ∉ route.pattern.template.toList) ∧
        s.router.config.delimiter = some (String.singleton '|') ∧
        Percent.isEscapeDigit '|' = false ∧ '|' ≠ '\n' ∧
        (∀ path ∈ ["users/42", "docs/intro"],
          '?' ∉ path.toList ∧ (s.router.select? path).isSome) ∧
        Encodable [(.text "tags", .list [.text "a", .text "b"])] ∧
        ∀ key ∈ entryKeys [(.text "tags", .list [.text "a", .text "b"])], '\n' ∉ key.toList) ∧
      ∀ path ∈ ["users/42", "docs/intro"], ∃ text fragment,
        Query.encode (.map [(.text "tags", .list [.text "a", .text "b"])]) ""
          s.router.config.delimiter = .ok text ∧
        s.router.address path (.map [(.text "tags", .list [.text "a", .text "b"])]) =
          .ok fragment ∧
        Option.Rel (fun m m' => m'.route = m.route ∧
            if text = "" then m'.arguments = m.arguments
            else m.route.pattern.Joins [("tags", .list [.text "a", .text "b"])] m.arguments
              m'.arguments)
          (s.router.select? path) (s.router.select? fragment) := by
  let first := (Session.start .standard [] [("users/:id", .handler (.function "show"))] false).2
  let s := (first.perform (Session.registerTemplate "docs(/:page)" (.name none) none (some true))).2
  have reachable : s.Reachable := .register (.start _ _ _ _) _ _ _ _
  have plain : ∀ route ∈ s.router.routes, '?' ∉ route.pattern.template.toList := by decide +kernel
  have delimiter : s.router.config.delimiter = some (String.singleton '|') := rfl
  have encodable : Encodable [(.text "tags", .list [.text "a", .text "b"])] := by
    refine .leaf (by decide) (by simp) ?_ .nil
    simp [Query.IsLeaf, Query.IsElement, Value.isScalar]
  have keys : ∀ key ∈ entryKeys [(.text "tags", .list [.text "a", .text "b"])],
      '\n' ∉ key.toList := by decide
  have paths : ∀ path ∈ ["users/42", "docs/intro"],
      '?' ∉ path.toList ∧ (s.router.select? path).isSome := by decide +kernel
  exact ⟨s, ⟨reachable, plain, delimiter, by decide, by decide, paths, encodable, keys⟩,
    fun path hpath => select_address reachable plain delimiter (by decide) (by decide)
      (paths path hpath).1 encodable keys⟩

end FragmentRouting.Router
