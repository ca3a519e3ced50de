import Mathlib.Data.List.Forall2
import FragmentRouting.Proofs.Query.Walk

/-!
# Blocks up to the order of their names

The names of a block stand in the order in which they were first set. When this order does not
matter:

* `Parameter.Alike`: two parameters have the same texts and items under the same names, and
  `Alike.trans` joins two such steps;
* `Block.alike_update`: changing a path respects this;
* `Block.update_swap`: changes of two unrelated paths can be made in either order.
-/

namespace FragmentRouting

open Entries (item? put)

/-- Equal up to the order of the names in blocks, at every depth. -/
inductive Parameter.Alike : Parameter → Parameter → Prop
  | text (s : String) : Alike (.text s) (.text s)
  | list {items items' : List Parameter} (h : List.Forall₂ Alike items items') :
      Alike (.list items) (.list items')
  | block {b b' : Block} (names : (b.map Prod.fst).Perm (b'.map Prod.fst))
      (items : ∀ name, Option.Rel Alike (item? name b) (item? name b')) :
      Alike (.block b) (.block b')

/-- Equal up to the order of names. -/
def Block.Alike (b b' : Block) : Prop :=
  Parameter.Alike (.block b) (.block b')

namespace Parameter.Alike

theorem sizeOf_item?_lt {name : String} {b : Block} {p : Parameter} (h : item? name b = some p) :
    sizeOf p < sizeOf (Parameter.block b) := by
  have within := List.sizeOf_lt_of_mem (Entries.mem_of_item? h)
  simp only [Prod.mk.sizeOf_spec, Parameter.block.sizeOf_spec] at within ⊢
  omega

theorem sizeOf_mem_lt {p : Parameter} {items : List Parameter} (h : p ∈ items) :
    sizeOf p < sizeOf (Parameter.list items) := by
  have within := List.sizeOf_lt_of_mem h
  simp only [Parameter.list.sizeOf_spec]
  omega

theorem refl (p : Parameter) : Alike p p := by
  cases p with
  | text s => exact .text s
  | list items => exact .list (List.forall₂_same.mpr fun item h => refl item)
  | block b =>
    refine .block (.refl _) fun name => ?_
    cases h : item? name b with
    | none => exact .none
    | some p => exact .some (refl p)
termination_by sizeOf p
decreasing_by
  · exact sizeOf_mem_lt h
  · exact sizeOf_item?_lt h

theorem forall₂_trans {items items' items'' : List Parameter}
    (h : List.Forall₂ Alike items items') (h' : List.Forall₂ Alike items' items'')
    (trans : ∀ p ∈ items, ∀ q r, Alike p q → Alike q r → Alike p r) :
    List.Forall₂ Alike items items'' := by
  induction h generalizing items'' with
  | nil => exact h'
  | cons hp _ ih =>
    obtain ⟨htrans, hrest⟩ := List.forall_mem_cons.mp trans
    cases h' with
    | cons hq h' => exact .cons (htrans _ _ hp hq) (ih h' hrest)

theorem rel_trans {p q r : Option Parameter} (h : Option.Rel Alike p q)
    (h' : Option.Rel Alike q r)
    (trans : ∀ p', p = some p' → ∀ q r, Alike p' q → Alike q r → Alike p' r) :
    Option.Rel Alike p r := by
  cases h with
  | none => exact h'
  | some hp =>
    cases h' with
    | some hq => exact .some (trans _ rfl _ _ hp hq)

theorem rel_refl (p : Option Parameter) : Option.Rel Alike p p := by
  cases p with
  | none => exact .none
  | some p => exact .some (refl p)

theorem trans : ∀ {p q r : Parameter}, Alike p q → Alike q r → Alike p r
  | .text _, _, _, .text _, h' => h'
  | .list _, _, _, .list h, .list h' =>
    .list (forall₂_trans h h' fun _ _ _ _ => trans)
  | .block _, _, _, .block names items, .block names' items' =>
    .block (names.trans names') fun name =>
      rel_trans (items name) (items' name) fun _ _ _ _ => trans
termination_by p => sizeOf p
decreasing_by
  · exact sizeOf_mem_lt ‹_ ∈ _›
  · exact sizeOf_item?_lt ‹_ = some _›

end Parameter.Alike

/-! ## Setting and updating -/

namespace Block

variable {b b' : Block}

theorem alike_put (h : Block.Alike b b') (name : String) {p p' : Parameter}
    (hp : Parameter.Alike p p') : Block.Alike (put name p b) (put name p' b') := by
  cases h with
  | block names items =>
    refine .block ?_ fun other => ?_
    · rw [Entries.keys_put, Entries.keys_put]
      by_cases present : name ∈ b.map Prod.fst
      · rwa [if_pos present, if_pos (names.mem_iff.mp present)]
      · rw [if_neg present, if_neg fun h => present (names.mem_iff.mpr h)]
        exact names.append_right [name]
    · by_cases same : other = name
      · subst same
        rw [Entries.item?_put_self, Entries.item?_put_self]
        exact .some hp
      · rw [Entries.item?_put_of_ne same, Entries.item?_put_of_ne same]
        exact items other

theorem alike_inner (h : Block.Alike b b') (name : String) :
    Block.Alike (inner name b) (inner name b') := by
  cases h with
  | block names items =>
    have found := items name
    unfold inner
    generalize item? name b = p, item? name b' = p' at found
    cases found with
    | none => exact .refl _
    | some h =>
      cases h with
      | text _ | list _ => exact .refl _
      | block names items => exact .block names items

/-- Changing a path keeps blocks alike, if the change does so for what stands at the path. -/
theorem alike_update {change : Option Parameter → Parameter}
    (hchange : ∀ p p', Option.Rel Parameter.Alike p p' →
      Parameter.Alike (change p) (change p'))
    (path : List String) (h : Block.Alike b b') :
    Block.Alike (update change path b) (update change path b') := by
  induction path generalizing b b' with
  | nil => exact h
  | cons name path ih =>
    by_cases last : path = []
    · subst last
      have item : Option.Rel Parameter.Alike (item? name b) (item? name b') := by
        cases h with
        | block _ items => exact items name
      exact alike_put h name (hchange _ _ item)
    · rw [update_cons last, update_cons last]
      exact alike_put h name (ih (alike_inner h name))

/-- Two names may be set in either order. If both are new, they end up in that order. -/
theorem put_swap {name other : String} (ne : name ≠ other) (p q : Parameter) (b : Block) :
    Block.Alike (put name p (put other q b)) (put other q (put name p b)) := by
  by_cases hname : name ∈ b.map Prod.fst
  · rw [Entries.put_comm (Ne.symm ne) hname]
    exact .refl _
  by_cases hother : other ∈ b.map Prod.fst
  · rw [Entries.put_comm ne hother]
    exact .refl _
  refine .block ?_ fun key => ?_
  · simp only [Entries.keys_put, hname, hother, ne, Ne.symm ne, List.mem_append,
      List.mem_singleton, or_self, if_false, List.append_assoc]
    exact .append_left _ (.swap name other [])
  · have same : item? key (put name p (put other q b)) =
        item? key (put other q (put name p b)) := by
      by_cases first : key = name
      · subst first
        rw [Entries.item?_put_self, Entries.item?_put_of_ne ne, Entries.item?_put_self]
      · by_cases second : key = other
        · subst second
          rw [Entries.item?_put_of_ne first, Entries.item?_put_self, Entries.item?_put_self]
        · simp only [Entries.item?_put_of_ne first, Entries.item?_put_of_ne second]
    rw [same]
    exact Parameter.Alike.rel_refl _

theorem inner_put_self (name : String) (inside b : Block) :
    inner name (put name (.block inside) b) = inside := by
  rw [inner, Entries.item?_put_self]

/-- Changing a path sets its first name to what only depends on the item of this name. -/
theorem exists_update_eq_put (change : Option Parameter → Parameter) (name : String)
    (path : List String) : ∃ change' : Option Parameter → Parameter, ∀ b,
      update change (name :: path) b = put name (change' (item? name b)) b := by
  by_cases last : path = []
  · subst last
    exact ⟨change, fun b => rfl⟩
  · refine ⟨fun item => .block (update change path (ofItem item)), fun b => ?_⟩
    rw [update_cons last, inner_eq_ofItem]

theorem update_swap {change change' : Option Parameter → Parameter} {path other : List String}
    (apart : ¬ Query.Related path other) (b : Block) :
    Block.Alike (update change path (update change' other b))
      (update change' other (update change path b)) := by
  induction path generalizing other b with
  | nil => exact absurd (.inl List.nil_prefix) apart
  | cons name path ih =>
    cases other with
    | nil => exact absurd (.inr List.nil_prefix) apart
    | cons first other =>
      by_cases same : name = first
      · subst same
        obtain ⟨hpath, hother, apart⟩ := Query.apart_tails apart
        simp only [update_cons hpath, update_cons hother, inner_put_self, Entries.put_put]
        exact alike_put (.refl _) name (ih apart (inner name b))
      · obtain ⟨f, hf⟩ := exists_update_eq_put change name path
        obtain ⟨g, hg⟩ := exists_update_eq_put change' first other
        rw [hf, hg, hg, hf, Entries.item?_put_of_ne same, Entries.item?_put_of_ne (Ne.symm same)]
        exact put_swap same _ _ b

end Block

end FragmentRouting
