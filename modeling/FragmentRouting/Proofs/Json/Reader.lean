import FragmentRouting.Json.Reader
import FragmentRouting.Proofs.Entries

/-!
# What reading JSON gives

The values that can be read from a text are those that JSON has: an object has members with distinct
names, and neither objects nor lists hold anything else.

* `IsJson`: the values that JSON has;
* `ofEntries_members`: setting members one after the other keeps their names distinct;
* `isJson_read`: whatever is read is one of them, by an induction over the readers of values, items
  and members together.
-/

namespace FragmentRouting.Json

open Entries (put)

/-- The entries of an object with these members. -/
def members (m : Entries String Value) : List (Value × Value) :=
  m.map fun e => (.text e.1, e.2)

inductive IsJson : Value → Prop
  | null : IsJson .null
  | bool (b : Bool) : IsJson (.bool b)
  | int (n : Int) : IsJson (.int n)
  | float (x : Float) : IsJson (.float x)
  | text (s : String) : IsJson (.text s)
  | list {items : List Value} (h : ∀ v ∈ items, IsJson v) : IsJson (.list items)
  | object {m : Entries String Value} (distinct : (m.map Prod.fst).Nodup)
      (h : ∀ e ∈ m, IsJson e.2) : IsJson (.map (members m))

/-! ## Objects -/

theorem putEntry_members (name : String) (v : Value) (m : Entries String Value) :
    Value.putEntry (.text name) v (members m) = members (put name v m) := by
  induction m with
  | nil => rfl
  | cons e rest ih =>
    have ih : Value.putEntry (.text name) v (rest.map fun e => (.text e.1, e.2)) =
        members (put name v rest) := ih
    by_cases same : e.1 = name <;> simp [members, Value.putEntry, Value.sameKey, put, same, ih]

/-- The object that setting one member after the other leads to. -/
theorem ofEntries_members (row : List (String × Value)) :
    Value.ofEntries (members row) = .map (members (Entries.ofList row)) := by
  have set (m : Entries String Value) :
      (members row).foldl (fun entries e => Value.putEntry e.1 e.2 entries) (members m) =
        members (row.foldl (fun m e => put e.1 e.2 m) m) := by
    induction row generalizing m with
    | nil => rfl
    | cons e row ih =>
      rw [List.foldl_cons, ← ih, ← putEntry_members]
      rfl
  exact congrArg Value.map (set [])

theorem isJson_ofEntries {row : List (String × Value)} (h : ∀ e ∈ row, IsJson e.2) :
    IsJson (Value.ofEntries (members row)) := by
  rw [ofEntries_members]
  have keeps (m : Entries String Value) (distinct : (m.map Prod.fst).Nodup)
      (hm : ∀ e ∈ m, IsJson e.2) :
      ((row.foldl (fun m e => put e.1 e.2 m) m).map Prod.fst).Nodup ∧
        ∀ e ∈ row.foldl (fun m e => put e.1 e.2 m) m, IsJson e.2 := by
    induction row generalizing m with
    | nil => exact ⟨distinct, hm⟩
    | cons e row ih =>
      obtain ⟨he, hrow⟩ := List.forall_mem_cons.mp h
      refine ih hrow (put e.1 e.2 m) (Entries.nodup_put distinct _ _) ?_
      intro e' he'
      rcases Entries.mem_put he' with rfl | he'
      · exact he
      · exact hm e' he'
  obtain ⟨distinct, hm⟩ := keeps [] List.nodup_nil (List.forall_mem_nil _)
  exact .object distinct hm

/-! ## Readers -/

theorem isJson_of_readWord? {rest after : List Char} {v : Value}
    (h : readWord? rest = some (v, after)) : IsJson v := by
  obtain ⟨⟨word, v'⟩, hword, found⟩ := List.exists_of_findSome?_eq_some h
  obtain ⟨_, -, same⟩ := Option.map_eq_some_iff.mp found
  cases same
  have all : ∀ word ∈ words, IsJson word.2 := by
    simp only [words, List.forall_mem_cons]
    exact ⟨.null, .bool true, .bool false, .float _, .float _, .float _, List.forall_mem_nil _⟩
  exact all _ hword

theorem isJson_of_readNumber {rest after : List Char} {v : Value}
    (h : readNumber rest = .ok (v, after)) : IsJson v := by
  have number {missing whole long : Prop} [Decidable missing] [Decidable whole] [Decidable long]
      {n : Int} {x : Float} {left : List Char} {refusal refusal' : Refusal}
      (h : (if missing then .error refusal
        else if whole then if long then .error refusal' else .ok (Value.int n, left)
        else .ok (.float x, left) : Except Refusal (After Value)) = .ok (v, after)) :
      IsJson v := by
    split at h
    · cases h
    split at h
    · split at h
      · cases h
      · cases h
        exact .int n
    · cases h
      exact .float x
  unfold readNumber at h
  dsimp only at h
  split at h <;> exact number h

/-- What follows a step that succeeds begins with its result. -/
theorem exists_of_bind_eq_ok {ε α β : Type} {step : Except ε α} {next : α → Except ε β} {b : β}
    (h : step >>= next = .ok b) : ∃ a, step = .ok a ∧ next a = .ok b := by
  cases step with
  | error => cases h
  | ok a => exact ⟨a, rfl, h⟩

/-- What the three readers give if they were handed nothing else before. They call each other with
less fuel, so nothing is said of one of them alone. -/
structure Reads (spare : Option Char) (fuel : Nat) : Prop where
  value : ∀ {rest v after}, readValue spare fuel rest = .ok (v, after) → IsJson v
  items : ∀ {seen rest v after}, (∀ item ∈ seen, IsJson item) →
    readItems spare fuel seen rest = .ok (v, after) → IsJson v
  fields : ∀ {seen rest v after}, (∀ e ∈ seen, IsJson e.2) →
    readMembers spare fuel (members seen) rest = .ok (v, after) → IsJson v

namespace Reads

variable {spare : Option Char} {fuel : Nat} {rest after : List Char} {v : Value}

theorem zero : Reads spare 0 where
  value := nofun
  items := nofun
  fields := nofun

theorem value_succ (ih : Reads spare fuel)
    (h : readValue spare (fuel + 1) rest = .ok (v, after)) : IsJson v := by
  rw [readValue.eq_def] at h
  dsimp only at h
  split at h
  · rename_i quoted
    cases found : readQuoted spare ('"' :: quoted) with
    | error fault =>
      rw [found] at h
      cases h
    | ok result =>
      rw [found] at h
      cases h
      exact .text _
  · split at h
    · cases h
      exact .list (List.forall_mem_nil _)
    · exact ih.items (List.forall_mem_nil _) h
  · split at h
    · cases h
      exact isJson_ofEntries (List.forall_mem_nil _)
    · have none : ∀ e ∈ ([] : List (String × Value)), IsJson e.2 := List.forall_mem_nil _
      exact ih.fields none h
  · split at h
    · rename_i word
      cases h
      exact isJson_of_readWord? word
    · exact isJson_of_readNumber h

theorem items_succ (ih : Reads spare fuel) {seen : List Value}
    (hseen : ∀ item ∈ seen, IsJson item)
    (h : readItems spare (fuel + 1) seen rest = .ok (v, after)) : IsJson v := by
  rw [readItems] at h
  obtain ⟨⟨item, rest⟩, hitem, h⟩ := exists_of_bind_eq_ok h
  have hseen : ∀ other ∈ item :: seen, IsJson other :=
    List.forall_mem_cons.mpr ⟨ih.value hitem, hseen⟩
  dsimp only at h
  split at h
  · cases h
    refine .list ?_
    intro other hother
    exact hseen other (List.mem_reverse.mp hother)
  · exact ih.items hseen h
  · cases h

theorem fields_succ (ih : Reads spare fuel) {seen : List (String × Value)}
    (hseen : ∀ e ∈ seen, IsJson e.2)
    (h : readMembers spare (fuel + 1) (members seen) rest = .ok (v, after)) : IsJson v := by
  rw [readMembers.eq_def] at h
  dsimp only at h
  split at h
  · obtain ⟨⟨name, rest⟩, -, h⟩ := exists_of_bind_eq_ok h
    dsimp only at h
    split at h
    · obtain ⟨⟨item, rest⟩, hitem, h⟩ := exists_of_bind_eq_ok h
      have hseen : ∀ e ∈ (name, item) :: seen, IsJson e.2 :=
        List.forall_mem_cons.mpr ⟨ih.value hitem, hseen⟩
      dsimp only at h
      split at h
      · cases h
        have order : ((.text name, item) :: members seen).reverse =
            members ((name, item) :: seen).reverse := by
          simp [members]
        rw [order]
        refine isJson_ofEntries ?_
        intro e he
        exact hseen e (List.mem_reverse.mp he)
      · exact ih.fields hseen h
      · cases h
    · cases h
  · cases h

end Reads

theorem isJson_readWith {spare : Option Char} {text : List Char} {v : Value}
    (h : readWith spare text = .ok v) : IsJson v := by
  have reads (fuel : Nat) : Reads spare fuel := by
    induction fuel with
    | zero => exact .zero
    | succ fuel ih => exact ⟨ih.value_succ, ih.items_succ, ih.fields_succ⟩
  unfold readWith at h
  split at h
  · cases h
  · obtain ⟨⟨v', rest⟩, found, h⟩ := exists_of_bind_eq_ok h
    dsimp only at h
    split at h
    · cases h
      exact (reads _).value found
    · cases h

/-- Whatever is read from a text is a value that JSON has. -/
theorem isJson_read {text : List Char} {v : Value} (h : read text = .ok v) : IsJson v := by
  obtain ⟨_, -, h⟩ := exists_of_bind_eq_ok h
  exact isJson_readWith h

end FragmentRouting.Json
