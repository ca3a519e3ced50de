/-!
# Ordered entries

A finite map that remembers the order in which its keys were first set.
-/

namespace FragmentRouting

abbrev Entries (κ α : Type) := List (κ × α)

namespace Entries

variable {κ α : Type} [DecidableEq κ]

/-- The item of a key. -/
def item? (key : κ) : Entries κ α → Option α
  | [] => none
  | (k, item) :: rest => if k = key then some item else item? key rest

/-- Sets the item of a key, which keeps its place if it is there already. -/
def put (key : κ) (item : α) : Entries κ α → Entries κ α
  | [] => [(key, item)]
  | (k, old) :: rest => if k = key then (k, item) :: rest else (k, old) :: put key item rest

/-- The entries that setting one item after the other leads to. -/
def ofList (items : List (κ × α)) : Entries κ α :=
  items.foldl (fun entries e => put e.1 e.2 entries) []

theorem item?_put_self (key : κ) (item : α) (entries : Entries κ α) :
    item? key (put key item entries) = some item := by
  induction entries with
  | nil => simp [put, item?]
  | cons e rest ih => by_cases h : e.1 = key <;> simp [put, item?, h, ih]

theorem item?_put_of_ne {key other : κ} (h : other ≠ key) (item : α) (entries : Entries κ α) :
    item? other (put key item entries) = item? other entries := by
  induction entries with
  | nil => simp [put, item?, Ne.symm h]
  | cons e rest ih =>
    by_cases hk : e.1 = key
    · simp [put, item?, hk, Ne.symm h]
    · simp [put, item?, hk, ih]

theorem keys_put (key : κ) (item : α) (entries : Entries κ α) :
    (put key item entries).map Prod.fst =
      if key ∈ entries.map Prod.fst then entries.map Prod.fst
      else entries.map Prod.fst ++ [key] := by
  induction entries with
  | nil => simp [put]
  | cons e rest ih =>
    by_cases hk : e.1 = key
    · simp [put, hk]
    · have hk' : ¬ key = e.1 := fun h => hk h.symm
      simp only [put, hk, if_false, List.map_cons, ih, List.mem_cons, hk', false_or]
      split <;> simp

end Entries

end FragmentRouting
