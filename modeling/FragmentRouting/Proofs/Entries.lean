import FragmentRouting.Entries

/-!
# Laws of ordered entries

Setting an item of a new key puts it at the end; setting one of a key that is there leaves the order
alone.

* `put_fresh`: where a new key goes;
* `update`: entries set one after the other over others;
* `update_put`: updating with a changed item changes it in the result;
* `update_update`: updating twice over;
* `item?_update`, `keys_update`: what updating leaves under a key, and the order of the keys.
-/

namespace FragmentRouting

namespace Entries

variable {κ α : Type} [DecidableEq κ]

theorem put_put (key : κ) (old item : α) (entries : Entries κ α) :
    put key item (put key old entries) = put key item entries := by
  induction entries with
  | nil => simp [put]
  | cons e rest ih => by_cases h : e.1 = key <;> simp [put, h, ih]

theorem put_fresh {key : κ} {entries : Entries κ α} (h : key ∉ entries.map Prod.fst) (item : α) :
    put key item entries = entries ++ [(key, item)] := by
  induction entries with
  | nil => rfl
  | cons e rest ih =>
    simp only [List.map_cons, List.mem_cons, not_or] at h
    simp [put, Ne.symm h.1, ih h.2]

theorem item?_fresh {key : κ} {entries : Entries κ α} (h : key ∉ entries.map Prod.fst) :
    item? key entries = none := by
  induction entries with
  | nil => rfl
  | cons e rest ih =>
    simp only [List.map_cons, List.mem_cons, not_or] at h
    simp [item?, Ne.symm h.1, ih h.2]

theorem mem_of_item? {key : κ} {item : α} {entries : Entries κ α}
    (h : item? key entries = some item) : (key, item) ∈ entries := by
  induction entries with
  | nil => cases h
  | cons e rest ih =>
    obtain ⟨k, old⟩ := e
    rw [item?] at h
    split at h
    · rename_i same
      cases h
      subst same
      exact List.mem_cons_self
    · exact List.mem_cons_of_mem _ (ih h)

theorem item?_of_mem {entries : Entries κ α} (nodup : (entries.map Prod.fst).Nodup)
    {e : κ × α} (h : e ∈ entries) : item? e.1 entries = some e.2 := by
  induction entries with
  | nil => cases h
  | cons first rest ih =>
    obtain ⟨absent, nodup⟩ := List.nodup_cons.mp nodup
    rcases List.mem_cons.mp h with rfl | h
    · simp [item?]
    · have other : first.1 ≠ e.1 := fun same => absent (same ▸ List.mem_map_of_mem h)
      simpa [item?, other] using ih nodup h

theorem mem_put {key : κ} {item : α} {entries : Entries κ α} {e : κ × α}
    (h : e ∈ put key item entries) : e = (key, item) ∨ e ∈ entries := by
  induction entries with
  | nil => exact .inl (List.mem_singleton.mp h)
  | cons first rest ih =>
    rw [put] at h
    split at h
    · rename_i same
      rcases List.mem_cons.mp h with rfl | h
      · exact .inl (by rw [same])
      · exact .inr (List.mem_cons_of_mem _ h)
    · rcases List.mem_cons.mp h with rfl | h
      · exact .inr List.mem_cons_self
      · exact (ih h).imp_right (List.mem_cons_of_mem _)

theorem put_ne_nil (key : κ) (item : α) (entries : Entries κ α) : put key item entries ≠ [] := by
  cases entries with
  | nil => simp [put]
  | cons e rest => by_cases h : e.1 = key <;> simp [put, h]

/-- The entries with the item of a key set, if there is one to set. -/
def put? (key : κ) (item : Option α) (entries : Entries κ α) : Entries κ α :=
  match item with
  | none => entries
  | some item => put key item entries

theorem put?_fresh {key : κ} {entries : Entries κ α} (h : key ∉ entries.map Prod.fst)
    (item : Option α) : put? key item entries = entries ++ item.toList.map (key, ·) := by
  cases item with
  | none => simp [put?]
  | some item => exact put_fresh h item

/-! ## Updating -/

/-- The entries of `base` with others set over them, in their order. -/
def update (base entries : Entries κ α) : Entries κ α :=
  entries.foldl (fun result e => put e.1 e.2 result) base

theorem put_comm {key other : κ} (ne : other ≠ key) {entries : Entries κ α}
    (present : key ∈ entries.map Prod.fst) (item x : α) :
    put key item (put other x entries) = put other x (put key item entries) := by
  induction entries with
  | nil => cases present
  | cons e rest ih =>
    by_cases hkey : e.1 = key
    · have hother : ¬ key = other := Ne.symm ne
      simp [put, hkey, hother]
    · by_cases hother : e.1 = other
      · simp [put, hother, ne]
      · have hrest : key ∈ rest.map Prod.fst :=
          (List.mem_cons.mp present).resolve_left (Ne.symm hkey)
        simp [put, hkey, hother, ih hrest]

theorem mem_keys_put {key : κ} {entries : Entries κ α} (other : κ) (x : α)
    (h : key ∈ entries.map Prod.fst) : key ∈ (put other x entries).map Prod.fst := by
  rw [keys_put]
  split
  · exact h
  · exact List.mem_append_left _ h

theorem mem_keys_put_self (key : κ) (item : α) (entries : Entries κ α) :
    key ∈ (put key item entries).map Prod.fst := by
  rw [keys_put]
  split
  · assumption
  · exact List.mem_append_right _ (List.mem_singleton_self key)

/-- An item can be set before others are updated, if it is there already and stays. -/
theorem update_put_of_not_mem {key : κ} {entries : Entries κ α}
    (absent : key ∉ entries.map Prod.fst) {base : Entries κ α}
    (present : key ∈ base.map Prod.fst) (item : α) :
    update (put key item base) entries = put key item (update base entries) := by
  induction entries generalizing base with
  | nil => rfl
  | cons e rest ih =>
    simp only [List.map_cons, List.mem_cons, not_or] at absent
    have step := ih absent.2 (mem_keys_put e.1 e.2 present)
    rw [put_comm (Ne.symm absent.1) present] at step
    exact step

/-- Updating with a changed item changes it in the result. -/
theorem update_put {entries : Entries κ α} (nodup : (entries.map Prod.fst).Nodup)
    (base : Entries κ α) (key : κ) (item : α) :
    update base (put key item entries) = put key item (update base entries) := by
  induction entries generalizing base with
  | nil => rfl
  | cons e rest ih =>
    obtain ⟨absent, nodup⟩ := List.nodup_cons.mp nodup
    by_cases same : e.1 = key
    · subst same
      have moved := update_put_of_not_mem absent (mem_keys_put_self e.1 e.2 base) item
      rw [put_put] at moved
      simpa [put, update] using moved
    · have step := ih nodup (put e.1 e.2 base)
      simpa [put, same, update] using step

theorem nodup_put {entries : Entries κ α} (h : (entries.map Prod.fst).Nodup) (key : κ)
    (item : α) : ((put key item entries).map Prod.fst).Nodup := by
  rw [keys_put]
  split
  · exact h
  · rename_i absent
    rw [List.nodup_append]
    exact ⟨h, List.pairwise_singleton _ key, fun a ha b hb e =>
      absent (List.mem_singleton.mp hb ▸ e ▸ ha)⟩

/-- What updating leaves under a key: the last item set under it, or else the item that was
there. -/
theorem item?_update (key : κ) (base entries : Entries κ α) :
    item? key (update base entries) =
      ((entries.filter (·.1 = key)).getLast?.map Prod.snd).or (item? key base) := by
  induction entries generalizing base with
  | nil => rfl
  | cons e rest ih =>
    have step : item? key (update base (e :: rest)) =
        ((rest.filter (·.1 = key)).getLast?.map Prod.snd).or (item? key (put e.1 e.2 base)) :=
      ih (put e.1 e.2 base)
    rw [step]
    by_cases same : e.1 = key
    · rw [List.filter_cons_of_pos (by simpa using same), List.getLast?_cons, ← same,
        item?_put_self]
      cases (rest.filter (·.1 = e.1)).getLast? <;> rfl
    · rw [List.filter_cons_of_neg (by simpa using same), item?_put_of_ne (Ne.symm same)]

/-- Updating leaves the keys in their places and puts the new ones behind them, in the order in
which they are first set. -/
theorem keys_update (base entries : Entries κ α) :
    (update base entries).map Prod.fst = base.map Prod.fst ++
      ((entries.map Prod.fst).filter (· ∉ base.map Prod.fst)).eraseDups := by
  induction entries generalizing base with
  | nil => simp [update]
  | cons e rest ih =>
    have step : (update base (e :: rest)).map Prod.fst = (put e.1 e.2 base).map Prod.fst ++
        ((rest.map Prod.fst).filter (· ∉ (put e.1 e.2 base).map Prod.fst)).eraseDups :=
      ih (put e.1 e.2 base)
    rw [step, keys_put, List.map_cons]
    by_cases present : e.1 ∈ base.map Prod.fst
    · rw [if_pos present, List.filter_cons_of_neg (by simpa using present)]
    · have later : (rest.map Prod.fst).filter (· ∉ base.map Prod.fst ++ [e.1]) =
          ((rest.map Prod.fst).filter (· ∉ base.map Prod.fst)).filter fun key => !key == e.1 := by
        rw [List.filter_filter]
        apply List.filter_congr
        intro key _
        rw [Bool.eq_iff_iff]
        simp [List.mem_append, not_or, and_comm]
      rw [if_neg present, List.filter_cons_of_pos (by simpa using present), List.eraseDups_cons,
        List.append_assoc, later]
      rfl

/-- Entries can be set over others before all of them are set over the base. -/
theorem update_update (base more : Entries κ α) {entries : Entries κ α}
    (nodup : (entries.map Prod.fst).Nodup) :
    update (update base entries) more = update base (update entries more) := by
  induction more generalizing entries with
  | nil => rfl
  | cons e more ih =>
    have step := ih (nodup_put nodup e.1 e.2)
    rw [update_put nodup] at step
    exact step

theorem nodup_update {base : Entries κ α} (h : (base.map Prod.fst).Nodup)
    (entries : Entries κ α) : ((update base entries).map Prod.fst).Nodup := by
  induction entries generalizing base with
  | nil => exact h
  | cons e rest ih => exact ih (nodup_put h e.1 e.2)

end Entries

end FragmentRouting
