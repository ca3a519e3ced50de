import FragmentRouting.Config
import FragmentRouting.Proofs.Query.RoundTrip

/-!
# The value codec under a configured delimiter

Which of the delimiters that may be configured let every text through:

* `Delimiter.Lossless`: every text is read back, and none is taken for a list;
* `IsMark.lossless`: so it is if the delimiter can be told from all that is escaped;
* `not_read_back_digit`: so it is not if the delimiter is a digit of escapes;
* `lossless_iff`: of the delimiters that may be configured, these digits are the only ones under
  which texts are lost.
-/

namespace FragmentRouting

open Query (fieldText)

/-- What encoding texts under a delimiter and reading them again is meant to keep. -/
structure Delimiter.Lossless (delimiter : Delimiter) : Prop where
  /-- Reading gives back every text that was encoded. -/
  read_back : ∀ s : String, Percent.decode (fieldText (.text s) delimiter) = s
  /-- No encoded text holds a delimiter that is switched on, -/
  absent : ∀ (s : String) (separator : List Char), delimiter.enabled? = some separator →
    ¬ separator <:+: (fieldText (.text s) delimiter).toList
  /-- so that none is split into items, -/
  whole : ∀ s : String, delimiter.items? (fieldText (.text s) delimiter) = none
  /-- and a list is split between its elements only. Empty ones are no items. -/
  elements : ∀ (texts : List String) (separator : List Char),
    delimiter.enabled? = some separator → texts ≠ [] →
    delimiter.items? (String.join
        (texts.map fun s => String.ofList separator ++ fieldText (.text s) delimiter)) =
      some ((texts.filter (!·.isEmpty)).map fun s => fieldText (.text s) delimiter)

namespace Delimiter

theorem IsMark.lossless {delimiter : Delimiter} {mark : Option Char}
    (h : IsMark delimiter mark) : delimiter.Lossless where
  read_back := h.decode_encode
  absent := by
    intro s separator enabled
    rw [h.enabled] at enabled
    obtain ⟨c, rfl, rfl⟩ := Option.map_eq_some_iff.mp enabled
    intro found
    exact (h.encode_marks (found.subset (List.mem_singleton_self c))).1 rfl
  whole := h.items?_encode
  elements := by
    intro texts separator enabled nonempty
    rw [h.enabled] at enabled
    obtain ⟨c, rfl, rfl⟩ := Option.map_eq_some_iff.mp enabled
    exact h.items?_marked nonempty

/-- A delimiter that may be configured is switched off or a single character. -/
theorem off_or_singleton {delimiter : Delimiter} (faultless : delimiter.fault? = none) :
    delimiter.enabled? = none ∨ ∃ c, delimiter = some (String.singleton c) := by
  cases delimiter with
  | none => exact .inl rfl
  | some text =>
    obtain ⟨chars, rfl⟩ : ∃ chars, text = String.ofList chars := ⟨_, String.ofList_toList.symm⟩
    rcases chars with _ | ⟨c, _ | ⟨d, rest⟩⟩
    · exact .inl rfl
    · exact .inr ⟨c, congrArg some String.singleton_eq_ofList.symm⟩
    · simp [fault?] at faultless

end Delimiter

/-! ## Digits of escapes -/

theorem exists_upperHex {c : Char} (h : Percent.isEscapeDigit c = true) :
    ∃ n < 16, c = Text.upperHex n := by
  simp only [Percent.isEscapeDigit, Bool.or_eq_true, Bool.and_eq_true, decide_eq_true_eq] at h
  rcases h with ⟨low, high⟩ | ⟨low, high⟩
  · have low : 48 ≤ c.toNat := low
    have high : c.toNat ≤ 57 := high
    refine ⟨c.toNat - 48, by omega, ?_⟩
    rw [Text.upperHex, if_pos (by omega), Nat.add_sub_cancel' low, Char.ofNat_toNat]
  · have low : 65 ≤ c.toNat := low
    have high : c.toNat ≤ 70 := high
    refine ⟨c.toNat - 55, by omega, ?_⟩
    rw [Text.upperHex, if_neg (by omega), Nat.add_sub_cancel' (by omega), Char.ofNat_toNat]

/-- The control character with the number of a digit has this digit in its escape, and escaping
the digit there leaves a percent sign without its digits. -/
theorem not_read_back_digit : ∀ n < 16,
    let s := String.singleton (Char.ofNat n)
    Percent.decode (fieldText (.text s) (some (String.singleton (Text.upperHex n)))) ≠ s := by
  decide +kernel

/-- The value codec loses nothing under a delimiter that may be configured, unless it is a digit
of escapes. Under every such digit some text is not read back. -/
theorem lossless_iff (config : Config) :
    config.delimiter.Lossless ↔
      ∀ c, config.delimiter = some (String.singleton c) → Percent.isEscapeDigit c = false := by
  constructor
  · intro lossless c hc
    by_contra digit
    rw [Bool.not_eq_false] at digit
    obtain ⟨n, hn, rfl⟩ := exists_upperHex digit
    have read_back := lossless.read_back (String.singleton (Char.ofNat n))
    rw [hc] at read_back
    exact not_read_back_digit n hn read_back
  · intro noDigit
    rcases Delimiter.off_or_singleton config.faultless with off | ⟨c, hc⟩
    · have mark : config.delimiter.IsMark none := ⟨off, fun c hc => by cases hc⟩
      exact mark.lossless
    · have accepted : Delimiter.fault? (some (String.singleton c)) = none := hc ▸ config.faultless
      rw [hc]
      exact (Query.isMark_of_accepted accepted (noDigit c hc)).lossless

/-- A colon is not read back under `A`, and under `2` a two is written with its delimiter in it.
Both delimiters may be configured. -/
theorem texts_lost_under_digits :
    (Delimiter.fault? (some "A") = none ∧
      Percent.decode (fieldText (.text ":") (some "A")) ≠ ":") ∧
    Delimiter.fault? (some "2") = none ∧ '2' ∈ (fieldText (.text "2") (some "2")).toList := by
  decide +kernel

end FragmentRouting
