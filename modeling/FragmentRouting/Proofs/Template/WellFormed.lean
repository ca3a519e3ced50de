import FragmentRouting.Template.Token

/-!
# Well-formed templates

A template is well formed if its parentheses are balanced and a word character follows every
asterisk. Both are read off the characters alone:

* `Balanced`: no parenthesis is closed that was not opened, and none is left open;
* `exists_closing`: the text after an opening parenthesis of a balanced text splits at the
  parenthesis that closes it, into a balanced body and a balanced rest.
-/

namespace FragmentRouting.Template

open Text (isWord)

/-- How many parentheses are open at the end of a text that begins inside `depth` of them, unless
it closes one that was not opened. -/
def depthAfter? : Nat → List Char → Option Nat
  | depth, [] => some depth
  | depth, c :: rest =>
    if c = '(' then depthAfter? (depth + 1) rest
    else if c = ')' then
      match depth with
      | 0 => none
      | depth + 1 => depthAfter? depth rest
    else depthAfter? depth rest

/-- Every parenthesis has its partner. -/
def Balanced (text : List Char) : Prop :=
  depthAfter? 0 text = some 0

instance (text : List Char) : Decidable (Balanced text) :=
  inferInstanceAs (Decidable (depthAfter? 0 text = some 0))

/-- Whether a text begins with a word character. -/
def startsWord (text : List Char) : Bool :=
  text.head?.any isWord

/-- Whether a word character follows every asterisk. -/
def starsNamed : List Char → Bool
  | [] => true
  | c :: rest => (c ≠ '*' || startsWord rest) && starsNamed rest

structure WellFormed (text : List Char) : Prop where
  balanced : Balanced text
  named : starsNamed text = true

instance (text : List Char) : Decidable (WellFormed text) :=
  decidable_of_iff (Balanced text ∧ starsNamed text = true)
    ⟨fun h => ⟨h.1, h.2⟩, fun h => ⟨h.balanced, h.named⟩⟩

/-! ## Word characters are neither parentheses nor asterisks -/

theorem not_isWord_opening : isWord '(' = false := by decide

theorem not_isWord_closing : isWord ')' = false := by decide

theorem not_isWord_star : isWord '*' = false := by decide

theorem startsWord_append {text after : List Char} (h : startsWord after = false) :
    startsWord (text ++ after) = startsWord text := by
  cases text with
  | nil => simpa [startsWord] using h
  | cons c rest => simp [startsWord]

theorem takeWhile_isWord_of_not_startsWord {text : List Char} (h : startsWord text = false) :
    text.takeWhile isWord = [] := by
  cases text with
  | nil => rfl
  | cons c rest =>
    have hc : isWord c = false := by simpa [startsWord] using h
    simp [hc]

/-- A text that begins with no word character prolongs no word before it. -/
theorem takeWhile_isWord_append {after : List Char} (h : startsWord after = false)
    (text : List Char) : (text ++ after).takeWhile isWord = text.takeWhile isWord := by
  induction text with
  | nil => simp [takeWhile_isWord_of_not_startsWord h]
  | cons c rest ih => simp only [List.cons_append, List.takeWhile_cons, ih]

theorem takeWhile_isWord_ne_nil {text : List Char} :
    text.takeWhile isWord ≠ [] ↔ startsWord text = true := by
  cases text with
  | nil => simp [startsWord]
  | cons c rest => cases h : isWord c <;> simp [startsWord, h]

/-! ## Depth -/

theorem depthAfter?_append (depth : Nat) (first rest : List Char) :
    depthAfter? depth (first ++ rest) =
      (depthAfter? depth first).bind fun d => depthAfter? d rest := by
  induction first generalizing depth with
  | nil => rfl
  | cons c first ih =>
    simp only [List.cons_append, depthAfter?]
    split
    · exact ih _
    · split
      · cases depth with
        | zero => rfl
        | succ depth => exact ih depth
      · exact ih depth

theorem depthAfter?_dropWhile (depth : Nat) (text : List Char) :
    depthAfter? depth (text.dropWhile isWord) = depthAfter? depth text := by
  induction text with
  | nil => rfl
  | cons c rest ih =>
    cases h : isWord c with
    | false => rw [List.dropWhile_cons_of_neg (by simp [h])]
    | true =>
      have hopen : c ≠ '(' := fun e => by simp [e, not_isWord_opening] at h
      have hclose : c ≠ ')' := fun e => by simp [e, not_isWord_closing] at h
      rw [List.dropWhile_cons_of_pos h, ih]
      simp [depthAfter?, hopen, hclose]

theorem depthAfter?_add {depth final : Nat} {text : List Char} (outer : Nat)
    (h : depthAfter? depth text = some final) :
    depthAfter? (depth + outer) text = some (final + outer) := by
  induction text generalizing depth with
  | nil =>
    obtain rfl : depth = final := by simpa [depthAfter?] using h
    rfl
  | cons c rest ih =>
    by_cases hopen : c = '('
    · have inside : depthAfter? (depth + 1) rest = some final := by
        simpa [depthAfter?, hopen] using h
      simpa [depthAfter?, hopen, Nat.add_right_comm] using ih inside
    · by_cases hclose : c = ')'
      · cases depth with
        | zero => simp [depthAfter?, hclose] at h
        | succ depth =>
          have outside : depthAfter? depth rest = some final := by
            simpa [depthAfter?, hclose] using h
          simpa [depthAfter?, hclose, Nat.add_right_comm] using ih outside
      · have same : depthAfter? depth rest = some final := by
          simpa [depthAfter?, hopen, hclose] using h
        simpa [depthAfter?, hopen, hclose] using ih same

/-- A text that leaves all but `inner` of the parentheses around it closed holds the one that
closes the next of them. -/
theorem exists_closing_within {inner outer : Nat} {text : List Char}
    (h : depthAfter? (inner + outer + 1) text = some 0) :
    ∃ body after, text = body ++ ')' :: after ∧ depthAfter? inner body = some 0 ∧
      depthAfter? outer after = some 0 := by
  induction text generalizing inner with
  | nil => simp [depthAfter?] at h
  | cons c rest ih =>
    by_cases hopen : c = '('
    · subst hopen
      have h' : depthAfter? (inner + 1 + outer + 1) rest = some 0 := by
        simpa [depthAfter?, Nat.add_right_comm] using h
      obtain ⟨body, after, rfl, hbody, hafter⟩ := ih h'
      exact ⟨'(' :: body, after, rfl, by simpa [depthAfter?] using hbody, hafter⟩
    · by_cases hclose : c = ')'
      · subst hclose
        cases inner with
        | zero =>
          refine ⟨[], rest, rfl, rfl, ?_⟩
          simpa [depthAfter?] using h
        | succ inner =>
          have h' : depthAfter? (inner + outer + 1) rest = some 0 := by
            simpa [depthAfter?, Nat.add_right_comm] using h
          obtain ⟨body, after, rfl, hbody, hafter⟩ := ih h'
          exact ⟨')' :: body, after, rfl, by simpa [depthAfter?] using hbody, hafter⟩
      · have h' : depthAfter? (inner + outer + 1) rest = some 0 := by
          simpa [depthAfter?, hopen, hclose] using h
        obtain ⟨body, after, rfl, hbody, hafter⟩ := ih h'
        exact ⟨c :: body, after, rfl, by simpa [depthAfter?, hopen, hclose] using hbody, hafter⟩

/-- The parenthesis that opens a balanced text is closed after a balanced body, and what follows
is balanced too. -/
theorem exists_closing {text : List Char} (h : Balanced ('(' :: text)) :
    ∃ body after, text = body ++ ')' :: after ∧ Balanced body ∧ Balanced after := by
  have h' : depthAfter? (0 + 0 + 1) text = some 0 := by simpa [Balanced, depthAfter?] using h
  exact exists_closing_within h'

theorem balanced_group {body after : List Char} (hbody : Balanced body) (hafter : Balanced after) :
    Balanced ('(' :: (body ++ ')' :: after)) := by
  have inside : depthAfter? 1 body = some 1 := by simpa using depthAfter?_add 1 hbody
  simpa [Balanced, depthAfter?, depthAfter?_append, inside] using hafter

/-! ## Asterisks -/

theorem starsNamed_append {first rest : List Char} (h : startsWord rest = false) :
    starsNamed (first ++ rest) = (starsNamed first && starsNamed rest) := by
  induction first with
  | nil => simp [starsNamed]
  | cons c first ih => simp [starsNamed, startsWord_append h, ih, Bool.and_assoc]

theorem starsNamed_dropWhile (text : List Char) :
    starsNamed (text.dropWhile isWord) = starsNamed text := by
  induction text with
  | nil => rfl
  | cons c rest ih =>
    cases h : isWord c with
    | false => rw [List.dropWhile_cons_of_neg (by simp [h])]
    | true =>
      have hstar : c ≠ '*' := fun e => by simp [e, not_isWord_star] at h
      rw [List.dropWhile_cons_of_pos h, ih]
      simp [starsNamed, hstar]

theorem startsWord_closing (text : List Char) : startsWord (')' :: text) = false := by
  simp [startsWord, not_isWord_closing]

namespace WellFormed

theorem group_iff {body after : List Char} (hbody : Balanced body) (hafter : Balanced after) :
    WellFormed ('(' :: (body ++ ')' :: after)) ↔ WellFormed body ∧ WellFormed after := by
  have stars : starsNamed ('(' :: (body ++ ')' :: after)) =
      (starsNamed body && starsNamed after) := by
    simp [starsNamed, starsNamed_append (startsWord_closing after)]
  constructor
  · intro h
    have h := h.named
    rw [stars, Bool.and_eq_true] at h
    exact ⟨⟨hbody, h.1⟩, ⟨hafter, h.2⟩⟩
  · rintro ⟨hb, ha⟩
    exact ⟨balanced_group hbody hafter, by rw [stars, hb.named, ha.named]; rfl⟩

end WellFormed

end FragmentRouting.Template
