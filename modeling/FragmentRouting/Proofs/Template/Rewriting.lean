import Mathlib.Data.List.Basic
import FragmentRouting.Proofs.Template.Spelling
import FragmentRouting.Template.Regex

/-!
# Rewriting a template

The text of a template is rewritten as a whole, and no rewriting disturbs another one:

* `spelling_tokensFrom`: the tokens of a template spell it;
* `readable_tokensFrom`: what stands behind a name, or behind a mark without one, does not begin
  with a word character;
* `source_tokensFrom`: escaping leaves marks, names and parentheses alone;
* `rewrite_segments`, `rewrite_splats`: each rewriting finds the tokens it is for and nothing else,
  also where parentheses have become groups.
-/

namespace FragmentRouting.Template

open Text (isWord)

/-! ## Rewriting a text -/

section
variable {find : Finder} {word rest replacement : List Char} {c : Char}

theorem rewriteFrom_eq (find : Finder) (skipped : Nat) (text : List Char) :
    rewriteFrom find skipped text = rewrite find (text.drop skipped) := by
  induction text generalizing skipped with
  | nil => cases skipped <;> rfl
  | cons c rest ih =>
    cases skipped with
    | zero => rfl
    | succ skipped => exact ih skipped

theorem rewrite_cons (h : find (c :: rest) = none) :
    rewrite find (c :: rest) = c :: rewrite find rest := by
  rw [rewrite, rewriteFrom, h]
  rfl

theorem rewrite_found (h : find (c :: (word ++ rest)) = some (replacement, word.length)) :
    rewrite find (c :: (word ++ rest)) = replacement ++ rewrite find rest := by
  rw [rewrite, rewriteFrom, h]
  dsimp only
  rw [rewriteFrom_eq, List.drop_left]

/-- A word whose characters start nothing to replace is left alone. -/
theorem rewrite_append (h : ∀ c ∈ word, ∀ more, find (c :: more) = none) :
    rewrite find (word ++ rest) = word ++ rewrite find rest := by
  induction word with
  | nil => rfl
  | cons c word ih =>
    obtain ⟨hc, hword⟩ := List.forall_mem_cons.mp h
    rw [List.cons_append, rewrite_cons (hc _), ih hword]
    rfl

end

/-! ## Escapes -/

/-- A character as the regular expression has it. -/
def escaped (c : Char) : List Char :=
  if needsEscape c then ['\\', c] else [c]

theorem rewrite_escape (text : List Char) : rewrite escape? text = text.flatMap escaped := by
  induction text with
  | nil => rfl
  | cons c rest ih =>
    cases h : needsEscape c with
    | false =>
      have none : escape? (c :: rest) = none := by simp [escape?, h]
      rw [rewrite_cons none, ih]
      simp [escaped, h]
    | true =>
      have found : escape? (c :: ([] ++ rest)) = some (['\\', c], ([] : List Char).length) := by
        simp [escape?, h]
      have step : rewrite escape? (c :: rest) = ['\\', c] ++ rewrite escape? rest :=
        rewrite_found found
      rw [step, ih]
      simp [escaped, h]

theorem exists_of_inRanges {n : Nat} {ranges : List (Nat × Nat)}
    (h : Text.inRanges n ranges = true) : ∃ r ∈ ranges, r.1 ≤ n ∧ n ≤ r.2 := by
  induction ranges with
  | nil => cases h
  | cons r rest ih =>
    obtain ⟨low, high⟩ := r
    simp only [Text.inRanges] at h
    split at h
    · cases h
    · rename_i above
      rcases Bool.or_eq_true_iff.mp h with inside | h
      · exact ⟨(low, high), List.mem_cons_self, Nat.le_of_not_lt above, of_decide_eq_true inside⟩
      · obtain ⟨r, hr, inside⟩ := ih h
        exact ⟨r, List.mem_cons_of_mem _ hr, inside⟩

theorem not_isWord_blankRanges : ∀ r ∈ Text.blankRanges, ∀ k < r.2 + 1 - r.1,
    isWord (Char.ofNat (r.1 + k)) = false := by
  decide +kernel

/-- Names are left alone by escaping. -/
theorem not_needsEscape {c : Char} (h : isWord c = true) : needsEscape c = false := by
  rw [← Bool.not_eq_true]
  intro escape
  rcases Bool.or_eq_true_iff.mp escape with symbol | blank
  · have symbols : ['-', '\x7b', '\x7d', '[', ']', '+', '?', '.', ',', '\\', '^', '$', '|',
        '#'].all (!isWord ·) = true := by decide
    have unnamed := List.all_eq_true.mp symbols c (List.contains_iff_mem.mp symbol)
    rw [h] at unnamed
    cases unnamed
  · obtain ⟨r, hr, low, high⟩ := exists_of_inRanges blank
    have unnamed := not_isWord_blankRanges r hr (c.toNat - r.1) (by omega)
    rw [Nat.add_sub_cancel' low, Char.ofNat_toNat, h] at unnamed
    cases unnamed

theorem ne_of_not_needsEscape {c d : Char} (h : needsEscape c = false)
    (hd : needsEscape d = true) : c ≠ d := by
  rintro rfl
  rw [hd] at h
  cases h

theorem flatMap_escaped_word {word : List Char} (h : ∀ c ∈ word, isWord c = true) :
    word.flatMap escaped = word := by
  induction word with
  | nil => rfl
  | cons c word ih =>
    obtain ⟨hc, hword⟩ := List.forall_mem_cons.mp h
    rw [List.flatMap_cons, ih hword, escaped, not_needsEscape hc]
    rfl

/-! ## Tokens in a text -/

/-- The text of a token, where segments and splats are written as given. -/
def Token.written (segment splat : String → List Char) : Token → List Char
  | char c => escaped c
  | .segment name => segment name
  | .splat name => splat name
  | star => ['*']
  | opening => ['(']
  | closing => [')']

/-- A name behind its mark. -/
def marked (mark : Char) (name : String) : List Char :=
  mark :: name.toList

/-- The text of a token before segments and splats are rewritten. -/
def Token.source : Token → List Char :=
  Token.written (marked ':') (marked '*')

/-- The characters of a token in its template. -/
def Token.spelling : Token → List Char
  | char c => [c]
  | .segment name => marked ':' name
  | .splat name => marked '*' name
  | star => ['*']
  | opening => ['(']
  | closing => [')']

/-- The mark of a token with a name. -/
def Token.mark? : Token → Option Char
  | .segment _ => some ':'
  | .splat _ => some '*'
  | _ => none

theorem spelling_ofChar (c : Char) : (Token.ofChar c).spelling = [c] := by
  unfold Token.ofChar
  split_ifs with star opening closing
  · rw [star]
    rfl
  · rw [opening]
    rfl
  · rw [closing]
    rfl
  · rfl

theorem mark?_ofChar (c : Char) : (Token.ofChar c).mark? = none := by
  unfold Token.ofChar
  split_ifs <;> rfl

/-- The token at the front of a text: it goes on over word characters, and it has a mark exactly if
the text begins with that mark and a name. -/
theorem exists_front (c : Char) (rest : List Char) :
    ∃ t n, tokensFrom 0 (c :: rest) = t :: tokensFrom n rest ∧ t.spelling = c :: rest.take n ∧
      (∀ d ∈ rest.take n, isWord d = true) ∧
      ∀ mark, mark = ':' ∨ mark = '*' →
        (t.mark? = some mark ↔ c = mark ∧ startsWord rest = true) := by
  have name : rest.take (rest.takeWhile isWord).length = rest.takeWhile isWord :=
    (List.prefix_iff_eq_take.mp (List.takeWhile_prefix isWord)).symm
  have word : ∀ d ∈ rest.takeWhile isWord, isWord d = true := fun d => List.mem_takeWhile_imp
  by_cases named : (c = ':' ∨ c = '*') ∧ startsWord rest = true
  · obtain ⟨t, front, spelled, hmark⟩ : ∃ t,
        tokensFrom 0 (c :: rest) = t :: tokensFrom (rest.takeWhile isWord).length rest ∧
          t.spelling = c :: rest.takeWhile isWord ∧ t.mark? = some c := by
      have starts := takeWhile_isWord_ne_nil.mpr named.2
      rcases named.1 with rfl | rfl
      · exact ⟨.segment (String.ofList (rest.takeWhile isWord)), by simp [tokensFrom, starts],
          by rw [Token.spelling, marked, String.toList_ofList], rfl⟩
      · exact ⟨.splat (String.ofList (rest.takeWhile isWord)), by simp [tokensFrom, starts],
          by rw [Token.spelling, marked, String.toList_ofList], rfl⟩
    refine ⟨t, (rest.takeWhile isWord).length, front, ?_, ?_, ?_⟩
    · rw [name, spelled]
    · rw [name]
      exact word
    · intro mark _
      simp [hmark, named.2]
  · have unnamed (mark : Char) (hmark : mark = ':' ∨ mark = '*') :
        ¬ (c = mark ∧ startsWord rest = true) := by
      rintro ⟨rfl, starts⟩
      exact named ⟨hmark, starts⟩
    refine ⟨.ofChar c, 0, ?_, spelling_ofChar c, List.forall_mem_nil _, ?_⟩
    · simp only [tokensFrom, takeWhile_isWord_ne_nil, if_neg (unnamed ':' (.inl rfl)),
        if_neg (unnamed '*' (.inr rfl))]
    · intro mark hmark
      simp [mark?_ofChar, unnamed mark hmark]

/-- The tokens of a template spell it. -/
theorem spelling_tokensFrom (skipped : Nat) (text : List Char) :
    (tokensFrom skipped text).flatMap Token.spelling = text.drop skipped := by
  induction text generalizing skipped with
  | nil => cases skipped <;> rfl
  | cons c rest ih =>
    cases skipped with
    | succ skipped => exact ih skipped
    | zero =>
      obtain ⟨t, n, front, spelled, -, -⟩ := exists_front c rest
      rw [front, List.flatMap_cons, spelled, ih, List.cons_append, List.take_append_drop,
        List.drop_zero]

/-! ## Tokens next to each other -/

/-- What a token of a template is: characters with a meaning of their own are other tokens, and
names are words. -/
def Token.Proper : Token → Prop
  | char c => c ≠ '*' ∧ c ≠ '(' ∧ c ≠ ')'
  | segment name | splat name => name.toList ≠ [] ∧ ∀ c ∈ name.toList, isWord c = true
  | star | opening | closing => True

/-- Whether a word character behind the token would belong to its name. -/
def Token.takesName : Token → Bool
  | char c => c = ':'
  | segment _ | splat _ | star => true
  | opening | closing => false

def Token.isWordChar : Token → Bool
  | char c => isWord c
  | _ => false

/-- Tokens as they stand in a template: names go on as long as they can. -/
inductive Readable : List Token → Prop
  | nil : Readable []
  | cons {t : Token} {rest : List Token} (proper : t.Proper)
      (apart : t.takesName = true → rest.head?.any Token.isWordChar = false)
      (h : Readable rest) : Readable (t :: rest)

theorem not_isWord_colon : isWord ':' = false := by decide

theorem isWordChar_ofChar (c : Char) : (Token.ofChar c).isWordChar = isWord c := by
  unfold Token.ofChar
  split_ifs with star opening closing
  · rw [star, not_isWord_star]
    rfl
  · rw [opening, not_isWord_opening]
    rfl
  · rw [closing, not_isWord_closing]
    rfl
  · rfl

theorem isWordChar_head_tokensFrom (text : List Char) :
    (tokensFrom 0 text).head?.any Token.isWordChar = startsWord text := by
  cases text with
  | nil => rfl
  | cons c rest =>
    simp only [tokensFrom, startsWord, List.head?_cons, Option.any_some]
    split
    · rename_i hc
      rw [hc.1, not_isWord_colon]
      rfl
    · split
      · rename_i hc
        rw [hc.1, not_isWord_star]
        rfl
      · exact isWordChar_ofChar c

theorem not_startsWord_behind_name (text : List Char) :
    startsWord (text.drop (text.takeWhile isWord).length) = false := by
  induction text with
  | nil => rfl
  | cons c rest ih =>
    cases h : isWord c with
    | false => simp [startsWord, h]
    | true => simpa [h] using ih

theorem proper_ofChar (c : Char) : (Token.ofChar c).Proper := by
  unfold Token.ofChar
  split_ifs with star opening closing
  · trivial
  · trivial
  · trivial
  · exact ⟨star, opening, closing⟩

theorem mark_of_takesName {c : Char} (h : (Token.ofChar c).takesName = true) :
    c = ':' ∨ c = '*' := by
  unfold Token.ofChar at h
  split_ifs at h with star opening closing
  · exact .inr star
  · cases h
  · cases h
  · exact .inl (of_decide_eq_true h)

theorem readable_tokensFrom (skipped : Nat) (text : List Char) :
    Readable (tokensFrom skipped text) := by
  induction text generalizing skipped with
  | nil => cases skipped <;> exact .nil
  | cons c rest ih =>
    cases skipped with
    | succ skipped => exact ih skipped
    | zero =>
      have word : ∀ d ∈ rest.takeWhile isWord, isWord d = true := fun d => List.mem_takeWhile_imp
      have behind : (tokensFrom (rest.takeWhile isWord).length rest).head?.any Token.isWordChar =
          false := by
        rw [tokensFrom_skip, isWordChar_head_tokensFrom, not_startsWord_behind_name]
      simp only [tokensFrom]
      split
      · rename_i named
        have proper : (Token.segment (String.ofList (rest.takeWhile isWord))).Proper := by
          simpa [Token.Proper] using And.intro named.2 word
        exact .cons proper (fun _ => behind) (ih _)
      · rename_i noSegment
        split
        · rename_i named
          have proper : (Token.splat (String.ofList (rest.takeWhile isWord))).Proper := by
            simpa [Token.Proper] using And.intro named.2 word
          exact .cons proper (fun _ => behind) (ih _)
        · rename_i noSplat
          refine .cons (proper_ofChar c) (fun h => ?_) (ih 0)
          rw [isWordChar_head_tokensFrom, ← Bool.not_eq_true, ← takeWhile_isWord_ne_nil]
          intro named
          rcases mark_of_takesName h with rfl | rfl
          · exact noSegment ⟨rfl, named⟩
          · exact noSplat ⟨rfl, named⟩

theorem Readable.proper {symbols : List Token} (h : Readable symbols) :
    ∀ t ∈ symbols, t.Proper := by
  induction h with
  | nil => exact List.forall_mem_nil _
  | cons proper _ _ ih => exact List.forall_mem_cons.mpr ⟨proper, ih⟩

/-- Escaping a token escapes its characters, as those of a name stay what they are. -/
theorem Token.Proper.source_eq {t : Token} (h : t.Proper) :
    t.source = t.spelling.flatMap escaped := by
  have named (mark : Char) (plain : escaped mark = [mark]) {name : String}
      (word : ∀ c ∈ name.toList, isWord c = true) :
      marked mark name = (marked mark name).flatMap escaped := by
    rw [marked, List.flatMap_cons, plain, flatMap_escaped_word word, List.singleton_append]
  cases t with
  | char c => exact (List.flatMap_singleton escaped c).symm
  | segment name => exact named ':' (by decide) h.2
  | splat name => exact named '*' (by decide) h.2
  | star | opening | closing => decide

/-- Escaping a template escapes its tokens. -/
theorem source_tokensFrom (skipped : Nat) (text : List Char) :
    (tokensFrom skipped text).flatMap Token.source = (text.drop skipped).flatMap escaped := by
  have proper : ∀ t ∈ tokensFrom skipped text, t.Proper :=
    (readable_tokensFrom skipped text).proper
  calc (tokensFrom skipped text).flatMap Token.source
      = (tokensFrom skipped text).flatMap fun t => t.spelling.flatMap escaped :=
        List.flatMap_congr fun t ht => (proper t ht).source_eq
    _ = ((tokensFrom skipped text).flatMap Token.spelling).flatMap escaped :=
        List.flatMap_assoc.symm
    _ = (text.drop skipped).flatMap escaped := by rw [spelling_tokensFrom]

/-! ## Rows of tokens -/

/-- The text of a token, where a parenthesis can have a partner. -/
def pairedText (segment splat : String → List Char) : Token × Bool → List Char
  | (.opening, paired) => optionalGroup '(' paired
  | (.closing, paired) => optionalGroup ')' paired
  | (t, _) => t.written segment splat

def rowText (segment splat : String → List Char) (row : List (Token × Bool)) : List Char :=
  row.flatMap (pairedText segment splat)

section
variable {segment splat : String → List Char} {row : List (Token × Bool)}

theorem rowText_cons (m : Token × Bool) :
    rowText segment splat (m :: row) = pairedText segment splat m ++ rowText segment splat row :=
  List.flatMap_cons

theorem rowText_append (row' : List (Token × Bool)) :
    rowText segment splat (row ++ row') = rowText segment splat row ++ rowText segment splat row' :=
  List.flatMap_append

/-- A text begins with a word character where its first token is one. -/
theorem startsWord_rowText
    (hsegment : ∀ name, ∃ c more, segment name = c :: more ∧ isWord c = false)
    (hsplat : ∀ name, ∃ c more, splat name = c :: more ∧ isWord c = false) :
    startsWord (rowText segment splat row) =
      (row.map Prod.fst).head?.any Token.isWordChar := by
  cases row with
  | nil => rfl
  | cons m row =>
    obtain ⟨t, paired⟩ := m
    rw [rowText_cons, List.map_cons, List.head?_cons, Option.any_some]
    cases t with
    | char c =>
      cases h : needsEscape c with
      | false => simp [pairedText, Token.written, escaped, h, startsWord, Token.isWordChar]
      | true =>
        have noWord : isWord c = false := by
          rw [← Bool.not_eq_true]
          intro word
          rw [not_needsEscape word] at h
          cases h
        have backslash : isWord '\\' = false := by decide
        simp [pairedText, Token.written, escaped, h, startsWord, Token.isWordChar, noWord,
          backslash]
    | segment name =>
      obtain ⟨c, more, hname, hc⟩ := hsegment name
      simp [pairedText, Token.written, hname, startsWord, hc, Token.isWordChar]
    | splat name =>
      obtain ⟨c, more, hname, hc⟩ := hsplat name
      simp [pairedText, Token.written, hname, startsWord, hc, Token.isWordChar]
    | star => simp [pairedText, Token.written, startsWord, not_isWord_star, Token.isWordChar]
    | opening =>
      cases paired <;>
        simp [pairedText, optionalGroup, plainOpening, startsWord, not_isWord_opening,
          Token.isWordChar]
    | closing =>
      cases paired <;>
        simp [pairedText, optionalGroup, startsWord, not_isWord_closing, Token.isWordChar]

end

/-- No token begins with a question mark of its own. -/
theorem head_rowText_ne (row : List (Token × Bool)) :
    (rowText (marked ':') (marked '*') row).head? ≠ some '?' := by
  cases row with
  | nil => simp [rowText]
  | cons m row =>
    obtain ⟨t, paired⟩ := m
    rw [rowText_cons]
    cases t with
    | char c =>
      cases h : needsEscape c with
      | false =>
        have other : c ≠ '?' := ne_of_not_needsEscape h (by decide)
        simpa [pairedText, Token.written, escaped, h] using other
      | true => simp [pairedText, Token.written, escaped, h]
    | segment name | splat name | star => simp [pairedText, Token.written, marked]
    | opening | closing => cases paired <;> simp [pairedText, optionalGroup, plainOpening]

/-! ## Segments and splats -/

theorem takeWhile_word_append {word rest : List Char} (h : ∀ c ∈ word, isWord c = true)
    (stop : startsWord rest = false) : (word ++ rest).takeWhile isWord = word := by
  rw [List.takeWhile_append_of_pos h, takeWhile_isWord_of_not_startsWord stop, List.append_nil]

theorem named?_marked {mark : Char} {group : String} {name rest : List Char}
    (nonempty : name ≠ []) (h : ∀ c ∈ name, isWord c = true) (stop : startsWord rest = false) :
    named? mark group (mark :: (name ++ rest)) = some (group.toList, name.length) := by
  simp [named?, takeWhile_word_append h stop, nonempty]

theorem named?_other {mark c : Char} {group : String} (h : c ≠ mark) (rest : List Char) :
    named? mark group (c :: rest) = none := by
  simp [named?, h]

theorem named?_unnamed {mark : Char} {group : String} {rest : List Char}
    (stop : startsWord rest = false) : named? mark group (mark :: rest) = none := by
  simp [named?, takeWhile_isWord_of_not_startsWord stop]

theorem segment?_other {c : Char} (h : c ≠ '(') (rest : List Char) :
    segment? (c :: rest) = named? ':' segmentGroup (c :: rest) := by
  have plain : plainOpening.toList.isPrefixOf (c :: rest) = false := by
    simp [plainOpening, List.isPrefixOf, Ne.symm h]
  simp [segment?, plain]

theorem segment?_none {c : Char} (opening : c ≠ '(') (colon : c ≠ ':') (rest : List Char) :
    segment? (c :: rest) = none := by
  rw [segment?_other opening, named?_other colon]

theorem ne_mark_of_isWord {c : Char} (h : isWord c = true) : c ≠ '(' ∧ c ≠ ':' ∧ c ≠ '*' := by
  refine ⟨?_, ?_, ?_⟩ <;> rintro rfl
  · rw [not_isWord_opening] at h
    cases h
  · rw [not_isWord_colon] at h
    cases h
  · rw [not_isWord_star] at h
    cases h

theorem rewrite_segment_word {word : List Char} (h : ∀ c ∈ word, isWord c = true)
    (rest : List Char) : rewrite segment? (word ++ rest) = word ++ rewrite segment? rest :=
  rewrite_append fun c hc _ =>
    segment?_none (ne_mark_of_isWord (h c hc)).1 (ne_mark_of_isWord (h c hc)).2.1 _

theorem segment?_plainOpening (rest : List Char) :
    segment? ('(' :: '?' :: ':' :: rest) =
      if startsWord rest = true then
        some (plainOpening.toList ++ rest.takeWhile isWord, 2 + (rest.takeWhile isWord).length)
      else none := by
  have length : plainOpening.length = 3 := by decide
  have chars : plainOpening.toList = ['(', '?', ':'] := by decide
  simp [segment?, length, chars, named?, ← takeWhile_isWord_ne_nil]

/-- A group that does not capture keeps its opening, be there a word behind it or not. -/
theorem rewrite_segment_plainOpening (rest : List Char) :
    rewrite segment? (plainOpening.toList ++ rest) =
      plainOpening.toList ++ rewrite segment? rest := by
  change rewrite segment? ('(' :: '?' :: ':' :: rest) = '(' :: '?' :: ':' :: rewrite segment? rest
  cases named : startsWord rest with
  | false =>
    have opening : segment? ('(' :: '?' :: ':' :: rest) = none := by
      simp [segment?_plainOpening, named]
    have colon : segment? (':' :: rest) = none := by
      rw [segment?_other (by decide), named?_unnamed named]
    rw [rewrite_cons opening, rewrite_cons (segment?_none (by decide) (by decide) _),
      rewrite_cons colon]
  | true =>
    have word : ∀ c ∈ rest.takeWhile isWord, isWord c = true := fun c => List.mem_takeWhile_imp
    have whole : rest.takeWhile isWord ++ rest.dropWhile isWord = rest :=
      List.takeWhile_append_dropWhile
    have found : segment? ('(' :: ('?' :: ':' :: rest.takeWhile isWord ++ rest.dropWhile isWord)) =
        some (plainOpening.toList ++ rest.takeWhile isWord,
          ('?' :: ':' :: rest.takeWhile isWord).length) := by
      simp only [List.cons_append, whole, segment?_plainOpening, named, if_true, List.length_cons]
      rw [Nat.add_comm]
    have step := rewrite_found found
    simp only [List.cons_append, whole] at step
    rw [step, List.append_assoc, ← rewrite_segment_word word, whole]
    rfl

theorem marked_unnamed (mark : Char) (h : isWord mark = false) (name : String) :
    ∃ c more, marked mark name = c :: more ∧ isWord c = false :=
  ⟨mark, name.toList, rfl, h⟩

/-- Before segments are rewritten, a text begins with a word character where its first token is
one. -/
theorem startsWord_source (row : List (Token × Bool)) :
    startsWord (rowText (marked ':') (marked '*') row) =
      (row.map Prod.fst).head?.any Token.isWordChar :=
  startsWord_rowText (marked_unnamed ':' not_isWord_colon) (marked_unnamed '*' not_isWord_star)

theorem startsWord_segments (row : List (Token × Bool)) :
    startsWord (rowText (fun _ => segmentGroup.toList) (marked '*') row) =
      (row.map Prod.fst).head?.any Token.isWordChar :=
  startsWord_rowText (fun _ => ⟨'(', "[^/?]+)".toList, by decide, not_isWord_opening⟩)
    (marked_unnamed '*' not_isWord_star)

theorem rewrite_segment_escaped {c : Char} (opening : c ≠ '(') {rest : List Char}
    (stop : c = ':' → startsWord rest = false) :
    rewrite segment? (escaped c ++ rest) = escaped c ++ rewrite segment? rest := by
  cases h : needsEscape c with
  | true =>
    have colon : c ≠ ':' := Ne.symm (ne_of_not_needsEscape (by decide) h)
    have chars : escaped c = ['\\', c] := by simp [escaped, h]
    have none : ∀ d ∈ ['\\', c], ∀ more, segment? (d :: more) = none := by
      simp only [List.forall_mem_cons, List.not_mem_nil]
      exact ⟨segment?_none (by decide) (by decide), segment?_none opening colon, nofun⟩
    rw [chars, rewrite_append none]
  | false =>
    have chars : escaped c = [c] := by simp [escaped, h]
    have none : segment? (c :: rest) = none := by
      by_cases colon : c = ':'
      · rw [colon, segment?_other (by decide), named?_unnamed (stop colon)]
      · exact segment?_none opening colon rest
    rw [chars, List.singleton_append, rewrite_cons none, List.singleton_append]

/-- Segments are rewritten, and no other token with them. -/
theorem rewrite_segments {row : List (Token × Bool)} (h : Readable (row.map Prod.fst)) :
    rewrite segment? (rowText (marked ':') (marked '*') row) =
      rowText (fun _ => segmentGroup.toList) (marked '*') row := by
  induction row with
  | nil => rfl
  | cons m row ih =>
    obtain ⟨t, paired⟩ := m
    cases h with
    | cons proper apart readable =>
      rw [← startsWord_source] at apart
      rw [rowText_cons, rowText_cons, ← ih readable]
      cases t with
      | char c =>
        exact rewrite_segment_escaped proper.2.1 fun colon => apart (decide_eq_true colon)
      | segment name =>
        have found : segment? (':' :: (name.toList ++ rowText (marked ':') (marked '*') row)) =
            some (segmentGroup.toList, name.toList.length) := by
          rw [segment?_other (by decide)]
          exact named?_marked proper.1 proper.2 (apart rfl)
        exact rewrite_found found
      | splat name =>
        have star : segment? ('*' :: (name.toList ++ rowText (marked ':') (marked '*') row)) =
            none := segment?_none (by decide) (by decide) _
        change rewrite segment? ('*' :: (name.toList ++ _)) = '*' :: (name.toList ++ _)
        rw [rewrite_cons star, rewrite_segment_word proper.2]
      | star => exact rewrite_cons (segment?_none (by decide) (by decide) _)
      | opening =>
        cases paired with
        | true => exact rewrite_segment_plainOpening _
        | false =>
          -- A parenthesis of the template is never followed by a question mark that is not escaped.
          have plain : segment? ('(' :: rowText (marked ':') (marked '*') row) = none := by
            have head := head_rowText_ne row
            cases rest : rowText (marked ':') (marked '*') row with
            | nil => decide
            | cons c more =>
              rw [rest] at head
              have other : '?' ≠ c := fun e => head (by rw [e]; rfl)
              simp [segment?, plainOpening, other, named?]
          exact rewrite_cons plain
      | closing =>
        cases paired with
        | true =>
          have none : ∀ d ∈ [')', '?'], ∀ more, segment? (d :: more) = none := by
            simp only [List.forall_mem_cons, List.not_mem_nil]
            exact ⟨segment?_none (by decide) (by decide), segment?_none (by decide) (by decide),
              nofun⟩
          exact rewrite_append none
        | false => exact rewrite_cons (segment?_none (by decide) (by decide) _)

theorem splat?_none {c : Char} (h : c ≠ '*') (rest : List Char) : splat? (c :: rest) = none :=
  named?_other h rest

/-- Text without an asterisk has no splats. -/
theorem rewrite_splat_append {text : List Char} (h : '*' ∉ text) (rest : List Char) :
    rewrite splat? (text ++ rest) = text ++ rewrite splat? rest :=
  rewrite_append fun _ hc more => splat?_none (ne_of_mem_of_not_mem hc h) more

/-- Splats are rewritten, and no other token with them. -/
theorem rewrite_splats {row : List (Token × Bool)} (h : Readable (row.map Prod.fst)) :
    rewrite splat? (rowText (fun _ => segmentGroup.toList) (marked '*') row) =
      rowText (fun _ => segmentGroup.toList) (fun _ => splatGroup.toList) row := by
  induction row with
  | nil => rfl
  | cons m row ih =>
    obtain ⟨t, paired⟩ := m
    cases h with
    | cons proper apart readable =>
      rw [← startsWord_segments] at apart
      rw [rowText_cons, rowText_cons, ← ih readable]
      cases t with
      | char c =>
        have star : '*' ∉ escaped c := by
          unfold escaped
          split <;> simp [Ne.symm proper.1]
        exact rewrite_splat_append star _
      | segment name =>
        have star : '*' ∉ segmentGroup.toList := by decide
        exact rewrite_splat_append star _
      | splat name => exact rewrite_found (named?_marked proper.1 proper.2 (apart rfl))
      | star => exact rewrite_cons (named?_unnamed (apart rfl))
      | opening | closing =>
        cases paired with
        | true => exact rewrite_splat_append (by decide) _
        | false => exact rewrite_cons (splat?_none (by decide) _)

end FragmentRouting.Template
