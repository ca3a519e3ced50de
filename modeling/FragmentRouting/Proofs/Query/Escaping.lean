import FragmentRouting.Query.Delimiter

/-!
# Escaping for a list

A text in a query has its delimiter escaped on top of every character that cannot stand for itself.
Reading gives the text back whenever the delimiter is no part of an escape:

* `IsMark delimiter mark`: the delimiter is off, or the one character `mark`, which is neither
  reserved nor a digit of an escape;
* `IsMark.decode_encode`: what was escaped is read back;
* `not_mem_encode`: nothing that is escaped holds a separator of queries, whatever the delimiter is;
* `IsMark.encode_marks`: nothing that is escaped holds the delimiter either.
-/

namespace FragmentRouting

open Text (hexValue? upperHex)

namespace Percent

/-- The digits in which escapes are written. -/
def isEscapeDigit (c : Char) : Bool :=
  ('0' ≤ c && c ≤ '9') || ('A' ≤ c && c ≤ 'F')

/-- A character of an escaped text: itself if it stands for itself and is not `mark`. -/
def encodeCharWith (mark : Option Char) (c : Char) : List Char :=
  if isUnreserved c ∧ mark ≠ some c then [c] else escape c

/-! ## Reading escapes -/

theorem upperHex_digit : ∀ n < 16, isEscapeDigit (upperHex n) = true ∧
    hexValue? (upperHex n) = some n := by
  decide

theorem byte_digits (b : UInt8) : b.toNat / 16 < 16 ∧ b.toNat % 16 < 16 := by
  have := b.toNat_lt
  omega

theorem mem_escape {c x : Char} (h : x ∈ escape c) : x = '%' ∨ isEscapeDigit x = true := by
  simp only [escape, List.mem_flatMap, escapeByte, List.mem_cons, List.not_mem_nil, or_false] at h
  obtain ⟨b, -, rfl | rfl | rfl⟩ := h
  · exact .inl rfl
  · exact .inr (upperHex_digit _ (byte_digits b).1).1
  · exact .inr (upperHex_digit _ (byte_digits b).2).1

theorem byteOf?_digits (b : UInt8) :
    byteOf? (upperHex (b.toNat / 16)) (upperHex (b.toNat % 16)) = some b := by
  obtain ⟨high, low⟩ := byte_digits b
  have value : 16 * (b.toNat / 16) + b.toNat % 16 = b.toNat := Nat.div_add_mod _ 16
  simp only [byteOf?, (upperHex_digit _ high).2, (upperHex_digit _ low).2, Option.bind_eq_bind,
    Option.bind_some, Option.pure_def, value, UInt8.ofNat_toNat]

theorem octets?_escape (c : Char) (rest : List Char) :
    octets? (escape c ++ rest) =
      (octets? rest).map ((String.utf8EncodeChar c).map .byte ++ ·) := by
  rw [escape]
  induction String.utf8EncodeChar c with
  | nil => simp
  | cons b bytes ih =>
    simp only [List.flatMap_cons, escapeByte, List.cons_append, List.nil_append, octets?, if_true,
      byteOf?_digits, ih]
    cases octets? rest <;> rfl

theorem toNat_of_isAlphanum {c : Char} (h : c.isAlphanum = true) : c.toNat < 128 := by
  have ranges : ((decide (65 ≤ c.val ∧ c.val ≤ 90) || (97 ≤ c.val && c.val ≤ 122)) ||
      (48 ≤ c.val && c.val ≤ 57)) = true := h
  simp only [Bool.or_eq_true, Bool.and_eq_true, decide_eq_true_eq, UInt32.le_iff_toNat_le]
    at ranges
  change ((65 ≤ c.toNat ∧ c.toNat ≤ 90) ∨ (97 ≤ c.toNat ∧ c.toNat ≤ 122)) ∨
    (48 ≤ c.toNat ∧ c.toNat ≤ 57) at ranges
  omega

theorem isUnreserved_spec {c : Char} (h : isUnreserved c = true) :
    c.toNat < 128 ∧ c ∉ ['%', '+', '&', '=', '?', '\n'] := by
  simp only [isUnreserved, Bool.or_eq_true, List.contains_eq_mem, decide_eq_true_eq] at h
  rcases h with h | h
  · have ascii := toNat_of_isAlphanum h
    refine ⟨ascii, ?_⟩
    intro hm
    simp only [List.mem_cons, List.not_mem_nil, or_false] at hm
    rcases hm with rfl | rfl | rfl | rfl | rfl | rfl <;> simp at h
  · simp only [List.mem_cons, List.not_mem_nil, or_false] at h
    rcases h with rfl | rfl | rfl | rfl | rfl | rfl | rfl | rfl | rfl <;> decide

theorem utf8EncodeChar_of_ascii {c : Char} (h : c.toNat < 128) :
    String.utf8EncodeChar c = [UInt8.ofNat c.toNat] := by
  have small : c.toNat ≤ 127 := Nat.le_of_lt_succ h
  simp [String.utf8EncodeChar, Nat.not_lt.mpr small]

theorem octets?_cons {c : Char} (h : c ≠ '%') (rest : List Char) :
    octets? (c :: rest) = (octets? rest).map (octetOf c :: ·) := by
  rw [octets?.eq_def]
  simp [h]

theorem octets?_encodeCharWith (mark : Option Char) (c : Char) (rest : List Char) :
    octets? (encodeCharWith mark c ++ rest) =
      (octets? rest).map ((String.utf8EncodeChar c).map .byte ++ ·) := by
  unfold encodeCharWith
  split
  · rename_i h
    obtain ⟨ascii, hc⟩ := isUnreserved_spec h.1
    simp only [List.mem_cons, not_or] at hc
    simp [octets?_cons, octetOf, utf8EncodeChar_of_ascii ascii, ascii, hc]
  · exact octets?_escape c rest

theorem octets?_encodeWith (mark : Option Char) (text : List Char) :
    octets? (text.flatMap (encodeCharWith mark)) =
      some ((text.flatMap String.utf8EncodeChar).map .byte) := by
  induction text with
  | nil => rfl
  | cons c rest ih => simp [List.flatMap_cons, octets?_encodeCharWith, ih]

/-! ## Reading bytes -/

theorem runs_bytes (bytes : List UInt8) : runs (bytes.map .byte) = (bytes, []) := by
  induction bytes with
  | nil => rfl
  | cons b bytes ih => simp [runs, ih]

theorem utf8?_encoded (text : List Char) :
    utf8? (text.flatMap String.utf8EncodeChar) = some text := by
  have bytes : ByteArray.mk (text.flatMap String.utf8EncodeChar).toArray = text.utf8Encode :=
    ByteArray.ext (List.data_toByteArray).symm
  have whole : String.fromUTF8 text.utf8Encode ByteArray.isValidUTF8_utf8Encode =
      String.ofList text := rfl
  simp [utf8?, bytes, String.fromUTF8?, ByteArray.isValidUTF8_utf8Encode, whole]

/-- Reading gives back what was escaped, with or without a delimiter. -/
theorem decode_encodeWith (mark : Option Char) (text : List Char) :
    decode (String.ofList (text.flatMap (encodeCharWith mark))) = String.ofList text := by
  simp [decode, read, octets?_encodeWith, textOf?, runs_bytes, utf8?_encoded]

/-! ## What an escaped text is made of -/

theorem mem_encodeCharWith {mark : Option Char} {c x : Char} (h : x ∈ encodeCharWith mark c) :
    (isUnreserved x = true ∧ mark ≠ some x) ∨ x = '%' ∨ isEscapeDigit x = true := by
  unfold encodeCharWith at h
  split at h
  · rename_i plain
    obtain rfl := List.mem_singleton.mp h
    exact .inl plain
  · exact .inr (mem_escape h)

/-- No character of an escaped text separates the parts of a query. -/
theorem not_separating {x : Char} (h : isUnreserved x = true ∨ x = '%' ∨ isEscapeDigit x = true) :
    x ∉ ['&', '=', '?', '\n'] := by
  rcases h with plain | rfl | digit
  · have := (isUnreserved_spec plain).2
    simp only [List.mem_cons, not_or] at this ⊢
    exact this.2.2
  · decide
  · intro hm
    simp only [List.mem_cons, List.not_mem_nil, or_false] at hm
    rcases hm with rfl | rfl | rfl | rfl <;> cases digit

theorem encodeCharWith_none (c : Char) : encodeCharWith none c = encodeChar c := by
  simp [encodeCharWith, encodeChar]

/-- Writing `new` for a character that does not occur changes nothing. -/
theorem flatMap_without {mark : Char} {text : List Char} (h : ∀ x ∈ text, x ≠ mark)
    (new : List Char) : (text.flatMap fun x => if x = mark then new else [x]) = text := by
  induction text with
  | nil => rfl
  | cons c rest ih =>
    have hrest := ih fun x hx => h x (List.mem_cons_of_mem _ hx)
    simp [List.flatMap_cons, h c List.mem_cons_self, hrest]

/-- Escaping a delimiter in a text whose characters were already escaped does not touch their
escapes, unless the delimiter is one of the characters of an escape. -/
theorem flatMap_encodeChar {mark : Char} (noPercent : mark ≠ '%')
    (noDigit : isEscapeDigit mark = false) (c : Char) :
    ((encodeChar c).flatMap fun x => if x = mark then escape mark else [x]) =
      encodeCharWith (some mark) c := by
  unfold encodeChar encodeCharWith
  by_cases plain : isUnreserved c = true
  · by_cases same : c = mark
    · subst same
      simp [plain]
    · simp [plain, same, Ne.symm same]
  · have kept : ∀ x ∈ escape c, x ≠ mark := by
      rintro x hx rfl
      rcases mem_escape hx with h | h
      · exact noPercent h
      · rw [h] at noDigit
        cases noDigit
    simp only [plain, false_and, if_false, Bool.false_eq_true]
    exact flatMap_without kept (escape mark)

end Percent

theorem Text.replace_singleton (mark : Char) (new text : List Char) :
    Text.replace [mark] new text = text.flatMap fun c => if c = mark then new else [c] := by
  unfold Text.replace
  rw [Text.pieces_singleton]
  induction text with
  | nil => simp
  | cons c rest ih =>
    rw [List.splitOn_cons_eq_if_modifyHead, List.flatMap_cons, ← ih]
    by_cases h : c = mark
    · simp [h, List.intercalate_cons_of_ne_nil (List.splitOn_ne_nil mark rest)]
    · obtain ⟨piece, pieces, hp⟩ := List.exists_cons_of_ne_nil (List.splitOn_ne_nil mark rest)
      cases pieces <;> simp [h, hp]

theorem Text.mem_intercalate_of_mem (separator : List Char) {pieces : List (List Char)}
    {piece : List Char} (h : piece ∈ pieces) {c : Char} (hc : c ∈ piece) :
    c ∈ separator.intercalate pieces := by
  induction pieces with
  | nil => cases h
  | cons first more ih =>
    by_cases last : more = []
    · subst last
      obtain rfl := List.mem_singleton.mp h
      rwa [List.intercalate_singleton]
    · rw [List.intercalate_cons_of_ne_nil last]
      rcases List.mem_cons.mp h with rfl | h
      · exact List.mem_append_left _ (List.mem_append_left _ hc)
      · exact List.mem_append_right _ (ih h)

theorem Text.mem_intercalate {separator : List Char} {pieces : List (List Char)} {c : Char}
    (h : c ∈ separator.intercalate pieces) : (∃ piece ∈ pieces, c ∈ piece) ∨ c ∈ separator := by
  induction pieces with
  | nil => simp at h
  | cons first more ih =>
    by_cases last : more = []
    · subst last
      rw [List.intercalate_singleton] at h
      exact .inl ⟨first, List.mem_cons_self, h⟩
    · rw [List.intercalate_cons_of_ne_nil last, List.mem_append, List.mem_append] at h
      rcases h with (h | h) | h
      · exact .inl ⟨first, List.mem_cons_self, h⟩
      · exact .inr h
      · obtain ⟨piece, hpiece, hc⟩ | h := ih h
        · exact .inl ⟨piece, List.mem_cons_of_mem first hpiece, hc⟩
        · exact .inr h

/-- A character of a text in which something is written anew is one of the text or of what was
written. -/
theorem Text.mem_replace {old new text : List Char} (nonempty : old ≠ []) {c : Char}
    (h : c ∈ Text.replace old new text) : c ∈ text ∨ c ∈ new := by
  obtain ⟨piece, hpiece, hc⟩ | h := Text.mem_intercalate h
  · have inside := Text.mem_intercalate_of_mem old hpiece hc
    rw [Text.intercalate_pieces nonempty] at inside
    exact .inl inside
  · exact .inr h

namespace Delimiter

theorem enabled?_ne_nil {delimiter : Delimiter} {separator : List Char}
    (h : delimiter.enabled? = some separator) : separator ≠ [] := by
  unfold enabled? at h
  split at h
  · cases h
  · split at h
    · cases h
    · rename_i text nonempty
      cases h
      simpa using nonempty

/-- Whatever the delimiter is, an encoded text holds nothing that separates the parts of a
query. -/
theorem not_mem_encode (delimiter : Delimiter) {text : String} {x : Char}
    (hx : x ∈ ['&', '=', '?', '\n']) : x ∉ (delimiter.encode text).toList := by
  intro hm
  have inside : x ∈ Percent.encode text.toList ∨
      ∃ separator : List Char, x ∈ separator.flatMap Percent.escape := by
    rw [Delimiter.encode, String.toList_ofList] at hm
    split at hm
    · exact .inl hm
    · rename_i separator enabled
      exact (Text.mem_replace (enabled?_ne_nil enabled) hm).imp_right fun h => ⟨separator, h⟩
  rcases inside with h | ⟨separator, h⟩
  · obtain ⟨c, -, hc⟩ := List.mem_flatMap.mp h
    rw [← Percent.encodeCharWith_none] at hc
    exact Percent.not_separating ((Percent.mem_encodeCharWith hc).imp_left And.left) hx
  · obtain ⟨c, -, hc⟩ := List.mem_flatMap.mp h
    exact Percent.not_separating (.inr (Percent.mem_escape hc)) hx

/-- The delimiter is off, or one character that neither a query nor an escape has a use for. -/
structure IsMark (delimiter : Delimiter) (mark : Option Char) : Prop where
  enabled : delimiter.enabled? = mark.map fun c => [c]
  free : ∀ c, mark = some c → c ∉ reserved ∧ Percent.isEscapeDigit c = false

namespace IsMark

variable {delimiter : Delimiter} {mark : Option Char}

theorem encode_eq (h : IsMark delimiter mark) (text : String) :
    delimiter.encode text = String.ofList (text.toList.flatMap (Percent.encodeCharWith mark)) := by
  unfold Delimiter.encode
  rw [h.enabled]
  cases mark with
  | none => simp [Percent.encode, funext Percent.encodeCharWith_none]
  | some c =>
    obtain ⟨hreserved, hdigit⟩ := h.free c rfl
    have noPercent : c ≠ '%' := by
      rintro rfl
      exact hreserved (by decide)
    simp only [Option.map_some, List.flatMap_singleton]
    rw [Text.replace_singleton, Percent.encode, List.flatMap_assoc]
    simp only [Percent.flatMap_encodeChar noPercent hdigit]

/-- Reading an encoded text gives it back. -/
theorem decode_encode (h : IsMark delimiter mark) (text : String) :
    Percent.decode (delimiter.encode text) = text := by
  rw [h.encode_eq, Percent.decode_encodeWith, String.ofList_toList]

/-- An encoded text holds neither its delimiter nor what separates the parts of a query. -/
theorem encode_marks (h : IsMark delimiter mark) {text : String} {x : Char}
    (hx : x ∈ (delimiter.encode text).toList) :
    mark ≠ some x ∧ x ∉ ['&', '=', '?', '\n'] := by
  refine ⟨fun e => ?_, fun hm => delimiter.not_mem_encode hm hx⟩
  rw [h.encode_eq, String.toList_ofList] at hx
  obtain ⟨c, -, hx⟩ := List.mem_flatMap.mp hx
  rcases Percent.mem_encodeCharWith hx with ⟨-, other⟩ | rfl | digit
  · exact other e
  · exact (h.free _ e).1 (by decide)
  · rw [(h.free _ e).2] at digit
    cases digit

/-- A character other than the mark is not part of the delimiter. -/
theorem not_mem_enabled (h : IsMark delimiter mark) {x : Char} (other : mark ≠ some x)
    (separator : List Char) (enabled : delimiter.enabled? = some separator) : x ∉ separator := by
  rw [h.enabled, Option.map_eq_some_iff] at enabled
  obtain ⟨c, rfl, rfl⟩ := enabled
  rintro hx
  exact other (congrArg some (List.mem_singleton.mp hx).symm)

theorem encode_eq_empty_iff (h : IsMark delimiter mark) (text : String) :
    delimiter.encode text = "" ↔ text = "" := by
  constructor
  · intro e
    rw [← h.decode_encode text, e]
    rfl
  · rintro rfl
    rw [h.encode_eq]
    rfl

/-- An encoded text is no list. -/
theorem items?_encode (h : IsMark delimiter mark) (text : String) :
    delimiter.items? (delimiter.encode text) = none := by
  unfold Delimiter.items?
  rw [h.enabled]
  cases mark with
  | none => rfl
  | some c =>
    have absent : c ∉ (delimiter.encode text).toList := fun hc => (h.encode_marks hc).1 rfl
    simp only [Option.map_some]
    rw [Text.pieces_singleton, List.splitOn_eq_singleton absent]

end IsMark

theorem splitOn_marked {mark : Char} {first : List Char} (hfirst : mark ∉ first)
    {words : List (List Char)} (hwords : ∀ word ∈ words, mark ∉ word) :
    (first ++ words.flatMap (mark :: ·)).splitOn mark = first :: words := by
  induction words generalizing first with
  | nil => simp [List.splitOn_eq_singleton hfirst]
  | cons word words ih =>
    have step := ih (hwords word List.mem_cons_self)
      fun w hw => hwords w (List.mem_cons_of_mem _ hw)
    rw [List.flatMap_cons, List.cons_append,
      List.splitOn_append_cons_self_of_not_mem hfirst, step]

/-- Encoded texts, each with the delimiter before it, are the list of those that are not empty. -/
theorem IsMark.items?_marked {delimiter : Delimiter} {mark : Char}
    (h : IsMark delimiter (some mark)) {texts : List String} (nonempty : texts ≠ []) :
    delimiter.items? (String.join
        (texts.map fun text => String.ofList [mark] ++ delimiter.encode text)) =
      some ((texts.filter (!·.isEmpty)).map delimiter.encode) := by
  have absent : ∀ word ∈ texts.map fun text => (delimiter.encode text).toList, mark ∉ word := by
    intro word hword
    obtain ⟨text, -, rfl⟩ := List.mem_map.mp hword
    exact fun hm => (h.encode_marks hm).1 rfl
  have chars : (String.join (texts.map fun text => String.ofList [mark] ++
      delimiter.encode text)).toList =
        [] ++ (texts.map fun text => (delimiter.encode text).toList).flatMap (mark :: ·) := by
    simp [String.toList_join, List.flatMap_map]
  have split := splitOn_marked (List.not_mem_nil (a := mark)) absent
  have present (text : String) : (delimiter.encode text).toList.isEmpty = text.isEmpty := by
    rw [Bool.eq_iff_iff, List.isEmpty_iff, String.toList_eq_nil_iff, String.isEmpty_iff,
      h.encode_eq_empty_iff]
  have kept : (([] :: texts.map fun text => (delimiter.encode text).toList).filter
      (!·.isEmpty)).map String.ofList = (texts.filter (!·.isEmpty)).map delimiter.encode := by
    simp [List.filter_map, Function.comp_def, present]
  unfold Delimiter.items?
  rw [h.enabled]
  simp only [Option.map_some]
  rw [Text.pieces_singleton, chars, split, ← kept]
  cases texts with
  | nil => exact absurd rfl nonempty
  | cons text rest => rfl

end Delimiter

end FragmentRouting
