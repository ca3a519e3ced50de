import FragmentRouting.Proofs.Query.Escaping

/-!
# Reading escapes as bytes

An escaped text is read run by run: between two characters outside ASCII the bytes have to be UTF-8
by themselves. This comes to the same as reading all of its bytes at once:

* `exists_split_of_encoded`: UTF-8 can be cut before and behind every character in it, as no other
  byte looks like the first byte of a character;
* `textOf?_eq_utf8?`: so the runs are UTF-8, one by one, exactly if all bytes together are;
* `unescaped`: the bytes of a text, with its escapes and plus signs replaced;
* `decode_eq_fromUTF8`: a text is read as the text with these bytes, or else stays as it is.
-/

namespace FragmentRouting.Percent

open String (utf8EncodeChar)
open Text (hexValue?)

/-! ## Cutting UTF-8 -/

theorem eq_of_encoded_append {c d : Char} {rest rest' : List UInt8}
    (h : utf8EncodeChar c ++ rest = utf8EncodeChar d ++ rest') : c = d := by
  have decoded (c : Char) (rest : List UInt8) :
      (utf8EncodeChar c ++ rest).toByteArray.utf8DecodeChar? 0 = some c := by
    rw [List.toByteArray_append, ByteArray.utf8DecodeChar?_utf8EncodeChar_append]
  have same := decoded c rest
  rw [h, decoded d rest'] at same
  exact (Option.some.inj same).symm

/-- No byte inside a character looks like the first byte of one. -/
theorem not_encoded_within {c d : Char} {front inner back rest : List UInt8} (hfront : front ≠ [])
    (hinner : inner ≠ []) (hc : utf8EncodeChar c = front ++ inner) :
    utf8EncodeChar d ++ back ≠ inner ++ rest := by
  intro h
  obtain ⟨byte, inner, rfl⟩ := List.exists_cons_of_ne_nil hinner
  obtain ⟨first, more, hd⟩ := List.exists_cons_of_ne_nil (@String.utf8EncodeChar_ne_nil d)
  have begins : first.IsUTF8FirstByte := by
    have := @UInt8.isUTF8FirstByte_getElem_zero_utf8EncodeChar d
    simpa [hd] using this
  have goesOn : ¬ byte.IsUTF8FirstByte := by
    have inside : front.length < (utf8EncodeChar c).length := by simp [hc]
    have := @UInt8.isUTF8FirstByte_getElem_utf8EncodeChar c front.length inside
    simpa [hc, hfront] using this
  rw [hd] at h
  obtain rfl : first = byte := (List.cons.inj h).1
  exact goesOn begins

/-- UTF-8 can be cut before and behind every character that is encoded in it. The induction is on
the text, whose characters before the cut are taken away one by one. -/
theorem exists_split_of_encoded {text : List Char} {front back : List UInt8} {c : Char}
    (h : text.flatMap utf8EncodeChar = front ++ (utf8EncodeChar c ++ back)) :
    ∃ head tail, text = head ++ c :: tail ∧ front = head.flatMap utf8EncodeChar ∧
      back = tail.flatMap utf8EncodeChar := by
  induction text generalizing front with
  | nil =>
    have nothing := List.append_eq_nil_iff.mp (List.append_eq_nil_iff.mp h.symm).2
    exact absurd nothing.1 String.utf8EncodeChar_ne_nil
  | cons d text ih =>
    have behind {front' : List UInt8} (hfront : front = utf8EncodeChar d ++ front')
        (htext : text.flatMap utf8EncodeChar = front' ++ (utf8EncodeChar c ++ back)) :
        ∃ head tail, d :: text = head ++ c :: tail ∧ front = head.flatMap utf8EncodeChar ∧
          back = tail.flatMap utf8EncodeChar := by
      obtain ⟨head, tail, rfl, rfl, rfl⟩ := ih htext
      exact ⟨d :: head, tail, rfl, by rw [hfront, List.flatMap_cons], rfl⟩
    rw [List.flatMap_cons] at h
    rcases List.append_eq_append_iff.mp h with ⟨front', hfront, htext⟩ | ⟨inner, hd, hc⟩
    · exact behind hfront htext
    · by_cases cutBehind : inner = []
      · subst cutBehind
        have whole : front = utf8EncodeChar d ++ [] := by simpa using hd.symm
        exact behind whole hc.symm
      · by_cases atFront : front = []
        · subst atFront
          rw [List.nil_append] at h
          obtain rfl := eq_of_encoded_append h
          exact ⟨[], text, rfl, rfl, (List.append_cancel_left h).symm⟩
        · exact absurd hc (not_encoded_within atFront cutBehind hd)

theorem utf8?_eq_some_iff {bytes : List UInt8} {text : List Char} :
    utf8? bytes = some text ↔ bytes = text.flatMap utf8EncodeChar := by
  constructor
  · intro h
    obtain ⟨s, hs, rfl⟩ := Option.map_eq_some_iff.mp h
    obtain ⟨valid, hs⟩ := Option.dite_none_right_eq_some.mp hs
    obtain rfl := Option.some.inj hs
    have encoded : (String.fromUTF8 ⟨bytes.toArray⟩ valid).toList.utf8Encode = ⟨bytes.toArray⟩ :=
      String.utf8Encode_toList
    rw [List.utf8Encode] at encoded
    have := congrArg (fun b => b.data.toList) encoded
    simpa using this.symm
  · rintro rfl
    exact utf8?_encoded text

theorem utf8?_append_char (front : List UInt8) (c : Char) (back : List UInt8) :
    utf8? (front ++ (utf8EncodeChar c ++ back)) =
      (utf8? front).bind fun head => (utf8? back).map fun tail => head ++ c :: tail := by
  apply Option.ext
  intro text
  simp only [Option.bind_eq_some_iff, Option.map_eq_some_iff, utf8?_eq_some_iff]
  constructor
  · intro h
    obtain ⟨head, tail, rfl, rfl, rfl⟩ := exists_split_of_encoded h.symm
    exact ⟨head, rfl, tail, rfl, rfl⟩
  · rintro ⟨head, rfl, tail, rfl, rfl⟩
    simp

/-! ## Runs of bytes -/

/-- The bytes of a unit. -/
def Octet.bytes : Octet → List UInt8
  | .byte b => [b]
  | .char c => utf8EncodeChar c

theorem runs_append (octets : List Octet) :
    octets.flatMap Octet.bytes =
      (runs octets).1 ++ (runs octets).2.flatMap fun run => utf8EncodeChar run.1 ++ run.2 := by
  induction octets with
  | nil => rfl
  | cons octet octets ih =>
    cases octet with
    | byte b => simp [runs, Octet.bytes, ih]
    | char c => simp [runs, Octet.bytes, ih]

theorem utf8?_runs (first : List UInt8) (others : List (Char × List UInt8)) :
    utf8? (first ++ others.flatMap fun run => utf8EncodeChar run.1 ++ run.2) = (do
      let head ← utf8? first
      let tail ← others.mapM fun (c, bytes) => (utf8? bytes).map (c :: ·)
      return head ++ tail.flatten) := by
  induction others generalizing first with
  | nil => cases h : utf8? first <;> simp [h]
  | cons run others ih =>
    obtain ⟨c, bytes⟩ := run
    rw [List.flatMap_cons, List.append_assoc, utf8?_append_char, ih bytes, List.mapM_cons]
    cases utf8? first with
    | none => rfl
    | some head =>
      dsimp only
      cases utf8? bytes with
      | none => rfl
      | some text =>
        cases others.mapM fun (c, bytes) => (utf8? bytes).map (c :: ·) with
        | none => rfl
        | some texts => simp

/-- Every run of bytes is UTF-8 by itself exactly if all bytes together are, and then both give the
same text. -/
theorem textOf?_eq_utf8? (octets : List Octet) :
    textOf? octets = utf8? (octets.flatMap Octet.bytes) := by
  rw [runs_append, utf8?_runs, textOf?]

/-! ## Escapes in the bytes of a text -/

/-- The value of a byte that is a hexadecimal digit. -/
def digitValue? (b : UInt8) : Option UInt8 :=
  if 48 ≤ b ∧ b ≤ 57 then some (b - 48)
  else if 65 ≤ b ∧ b ≤ 70 then some (b - 55)
  else if 97 ≤ b ∧ b ≤ 102 then some (b - 87)
  else none

/-- The bytes of a text with a space for each plus sign, and the byte that it stands for in the
place of each percent sign with two digits. -/
def unescaped : List UInt8 → List UInt8
  | [] => []
  | b :: rest =>
    if b = 43 then 32 :: unescaped rest
    else if b = 37 then
      match rest with
      | high :: low :: more =>
        match digitValue? high, digitValue? low with
        | some h, some l => (16 * h + l) :: unescaped more
        | _, _ => b :: unescaped (high :: low :: more)
      | other => b :: unescaped other
    else b :: unescaped rest

theorem unescaped_plain {front : List UInt8} (h : ∀ b ∈ front, b ≠ 43 ∧ b ≠ 37)
    (rest : List UInt8) : unescaped (front ++ rest) = front ++ unescaped rest := by
  induction front with
  | nil => rfl
  | cons b front ih =>
    obtain ⟨⟨noPlus, noPercent⟩, hfront⟩ := List.forall_mem_cons.mp h
    rw [List.cons_append, unescaped.eq_def]
    simp only [if_neg noPlus, if_neg noPercent, ih hfront, List.cons_append]

theorem digitValue?_ofNat : ∀ n < 128,
    digitValue? (UInt8.ofNat n) = (hexValue? (Char.ofNat n)).map UInt8.ofNat := by
  decide

/-- A hexadecimal digit of ASCII, of either case. -/
def IsHexDigit (c : Char) : Prop :=
  ('0' ≤ c ∧ c ≤ '9') ∨ ('A' ≤ c ∧ c ≤ 'F') ∨ ('a' ≤ c ∧ c ≤ 'f')

instance (c : Char) : Decidable (IsHexDigit c) :=
  inferInstanceAs (Decidable (_ ∨ _ ∨ _))

theorem isSome_hexValue?_iff {c : Char} : (hexValue? c).isSome = true ↔ IsHexDigit c := by
  unfold hexValue? IsHexDigit
  split
  · simp [*]
  · split
    · simp [*]
    · split <;> simp [*]

theorem toNat_of_isHexDigit {c : Char} (h : IsHexDigit c) : c.toNat < 128 := by
  have below {top : Char} (ascii : top.toNat < 128) (h : c ≤ top) : c.toNat < 128 :=
    Nat.lt_of_le_of_lt h ascii
  rcases h with ⟨-, h⟩ | ⟨-, h⟩ | ⟨-, h⟩
  · exact below (by decide) h
  · exact below (by decide) h
  · exact below (by decide) h

theorem encoded_digit {c : Char} {n : Nat} (h : hexValue? c = some n) :
    ∃ b, utf8EncodeChar c = [b] ∧ digitValue? b = some (UInt8.ofNat n) := by
  have ascii : c.toNat < 128 := toNat_of_isHexDigit (isSome_hexValue?_iff.mp (by rw [h]; rfl))
  refine ⟨_, utf8EncodeChar_of_ascii ascii, ?_⟩
  rw [digitValue?_ofNat _ ascii, Char.ofNat_toNat, h]
  rfl

theorem byteOf?_eq_some_iff {high low : Char} {byte : UInt8} :
    byteOf? high low = some byte ↔ ∃ m n, hexValue? high = some m ∧ hexValue? low = some n ∧
      byte = UInt8.ofNat (16 * m + n) := by
  unfold byteOf?
  cases hexValue? high <;> cases hexValue? low <;> simp [eq_comm]

theorem unescaped_escape {high low : Char} {byte : UInt8} (h : byteOf? high low = some byte)
    (rest : List UInt8) :
    unescaped (utf8EncodeChar '%' ++ (utf8EncodeChar high ++ (utf8EncodeChar low ++ rest))) =
      byte :: unescaped rest := by
  obtain ⟨m, n, hm, hn, rfl⟩ := byteOf?_eq_some_iff.mp h
  obtain ⟨b, hb, mb⟩ := encoded_digit hm
  obtain ⟨d, hd, nd⟩ := encoded_digit hn
  have percent : utf8EncodeChar '%' = [37] := by decide
  rw [percent, hb, hd, unescaped.eq_def]
  simp [mb, nd, UInt8.ofNat_add, UInt8.ofNat_mul]

theorem unescaped_plus (rest : List UInt8) :
    unescaped (utf8EncodeChar '+' ++ rest) = 32 :: unescaped rest := by
  have plus : utf8EncodeChar '+' = [43] := by decide
  rw [plus, unescaped.eq_def]
  rfl

theorem le_of_mem_encoded {c : Char} (wide : ¬ c.toNat < 128) {b : UInt8}
    (h : b ∈ utf8EncodeChar c) : 128 ≤ b.toNat := by
  have wide : ¬ c.val.toNat ≤ 127 := fun small => wide (Nat.lt_succ_of_le small)
  unfold utf8EncodeChar at h
  simp only [if_neg wide] at h
  split at h
  · simp only [List.mem_cons, List.not_mem_nil, or_false] at h
    rcases h with rfl | rfl <;> rw [UInt8.toNat_ofNat'] <;> omega
  · split at h
    · simp only [List.mem_cons, List.not_mem_nil, or_false] at h
      rcases h with rfl | rfl | rfl <;> rw [UInt8.toNat_ofNat'] <;> omega
    · simp only [List.mem_cons, List.not_mem_nil, or_false] at h
      rcases h with rfl | rfl | rfl | rfl <;> rw [UInt8.toNat_ofNat'] <;> omega

/-- Only a plus sign and a percent sign have their bytes. -/
theorem plain_of_ne {c : Char} (noPlus : c ≠ '+') (noPercent : c ≠ '%') :
    ∀ b ∈ utf8EncodeChar c, b ≠ 43 ∧ b ≠ 37 := by
  by_cases ascii : c.toNat < 128
  · have other {d : Char} (ne : c ≠ d) (hd : d.toNat < 128) :
        UInt8.ofNat c.toNat ≠ UInt8.ofNat d.toNat := by
      intro same
      have numbers := congrArg UInt8.toNat same
      simp only [UInt8.toNat_ofNat'] at numbers
      exact ne (Char.toNat_inj.mp (by omega))
    rw [utf8EncodeChar_of_ascii ascii]
    simpa using ⟨other noPlus (by decide), other noPercent (by decide)⟩
  · intro b hb
    have high := le_of_mem_encoded ascii hb
    constructor <;> rintro rfl <;> exact absurd high (by decide)

/-- What a character other than a percent sign is read as. -/
theorem unescaped_char {c : Char} (noPercent : c ≠ '%') (rest : List UInt8) :
    unescaped (utf8EncodeChar c ++ rest) = (octetOf c).bytes ++ unescaped rest := by
  by_cases plus : c = '+'
  · subst plus
    exact unescaped_plus rest
  · have bytes : (octetOf c).bytes = utf8EncodeChar c := by
      unfold octetOf
      rw [if_neg plus]
      split
      · rename_i ascii
        exact (utf8EncodeChar_of_ascii ascii).symm
      · rfl
    rw [unescaped_plain (plain_of_ne plus noPercent), bytes]

/-- A percent sign too close to the end lacks its digits. -/
theorem octets?_percent_short {rest : List Char}
    (short : ∀ high low more, rest = high :: low :: more → False) :
    octets? ('%' :: rest) = none := by
  match rest with
  | [] => rfl
  | [_] => rfl
  | high :: low :: more => exact (short high low more rfl).elim

/-- The units of a text have the bytes of the text, with its escapes and plus signs replaced. -/
theorem unescaped_eq_bytes {text : List Char} {octets : List Octet}
    (h : octets? text = some octets) :
    unescaped (text.flatMap utf8EncodeChar) = octets.flatMap Octet.bytes := by
  induction text using octets?.induct generalizing octets with
  | case1 =>
    cases h
    rfl
  | case2 high low rest ih =>
    rw [octets?, if_pos rfl] at h
    obtain ⟨byte, hbyte, h⟩ := Option.bind_eq_some_iff.mp h
    obtain ⟨more, hmore, h⟩ := Option.bind_eq_some_iff.mp h
    cases h
    simp only [List.flatMap_cons, unescaped_escape hbyte, ih hmore]
    rfl
  | case3 rest short =>
    rw [octets?_percent_short short] at h
    cases h
  | case4 c rest noPercent ih =>
    rw [octets?_cons noPercent] at h
    obtain ⟨more, hmore, rfl⟩ := Option.map_eq_some_iff.mp h
    rw [List.flatMap_cons, unescaped_char noPercent, ih hmore, List.flatMap_cons]

/-- Every percent sign of a text stands before two hexadecimal digits. -/
def EscapesWhole (text : List Char) : Prop :=
  ∀ before after, text = before ++ '%' :: after →
    ∃ high low rest, after = high :: low :: rest ∧ IsHexDigit high ∧ IsHexDigit low

theorem escapesWhole_cons {c : Char} (noPercent : c ≠ '%') {rest : List Char} :
    EscapesWhole (c :: rest) ↔ EscapesWhole rest := by
  constructor
  · intro h before after e
    exact h (c :: before) after (by rw [e]; rfl)
  · intro h before after e
    cases before with
    | nil => exact absurd (List.cons.inj e).1 noPercent
    | cons d before => exact h before after (List.cons.inj e).2

theorem not_isHexDigit_percent : ¬ IsHexDigit '%' := by
  decide

theorem escapesWhole_percent {high low : Char} {rest : List Char} :
    EscapesWhole ('%' :: high :: low :: rest) ↔
      (IsHexDigit high ∧ IsHexDigit low) ∧ EscapesWhole rest := by
  constructor
  · intro h
    obtain ⟨_, _, _, e, digits⟩ := h [] _ rfl
    cases e
    refine ⟨digits, fun before after e => ?_⟩
    exact h ('%' :: high :: low :: before) after (by rw [e]; rfl)
  · rintro ⟨⟨hhigh, hlow⟩, h⟩ before after e
    -- The percent sign in question is the first character, or stands behind both digits.
    match before with
    | [] =>
      cases e
      exact ⟨high, low, rest, rfl, hhigh, hlow⟩
    | [_] =>
      cases e
      exact absurd hhigh not_isHexDigit_percent
    | [_, _] =>
      cases e
      exact absurd hlow not_isHexDigit_percent
    | _ :: _ :: _ :: before =>
      simp only [List.cons_append, List.cons.injEq] at e
      exact h before after e.2.2.2

theorem isSome_octets?_iff {text : List Char} :
    (octets? text).isSome = true ↔ EscapesWhole text := by
  induction text using octets?.induct with
  | case1 =>
    refine ⟨fun _ before after e => ?_, fun _ => rfl⟩
    exact absurd e.symm (List.append_ne_nil_of_right_ne_nil before (List.cons_ne_nil _ _))
  | case2 high low rest ih =>
    rw [escapesWhole_percent, ← ih, ← isSome_hexValue?_iff, ← isSome_hexValue?_iff, octets?,
      if_pos rfl, byteOf?]
    cases hexValue? high <;> cases hexValue? low <;> cases octets? rest <;> simp
  | case3 rest short =>
    rw [octets?_percent_short short]
    refine ⟨fun h => absurd h Bool.false_ne_true, fun h => ?_⟩
    obtain ⟨high, low, more, e, -⟩ := h [] rest rfl
    exact (short high low more e).elim
  | case4 c rest noPercent ih =>
    rw [octets?_cons noPercent, Option.isSome_map, ih, escapesWhole_cons noPercent]

instance (text : List Char) : Decidable (EscapesWhole text) :=
  decidable_of_iff ((octets? text).isSome = true) isSome_octets?_iff

/-- The bytes of a text, with its escapes and plus signs replaced. -/
def unescapedBytes (text : String) : ByteArray :=
  ⟨(unescaped text.toUTF8.data.toList).toArray⟩

/-- A text is read as the text with these bytes if every percent sign has its digits and the bytes
are UTF-8. Otherwise it stays as it is, with every escape and every plus sign in it. -/
theorem decode_eq_fromUTF8 (text : String) :
    decode text =
      if valid : EscapesWhole text.toList ∧ (unescapedBytes text).IsValidUTF8 then
        String.fromUTF8 (unescapedBytes text) valid.2
      else text := by
  have bytes : text.toUTF8.data.toList = text.toList.flatMap utf8EncodeChar := by
    rw [String.toUTF8_eq_toByteArray, ← String.utf8Encode_toList, List.utf8Encode]
    exact List.toList_data_toByteArray
  by_cases whole : EscapesWhole text.toList
  · obtain ⟨octets, hoctets⟩ := Option.isSome_iff_exists.mp (isSome_octets?_iff.mpr whole)
    have hread : textOf? octets =
        (String.fromUTF8? (unescapedBytes text)).map String.toList := by
      rw [textOf?_eq_utf8?, ← unescaped_eq_bytes hoctets, ← bytes]
      rfl
    by_cases valid : (unescapedBytes text).IsValidUTF8
    · rw [String.fromUTF8?, dif_pos valid] at hread
      rw [dif_pos ⟨whole, valid⟩]
      simp [decode, read, hoctets, hread]
    · rw [String.fromUTF8?, dif_neg valid] at hread
      rw [dif_neg fun both => valid both.2]
      simp [decode, read, hoctets, hread]
  · have unread : octets? text.toList = none :=
      Option.not_isSome_iff_eq_none.mp fun h => whole (isSome_octets?_iff.mp h)
    rw [dif_neg fun both => whole both.1]
    simp [decode, read, unread]

/-- The escapes on both sides of a character outside ASCII do not make another one of it. -/
example : decode "%C3\u00e9%A9" = "%C3\u00e9%A9" := by
  decide +kernel

end FragmentRouting.Percent
