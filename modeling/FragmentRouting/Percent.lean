import FragmentRouting.Text.Digit
import FragmentRouting.Text.Pieces

/-!
# Percent-escapes

A character that may not stand for itself is written as the bytes of its UTF-8 form, each as a
percent sign and two hexadecimal digits. Reading back also takes a plus sign for a space. A text
that holds a malformed escape, or whose bytes are no UTF-8, is not read at all.
-/

namespace FragmentRouting.Percent

open Text

/-- Letters, digits and a few marks stand for themselves. -/
def isUnreserved (c : Char) : Bool :=
  c.isAlphanum || ['_', '.', '-', '~', '!', '*', '\'', '(', ')'].contains c

def escapeByte (byte : UInt8) : List Char :=
  ['%', upperHex (byte.toNat / 16), upperHex (byte.toNat % 16)]

/-- A character as escapes, whether or not it could stand for itself. -/
def escape (c : Char) : List Char :=
  (String.utf8EncodeChar c).flatMap escapeByte

def encodeChar (c : Char) : List Char :=
  if isUnreserved c then [c] else escape c

def encode (text : List Char) : List Char :=
  text.flatMap encodeChar

/-- One unit of an escaped text: a byte, written as an escape or as an ASCII character, or a
character outside ASCII. -/
inductive Octet where
  | byte (b : UInt8)
  | char (c : Char)
  deriving DecidableEq, Repr

def octetOf (c : Char) : Octet :=
  if c = '+' then .byte 32 else if c.toNat < 128 then .byte (UInt8.ofNat c.toNat) else .char c

/-- The byte of two hexadecimal digits. -/
def byteOf? (high low : Char) : Option UInt8 := do
  return UInt8.ofNat (16 * (← hexValue? high) + (← hexValue? low))

/-- The units of a text, unless a percent sign lacks its two digits. -/
def octets? : List Char → Option (List Octet)
  | [] => some []
  | c :: rest =>
    if c = '%' then
      match rest with
      | high :: low :: rest => do
        let byte ← byteOf? high low
        return .byte byte :: (← octets? rest)
      | _ => none
    else (octets? rest).map (octetOf c :: ·)

/-- The first run of bytes, and each later character outside ASCII with the run that follows
it. -/
def runs : List Octet → List UInt8 × List (Char × List UInt8)
  | [] => ([], [])
  | .byte b :: rest => (b :: (runs rest).1, (runs rest).2)
  | .char c :: rest => ([], (c, (runs rest).1) :: (runs rest).2)

/-- The text whose UTF-8 form the bytes are. -/
def utf8? (bytes : List UInt8) : Option (List Char) :=
  (String.fromUTF8? (ByteArray.mk bytes.toArray)).map String.toList

/-- The text of the units. Each run of bytes has to be UTF-8 by itself. -/
def textOf? (octets : List Octet) : Option (List Char) := do
  let (first, others) := runs octets
  let head ← utf8? first
  let tail ← others.mapM fun (c, bytes) => (utf8? bytes).map (c :: ·)
  return head ++ tail.flatten

/-- What reading an escaped text can come to. -/
inductive Reading where
  | decoded (text : List Char)
  /-- A percent sign lacks its two digits. -/
  | malformed
  /-- The bytes are not UTF-8. -/
  | notUtf8
  deriving DecidableEq, Repr

def read (text : List Char) : Reading :=
  match octets? text with
  | none => .malformed
  | some octets =>
    match textOf? octets with
    | none => .notUtf8
    | some decoded => .decoded decoded

/-- The text that was escaped, or the text itself if it cannot be read. -/
def decode (text : String) : String :=
  match read text.toList with
  | .decoded decoded => String.ofList decoded
  | .malformed | .notUtf8 => text

end FragmentRouting.Percent
