/-
  Relayout/Text/Percent.lean
  ==========================
  **Percent-decoding of text.**

  A percent sign with two hexadecimal digits after it stands for a byte, and everything else
  for its own UTF-8 bytes.  The bytes are read as UTF-8 again; where they are not UTF-8, each
  longest piece that could still have begun a character becomes one U+FFFD.

  The fragments of references are decoded in this way by the walker's `resolve_ref`.
-/
import Relayout.Text.Basic

namespace Relayout.Text

/-- The UTF-8 bytes of a character. -/
def utf8Bytes (c : Char) : List Nat :=
  (String.utf8EncodeChar c).map UInt8.toNat

/-- The bytes of a text with percent escapes. -/
def percentBytes : List Char → List Nat
  | '%' :: a :: b :: rest =>
    match hexValue? a, hexValue? b with
    | some a, some b => (16 * a + b) :: percentBytes rest
    | _, _ => 0x25 :: percentBytes (a :: b :: rest)
  | c :: cs => utf8Bytes c ++ percentBytes cs
  | [] => []

/-! ### Bytes that need not be UTF-8 -/

/-- A character that has begun: the code read so far, how many bytes are still owed, and the
    least and the greatest byte that may come next. -/
structure OpenChar where
  code : Nat
  owed : Nat
  least : Nat
  greatest : Nat
deriving DecidableEq, Repr

/-- The character that a first byte begins. -/
def openChar? (b : Nat) : Option OpenChar :=
  if 0xC2 ≤ b && b ≤ 0xDF then some ⟨b - 0xC0, 1, 0x80, 0xBF⟩
  else if b = 0xE0 then some ⟨0, 2, 0xA0, 0xBF⟩
  else if b = 0xED then some ⟨0xD, 2, 0x80, 0x9F⟩
  else if 0xE1 ≤ b && b ≤ 0xEF then some ⟨b - 0xE0, 2, 0x80, 0xBF⟩
  else if b = 0xF0 then some ⟨0, 3, 0x90, 0xBF⟩
  else if 0xF1 ≤ b && b ≤ 0xF3 then some ⟨b - 0xF0, 3, 0x80, 0xBF⟩
  else if b = 0xF4 then some ⟨4, 3, 0x80, 0x8F⟩
  else none

/-- The character that replaces what is not UTF-8. -/
def replacement : Char := Char.ofNat 0xFFFD

/-- A byte between characters: what has begun after it and what it completes. -/
def firstByte (b : Nat) : Option OpenChar × List Char :=
  if b < 0x80 then (none, [Char.ofNat b])
  else
    match openChar? b with
    | some o => (some o, [])
    | none => (none, [replacement])

/-- A byte after whatever has begun. A byte that cannot come next closes the character that
    has begun and is looked at afresh. -/
def nextByte : Option OpenChar → Nat → Option OpenChar × List Char
  | none, b => firstByte b
  | some o, b =>
    if o.least ≤ b && b ≤ o.greatest then
      let code := o.code * 0x40 + (b - 0x80)
      if o.owed = 1 then (none, [Char.ofNat code])
      else (some ⟨code, o.owed - 1, 0x80, 0xBF⟩, [])
    else
      let (opened, out) := firstByte b
      (opened, replacement :: out)

/-- Read bytes as UTF-8, from inside a character if one has begun. -/
def utf8Lossy : Option OpenChar → List Nat → List Char
  | none, [] => []
  | some _, [] => [replacement]
  | opened, b :: bs => (nextByte opened b).2 ++ utf8Lossy (nextByte opened b).1 bs

/-- A text with its percent escapes decoded. -/
def percentDecode (s : String) : String :=
  String.ofList (utf8Lossy none (percentBytes s.toList))

end Relayout.Text
