/-!
Texts as bytes in UTF-8: where bytes stop being a text. A character is a leading byte and the
continuation bytes it asks for, each within a range.
-/

set_option autoImplicit false

namespace ClassScript.Text

inductive EncodingFault where
  /-- The bytes from `start` on cannot be followed by the one after them. -/
  | invalid (start length : Nat)
  /-- The bytes end inside the character that begins at `start`. -/
  | incomplete (start : Nat)
  deriving DecidableEq

def EncodingFault.message : EncodingFault → String
  | invalid start length =>
    "invalid utf-8 sequence of " ++ length.repr ++ " bytes from index " ++ start.repr
  | incomplete start => "incomplete utf-8 byte sequence from index " ++ start.repr

/-- A range of bytes, both ends included. -/
structure ByteRange where
  first : UInt8
  last : UInt8

def ByteRange.contains (range : ByteRange) (byte : UInt8) : Bool :=
  range.first ≤ byte && byte ≤ range.last

def continuation : ByteRange := ⟨0x80, 0xBF⟩

/-- What has to follow a leading byte; nothing for a byte that leads no character. -/
def tails? (byte : UInt8) : Option (List ByteRange) :=
  if byte < 0x80 then some []
  else if byte < 0xC2 then none
  else if byte < 0xE0 then some [continuation]
  else if byte = 0xE0 then some [⟨0xA0, 0xBF⟩, continuation]
  else if byte = 0xED then some [⟨0x80, 0x9F⟩, continuation]
  else if byte < 0xF0 then some [continuation, continuation]
  else if byte = 0xF0 then some [⟨0x90, 0xBF⟩, continuation, continuation]
  else if byte < 0xF4 then some [continuation, continuation, continuation]
  else if byte = 0xF4 then some [⟨0x80, 0x8F⟩, continuation, continuation]
  else none

/-- The first fault in bytes, `length` bytes into the character that begins at `start`, when
`pending` has to follow. -/
def firstFault? (start length : Nat) (pending : List ByteRange) :
    List UInt8 → Option EncodingFault
  | [] => if length = 0 then none else some (.incomplete start)
  | byte :: rest =>
    match pending with
    | [] =>
      match tails? byte with
      | none => some (.invalid start 1)
      | some [] => firstFault? (start + 1) 0 [] rest
      | some more => firstFault? start 1 more rest
    | range :: more =>
      if range.contains byte then
        if more.isEmpty then firstFault? (start + length + 1) 0 [] rest
        else firstFault? start (length + 1) more rest
      else some (.invalid start length)

def decode (bytes : ByteArray) : Except EncodingFault String :=
  match String.fromUTF8? bytes with
  | some text => .ok text
  | none => .error ((firstFault? 0 0 [] bytes.toList).getD (.incomplete 0))

end ClassScript.Text
