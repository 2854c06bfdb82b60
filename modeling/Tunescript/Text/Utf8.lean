import Tunescript.Text.Hexadecimal

/-!
# Encodings of texts

Files hold texts in UTF-8.  Decoding refuses every sequence of bytes that encodes no
character and says where it starts, how many bytes of it were looked at, and why.  A text
that is read has its line ends unified: a carriage return, alone or before a line feed,
becomes a line feed.  Latin-1, one byte a character, is used for the names of tracks.
-/

namespace Tunescript

/-- The content of a file. -/
abbrev Bytes := List UInt8

namespace Text

/-- The encoding of a character. -/
def encodeChar (c : Char) : Bytes :=
  let n := c.toNat
  let tail (unit : Nat) : UInt8 := UInt8.ofNat (0x80 + n / unit % 64)
  if n < 0x80 then [UInt8.ofNat n]
  else if n < 0x800 then [UInt8.ofNat (0xc0 + n / 64), tail 1]
  else if n < 0x10000 then [UInt8.ofNat (0xe0 + n / 4096), tail 64, tail 1]
  else [UInt8.ofNat (0xf0 + n / 262144), tail 4096, tail 64, tail 1]

/-- The encoding of a text. -/
def encode (t : Text) : Bytes := t.flatMap encodeChar

/-- Why bytes encode no text. -/
inductive DecodeReason where
  /-- No character starts with this byte. -/
  | invalidStart
  /-- A byte does not continue the character before it. -/
  | invalidContinuation
  /-- The text ends within a character. -/
  | unexpectedEnd
deriving DecidableEq, Repr

/-- Where and why bytes encode no text. -/
structure DecodeError where
  /-- The bytes that were looked at, at least one. -/
  bytes : Bytes
  /-- The number of bytes before them. -/
  position : Nat
  /-- What is wrong with them. -/
  reason : DecodeReason
deriving DecidableEq, Repr

/-- The wording of a reason. -/
def DecodeReason.message : DecodeReason → String
  | invalidStart => "invalid start byte"
  | invalidContinuation => "invalid continuation byte"
  | unexpectedEnd => "unexpected end of data"

/-- The wording of a decoding error. -/
def DecodeError.message (e : DecodeError) : String :=
  let place := match e.bytes with
    | [b] => "byte 0x" ++ String.ofList (hexadecimal 2 b.toNat) ++ " in position "
        ++ toString e.position
    | bs => "bytes in position " ++ toString e.position ++ "-"
        ++ toString (e.position + bs.length - 1)
  "'utf-8' codec can't decode " ++ place ++ ": " ++ e.reason.message

/-- Whether a byte continues a character. -/
def isContinuation (b : UInt8) : Bool := b.toNat / 64 == 2

/-- Whether a byte can come second after a first byte of a character. -/
def canFollow (a b : UInt8) : Bool :=
  isContinuation b
    && (if a = 0xe0 then 0xa0 ≤ b else if a = 0xed then b ≤ 0x9f
      else if a = 0xf0 then 0x90 ≤ b else if a = 0xf4 then b ≤ 0x8f else true)

/-- The number of bytes of a character with this first byte. -/
def sequenceLength? (a : UInt8) : Option Nat :=
  if a < 0x80 then some 1
  else if a < 0xc2 then none
  else if a < 0xe0 then some 2
  else if a < 0xf0 then some 3
  else if a < 0xf5 then some 4
  else none

/-- The bytes that continue a character after its first byte, `count` of them. -/
def continuation (a : UInt8) (count : Nat) (rest : Bytes) : Except (Bytes × DecodeReason) Bytes :=
  let found := rest.take count
  let good (i : Nat) (b : UInt8) : Bool := if i = 0 then canFollow a b else isContinuation b
  match (found.zipIdx.takeWhile fun (b, i) => good i b).map (·.1) with
  | taken =>
    if taken.length = count then .ok taken
    else if taken.length = rest.length then .error (a :: taken, .unexpectedEnd)
    else .error (a :: taken, .invalidContinuation)

/-- The bits of a character that its first byte holds. -/
def leadingBits (a : UInt8) (length : Nat) : Nat :=
  if length = 1 then a.toNat else a.toNat % Nat.pow 2 (7 - length)

/-- The character in front of some bytes, and the number of its bytes. -/
def decodeChar (a : UInt8) (rest : Bytes) : Except (Bytes × DecodeReason) (Char × Nat) :=
  match sequenceLength? a with
  | none => .error ([a], .invalidStart)
  | some length => do
    let taken ← continuation a (length - 1) rest
    return (Char.ofNat (taken.foldl (fun n b => n * 64 + b.toNat % 64) (leadingBits a length)),
      length)

/-- The text that some bytes encode after the given number of bytes, of which the first
`skip` ones are used up; the characters found so far run backwards. -/
def decodeFrom (position skip : Nat) (found : Text) : Bytes → Except DecodeError Text
  | [] => .ok found.reverse
  | a :: rest =>
    match skip with
    | skip + 1 => decodeFrom (position + 1) skip found rest
    | 0 =>
      match decodeChar a rest with
      | .ok (c, length) => decodeFrom (position + 1) (length - 1) (c :: found) rest
      | .error (bytes, reason) => .error ⟨bytes, position, reason⟩

/-- The text that some bytes encode. -/
def decode (bytes : Bytes) : Except DecodeError Text := decodeFrom 0 0 [] bytes

/-- The text with its line ends unified. -/
def unifyLineEnds : Text → Text
  | [] => []
  | '\r' :: '\n' :: t => '\n' :: unifyLineEnds t
  | c :: t => (if c = '\r' then '\n' else c) :: unifyLineEnds t

/-- Why a text has no Latin-1 encoding: its first characters beyond Latin-1 in a row. -/
structure Latin1Error where
  /-- The number of characters before them. -/
  position : Nat
  /-- The characters. -/
  characters : Text
deriving DecidableEq, Repr

/-- A character beyond Latin-1 by its code point. -/
def codePoint (c : Char) : Text :=
  if c.toNat < 0x10000 then "\\u".toList ++ hexadecimal 4 c.toNat
  else "\\U".toList ++ hexadecimal 8 c.toNat

/-- The wording of a Latin-1 error. -/
def Latin1Error.message (e : Latin1Error) : String :=
  let place := match e.characters with
    | [c] => "character '" ++ String.ofList (codePoint c) ++ "' in position " ++ toString e.position
    | cs => "characters in position " ++ toString e.position ++ "-"
        ++ toString (e.position + cs.length - 1)
  "'latin-1' codec can't encode " ++ place ++ ": ordinal not in range(256)"

/-- The Latin-1 encoding of a text. -/
def encodeLatin1 (t : Text) : Except Latin1Error Bytes :=
  let inside (c : Char) : Bool := c.toNat < 256
  let beyond := (t.dropWhile inside).takeWhile fun c => !inside c
  if beyond.isEmpty then .ok (t.map fun c => UInt8.ofNat c.toNat)
  else .error ⟨(t.takeWhile inside).length, beyond⟩

end Text

end Tunescript
