import CommandBatch.Decimal.Integer

/-!
# Bytes as text

Decoding UTF-8. A byte sequence that is no text is refused at its first character that is not well
formed, with the span of the bytes that still began a character.
-/

namespace CommandBatch.Files

open Text

/-- What is wrong with a character. -/
inductive MalformedCharacter where
  | start
  | continuation
  | ending
  deriving DecidableEq, Repr

/-- Where and why bytes are no text. -/
structure DecodeError where
  /-- The first byte of the character. -/
  byte : UInt8
  /-- Its position. -/
  position : Nat
  /-- How many bytes began a character. -/
  length : Nat
  fault : MalformedCharacter
  deriving DecidableEq, Repr

/-- The wording of an error. -/
def DecodeError.message (e : DecodeError) : String :=
  let reason :=
    match e.fault with
    | .start => "invalid start byte"
    | .continuation => "invalid continuation byte"
    | .ending => "unexpected end of data"
  let position := Decimal.wholeText e.position
  let place :=
    if e.length = 1 then
      "byte 0x" ++ String.ofList (hexDigits 2 e.byte.toNat) ++ " in position " ++ position
    else
      "bytes in position " ++ position ++ "-" ++
        Decimal.wholeText (e.position + e.length - 1 : Nat)
  "'utf-8' codec can't decode " ++ place ++ ": " ++ reason

/-- How a character goes on after its first byte: the bits that byte gives, the least and the
greatest byte that may follow, and how many bytes follow. -/
def leadByte? (b : Nat) : Option (Nat × Nat × Nat × Nat) :=
  if b < 0x80 then some (b, 0, 0, 0)
  else if 0xC2 ≤ b ∧ b ≤ 0xDF then some (b - 0xC0, 0x80, 0xBF, 1)
  else if 0xE0 ≤ b ∧ b ≤ 0xEF then
    some (b - 0xE0, if b = 0xE0 then 0xA0 else 0x80, if b = 0xED then 0x9F else 0xBF, 2)
  else if 0xF0 ≤ b ∧ b ≤ 0xF4 then
    some (b - 0xF0, if b = 0xF0 then 0x90 else 0x80, if b = 0xF4 then 0x8F else 0xBF, 3)
  else none

/-- A character that has begun: its first byte, where it stands, how many bytes have been read, the
bits they gave, the bounds of the next byte, and how many are missing. -/
structure OpenCharacter where
  byte : UInt8
  position : Nat
  length : Nat
  bits : Nat
  least : Nat
  greatest : Nat
  missing : Nat

/-- Decodes the bytes from a position on, inside a character or between two. -/
def decodeFrom (position : Nat) : Option OpenCharacter → List UInt8 → Except DecodeError (List Char)
  | none, [] => .ok []
  | some o, [] => .error ⟨o.byte, o.position, o.length, .ending⟩
  | none, b :: bs =>
    match leadByte? b.toNat with
    | none => .error ⟨b, position, 1, .start⟩
    | some (bits, _, _, 0) => return Char.ofNat bits :: (← decodeFrom (position + 1) none bs)
    | some (bits, least, greatest, missing) =>
      decodeFrom (position + 1) (some ⟨b, position, 1, bits, least, greatest, missing⟩) bs
  | some o, b :: bs =>
    if o.least ≤ b.toNat ∧ b.toNat ≤ o.greatest then
      let bits := o.bits * 64 + b.toNat % 64
      if o.missing ≤ 1 then return Char.ofNat bits :: (← decodeFrom (position + 1) none bs)
      else
        decodeFrom (position + 1)
          (some ⟨o.byte, o.position, o.length + 1, bits, 0x80, 0xBF, o.missing - 1⟩) bs
    else .error ⟨o.byte, o.position, o.length, .continuation⟩

/-- The text that the bytes encode. -/
def decodeUtf8 (bytes : List UInt8) : Except DecodeError String :=
  (decodeFrom 0 none bytes).map String.ofList

end CommandBatch.Files
