import LuaCoverage.Decimal.Integer

/-!
# UTF-8

The encoding of text as bytes, and three ways back: `decode` names the first fault, `decodeLossy`
puts U+FFFD for every maximal ill-formed part, and `parts` shows both kinds of part as they stand.

The range of the second byte depends on the first (RFC 3629 §4), so overlong forms, surrogates
and code points above U+10FFFF are faults at their second byte.

Results:
* `Part.width_pos`: every part takes at least one byte.
* `encode_append`: the encoding is a homomorphism.
-/

namespace LuaCoverage.Text

abbrev Bytes := List UInt8

namespace Utf8

/-- Why a run of bytes is ill-formed. -/
inductive Fault
  | invalidStart
  | invalidContinuation
  | unexpectedEnd
  deriving DecidableEq, Repr

def Fault.message : Fault → String
  | .invalidStart => "invalid start byte"
  | .invalidContinuation => "invalid continuation byte"
  | .unexpectedEnd => "unexpected end of data"

/-- What a byte that starts a longer character promises: how many bytes follow, the range of the
first of them, and the leading bits. -/
structure Lead where
  trailing : Nat
  low : UInt8
  high : UInt8
  bits : Nat

/-- The promise of a first byte above ASCII. -/
def lead? (b : UInt8) : Option Lead :=
  if 0xc2 ≤ b && b ≤ 0xdf then some ⟨1, 0x80, 0xbf, b.toNat - 0xc0⟩
  else if b == 0xe0 then some ⟨2, 0xa0, 0xbf, 0⟩
  else if b == 0xed then some ⟨2, 0x80, 0x9f, 0xd⟩
  else if 0xe1 ≤ b && b ≤ 0xef then some ⟨2, 0x80, 0xbf, b.toNat - 0xe0⟩
  else if b == 0xf0 then some ⟨3, 0x90, 0xbf, 0⟩
  else if 0xf1 ≤ b && b ≤ 0xf3 then some ⟨3, 0x80, 0xbf, b.toNat - 0xf0⟩
  else if b == 0xf4 then some ⟨3, 0x80, 0x8f, 4⟩
  else none

/-- One character or one maximal ill-formed run, with the number of its bytes. -/
inductive Part
  | char (c : Char) (width : Nat)
  | illFormed (fault : Fault) (width : Nat)
  deriving DecidableEq, Repr

/-- The number of bytes of a part. -/
def Part.width : Part → Nat
  | .char _ width => width
  | .illFormed _ width => width

/-- The character that stands for a part in a lossy decoding. -/
def Part.toChar : Part → Char
  | .char c _ => c
  | .illFormed _ _ => '\ufffd'

/-- Reads the `missing` bytes that a first byte promised; `code` and `width` sum up the bytes
read so far. -/
def trail : (missing : Nat) → (low high : UInt8) → (code width : Nat) → Bytes → Part
  | 0, _, _, code, width, _ => .char (Char.ofNat code) width
  | _ + 1, _, _, _, width, [] => .illFormed .unexpectedEnd width
  | missing + 1, low, high, code, width, b :: rest =>
    if low ≤ b && b ≤ high then
      trail missing 0x80 0xbf (code * 64 + (b.toNat - 0x80)) (width + 1) rest
    else .illFormed .invalidContinuation width

/-- The part at the front of `b :: rest`. -/
def part (b : UInt8) (rest : Bytes) : Part :=
  if b < 0x80 then .char (Char.ofNat b.toNat) 1
  else match lead? b with
    | some lead => trail lead.trailing lead.low lead.high lead.bits 1 rest
    | none => .illFormed .invalidStart 1

theorem trail_width_le (missing : Nat) : ∀ (low high : UInt8) (code width : Nat) (bytes : Bytes),
    width ≤ (trail missing low high code width bytes).width := by
  induction missing with
  | zero => intro low high code width bytes; simp [trail, Part.width]
  | succ missing ih =>
    intro low high code width bytes
    cases bytes with
    | nil => simp [trail, Part.width]
    | cons b rest =>
      simp only [trail]
      split
      · exact Nat.le_trans (Nat.le_succ width) (ih ..)
      · simp [Part.width]

/-- Every part takes at least one byte. -/
theorem Part.width_pos (b : UInt8) (rest : Bytes) : 0 < (part b rest).width := by
  unfold part
  split
  · simp [Part.width]
  · split
    · exact trail_width_le ..
    · simp [Part.width]

/-- The parts of a byte string whose first `skip` bytes belong to a part already taken. -/
def partsFrom : (skip : Nat) → Bytes → List Part
  | _, [] => []
  | skip + 1, _ :: rest => partsFrom skip rest
  | 0, b :: rest =>
    let front := part b rest
    front :: partsFrom (front.width - 1) rest

/-- A byte string cut into characters and maximal ill-formed runs. -/
def parts (bytes : Bytes) : List Part := partsFrom 0 bytes

/-- The characters of a byte string, U+FFFD for every ill-formed part. -/
def decodeLossy (bytes : Bytes) : List Char := (parts bytes).map Part.toChar

/-- The first ill-formed part of a byte string: the bytes from `start` up to `stop`. -/
structure DecodeError where
  first : UInt8
  start : Nat
  stop : Nat
  fault : Fault
  deriving DecidableEq, Repr

/-- The wording of a fault with the bytes it concerns. -/
def DecodeError.message (e : DecodeError) : String :=
  let bytes :=
    if e.stop = e.start + 1 then
      "byte 0x" ++ String.ofList (hexDigits 2 e.first.toNat) ++ " in position "
        ++ Decimal.natText e.start
    else "bytes in position " ++ Decimal.natText e.start ++ "-" ++ Decimal.natText (e.stop - 1)
  "'utf-8' codec can't decode " ++ bytes ++ ": " ++ e.fault.message

/-- Decodes the bytes behind position `start`, of which `skip` are already accounted for. -/
def decodeFrom : (skip start : Nat) → Bytes → Except DecodeError (List Char)
  | _, _, [] => .ok []
  | skip + 1, start, _ :: rest => decodeFrom skip (start + 1) rest
  | 0, start, b :: rest =>
    match part b rest with
    | .illFormed fault width => .error ⟨b, start, start + width, fault⟩
    | .char c width => (decodeFrom (width - 1) (start + 1) rest).map (c :: ·)

/-- The characters of a well-formed byte string. -/
def decode (bytes : Bytes) : Except DecodeError (List Char) := decodeFrom 0 0 bytes

def encodeChar (c : Char) : Bytes :=
  let n := c.toNat
  if n < 0x80 then [UInt8.ofNat n]
  else if n < 0x800 then [UInt8.ofNat (0xc0 + n / 64), UInt8.ofNat (0x80 + n % 64)]
  else if n < 0x10000 then
    [UInt8.ofNat (0xe0 + n / 4096), UInt8.ofNat (0x80 + n / 64 % 64),
      UInt8.ofNat (0x80 + n % 64)]
  else
    [UInt8.ofNat (0xf0 + n / 262144), UInt8.ofNat (0x80 + n / 4096 % 64),
      UInt8.ofNat (0x80 + n / 64 % 64), UInt8.ofNat (0x80 + n % 64)]

def encode (text : List Char) : Bytes := text.flatMap encodeChar

theorem encode_append (a b : List Char) : encode (a ++ b) = encode a ++ encode b := by
  simp [encode]

def ofString (text : String) : Bytes := encode text.toList

/-- The string that a byte string shows, U+FFFD for every ill-formed part. -/
def toStringLossy (bytes : Bytes) : String := String.ofList (decodeLossy bytes)

end Utf8

end LuaCoverage.Text
