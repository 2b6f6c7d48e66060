import LuaCoverage.Decimal.Integer
import LuaCoverage.Text.Utf8

/-!
# SHA-256

The hash function of FIPS 180-4 on byte strings, and the short fingerprint of a source: the first
eight bytes of its hash.

Results:
* `length_fingerprint`: a fingerprint has sixteen digits.
-/

namespace LuaCoverage.Digest
open LuaCoverage.Text

namespace Sha256

def constants : List UInt32 :=
  [0x428a2f98, 0x71374491, 0xb5c0fbcf, 0xe9b5dba5, 0x3956c25b, 0x59f111f1, 0x923f82a4, 0xab1c5ed5,
   0xd807aa98, 0x12835b01, 0x243185be, 0x550c7dc3, 0x72be5d74, 0x80deb1fe, 0x9bdc06a7, 0xc19bf174,
   0xe49b69c1, 0xefbe4786, 0x0fc19dc6, 0x240ca1cc, 0x2de92c6f, 0x4a7484aa, 0x5cb0a9dc, 0x76f988da,
   0x983e5152, 0xa831c66d, 0xb00327c8, 0xbf597fc7, 0xc6e00bf3, 0xd5a79147, 0x06ca6351, 0x14292967,
   0x27b70a85, 0x2e1b2138, 0x4d2c6dfc, 0x53380d13, 0x650a7354, 0x766a0abb, 0x81c2c92e, 0x92722c85,
   0xa2bfe8a1, 0xa81a664b, 0xc24b8b70, 0xc76c51a3, 0xd192e819, 0xd6990624, 0xf40e3585, 0x106aa070,
   0x19a4c116, 0x1e376c08, 0x2748774c, 0x34b0bcb5, 0x391c0cb3, 0x4ed8aa4a, 0x5b9cca4f, 0x682e6ff3,
   0x748f82ee, 0x78a5636f, 0x84c87814, 0x8cc70208, 0x90befffa, 0xa4506ceb, 0xbef9a3f7, 0xc67178f2]

/-- The eight words that are carried from block to block. -/
structure State where
  a : UInt32
  b : UInt32
  c : UInt32
  d : UInt32
  e : UInt32
  f : UInt32
  g : UInt32
  h : UInt32

/-- The state in front of the first block. -/
def State.initial : State :=
  ⟨0x6a09e667, 0xbb67ae85, 0x3c6ef372, 0xa54ff53a, 0x510e527f, 0x9b05688c, 0x1f83d9ab, 0x5be0cd19⟩

def State.words (s : State) : List UInt32 := [s.a, s.b, s.c, s.d, s.e, s.f, s.g, s.h]

/-- The sums of two states, word by word. -/
def State.add (s t : State) : State :=
  ⟨s.a + t.a, s.b + t.b, s.c + t.c, s.d + t.d, s.e + t.e, s.f + t.f, s.g + t.g, s.h + t.h⟩

def rotate (x : UInt32) (n : UInt32) : UInt32 := (x >>> n) ||| (x <<< (32 - n))

/-- One round with its constant and its word of the schedule. -/
def round (s : State) (k w : UInt32) : State :=
  let s1 := rotate s.e 6 ^^^ rotate s.e 11 ^^^ rotate s.e 25
  let choice := (s.e &&& s.f) ^^^ (~~~s.e &&& s.g)
  let t1 := s.h + s1 + choice + k + w
  let s0 := rotate s.a 2 ^^^ rotate s.a 13 ^^^ rotate s.a 22
  let majority := (s.a &&& s.b) ^^^ (s.a &&& s.c) ^^^ (s.b &&& s.c)
  ⟨t1 + (s0 + majority), s.a, s.b, s.c, s.d + t1, s.e, s.f, s.g⟩

/-- The next word of a schedule whose last sixteen words are given, the last one first. -/
def nextWord (recent : List UInt32) : UInt32 :=
  let x := recent[1]?.getD 0
  let y := recent[14]?.getD 0
  let s1 := rotate x 17 ^^^ rotate x 19 ^^^ (x >>> 10)
  let s0 := rotate y 7 ^^^ rotate y 18 ^^^ (y >>> 3)
  recent[15]?.getD 0 + s0 + recent[6]?.getD 0 + s1

/-- A schedule made longer by some words, the last word first. -/
def extend : (count : Nat) → List UInt32 → List UInt32
  | 0, words => words
  | count + 1, words => extend count (nextWord words :: words)

/-- The state behind a block of sixteen words. -/
def block (s : State) (words : List UInt32) : State :=
  let schedule := (extend 48 words.reverse).reverse
  ((constants.zip schedule).foldl (fun t (k, w) => round t k w) s).add s

def bigEndian : (count : Nat) → Nat → Bytes
  | 0, _ => []
  | count + 1, n => bigEndian count (n / 256) ++ [UInt8.ofNat n]

/-- A message with its padding: a set bit, zeros, and its length in bits. -/
def pad (message : Bytes) : Bytes :=
  let zeros := (119 - message.length % 64) % 64
  message ++ 0x80 :: List.replicate zeros 0 ++ bigEndian 8 (message.length * 8)

def words : Bytes → List UInt32
  | a :: b :: c :: d :: rest =>
    ((a.toUInt32 <<< 24) ||| (b.toUInt32 <<< 16) ||| (c.toUInt32 <<< 8) ||| d.toUInt32)
      :: words rest
  | _ => []

def blocks (s : State) (ws : List UInt32) : State :=
  if _h : ws.length < 16 then s else blocks (block s (ws.take 16)) (ws.drop 16)
termination_by ws.length
decreasing_by simp only [List.length_drop]; omega

/-- The hash of a message, as hexadecimal digits. -/
def digits (message : Bytes) : List Char :=
  (blocks State.initial (words (pad message))).words.flatMap fun w => hexDigits 8 w.toNat

end Sha256

def fingerprint (message : Bytes) : String := String.ofList ((Sha256.digits message).take 16)

theorem length_fingerprint (message : Bytes) : (fingerprint message).length = 16 := by
  simp [fingerprint, Sha256.digits, Sha256.State.words, List.flatMap_cons]

end LuaCoverage.Digest
