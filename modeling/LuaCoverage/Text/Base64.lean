import LuaCoverage.Text.Utf8

/-!
# Base64

The encoding of bytes of RFC 4648 §4: four characters of an alphabet of 64 stand for three bytes,
and equals signs fill up the last four. Characters outside the alphabet are passed over, and
nothing counts behind a complete group that was filled up.

Results:
* `sextet?_lt`: a character of the alphabet stands for less than 64.
* `decode_nil`: an empty text holds no bytes.
-/

namespace LuaCoverage.Text.Base64

/-- The number that a character of the alphabet stands for. -/
def sextet? (c : Char) : Option Nat :=
  let n := c.toNat
  if 0x41 ≤ n ∧ n ≤ 0x5a then some (n - 0x41)
  else if 0x61 ≤ n ∧ n ≤ 0x7a then some (n - 0x61 + 26)
  else if 0x30 ≤ n ∧ n ≤ 0x39 then some (n - 0x30 + 52)
  else if c = '+' then some 62
  else if c = '/' then some 63
  else none

theorem sextet?_lt {c : Char} {n : Nat} (h : sextet? c = some n) : n < 64 := by
  simp only [sextet?] at h
  split at h
  · simp only [Option.some.injEq] at h
    omega
  split at h
  · simp only [Option.some.injEq] at h
    omega
  split at h
  · simp only [Option.some.injEq] at h
    omega
  split at h
  · simp only [Option.some.injEq] at h
    omega
  split at h
  · simp only [Option.some.injEq] at h
    omega
  · simp at h

/-- The numbers that a text stands for, of which `count` were read before, with `fill` equals signs
since. The last group has to be complete; equals signs count from its third character on. -/
def sextets? : (count fill : Nat) → List Char → Option (List Nat)
  | count, _, [] => if count % 4 = 0 then some [] else none
  | count, fill, c :: rest =>
    if c = '=' then
      if count % 4 < 2 then sextets? count fill rest
      else if count % 4 + fill + 1 ≥ 4 then some []
      else sextets? count (fill + 1) rest
    else
      match sextet? c with
      | some n => (sextets? (count + 1) 0 rest).map (n :: ·)
      | none => sextets? count fill rest

/-- The bytes that numbers below 64 make, four of them three bytes. -/
def join : List Nat → Bytes
  | a :: b :: c :: d :: rest =>
    UInt8.ofNat (a * 4 + b / 16) :: UInt8.ofNat (b % 16 * 16 + c / 4)
      :: UInt8.ofNat (c % 4 * 64 + d) :: join rest
  | [a, b, c] => [UInt8.ofNat (a * 4 + b / 16), UInt8.ofNat (b % 16 * 16 + c / 4)]
  | [a, b] => [UInt8.ofNat (a * 4 + b / 16)]
  | [_] => []
  | [] => []

def decode? (text : List Char) : Option Bytes := (sextets? 0 0 text).map join

theorem decode_nil : decode? [] = some [] := rfl

end LuaCoverage.Text.Base64
