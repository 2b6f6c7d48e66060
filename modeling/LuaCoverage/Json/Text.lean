import LuaCoverage.Decimal.Integer
import LuaCoverage.Json.Basic

/-!
# JSON strings

A string is read as a list of code units: a character, or the number of a `\u` escape. Two units
that form a surrogate pair are one character, and a surrogate alone shows as U+FFFD.

Writing keeps to ASCII: every other character becomes one or two escapes.

Results:
* `Json.ofUnits_chars`: units that are characters stand for themselves.
-/

namespace LuaCoverage
open LuaCoverage.Text

namespace Json

/-- Whether a code unit is the first half of a surrogate pair. -/
def isHighSurrogate (n : Nat) : Bool := 0xd800 ≤ n && n < 0xdc00

/-- Whether a code unit is the second half of a surrogate pair. -/
def isLowSurrogate (n : Nat) : Bool := 0xdc00 ≤ n && n < 0xe000

/-- The character of a code point, U+FFFD for a surrogate. -/
def charOfUnit (n : Nat) : Char :=
  if isHighSurrogate n || isLowSurrogate n then '\ufffd' else Char.ofNat n

/-- The characters of a list of code units. -/
def ofUnits : List Nat → List Char
  | [] => []
  | [n] => [charOfUnit n]
  | m :: n :: rest =>
    if isHighSurrogate m && isLowSurrogate n then
      Char.ofNat (0x10000 + (m - 0xd800) * 0x400 + (n - 0xdc00)) :: ofUnits rest
    else charOfUnit m :: ofUnits (n :: rest)

/-- A character is no surrogate. -/
theorem charOfUnit_toNat (c : Char) : charOfUnit c.toNat = c := by
  have h := c.valid
  simp only [UInt32.isValidChar, Nat.isValidChar] at h
  have hs : (isHighSurrogate c.toNat || isLowSurrogate c.toNat) = false := by
    simp only [isHighSurrogate, isLowSurrogate, Char.toNat, Bool.or_eq_false_iff,
      Bool.and_eq_false_iff, decide_eq_false_iff_not]
    omega
  simp [charOfUnit, hs]

theorem ofUnits_chars (text : List Char) : ofUnits (text.map Char.toNat) = text := by
  induction text with
  | nil => rfl
  | cons c rest ih =>
    cases rest with
    | nil => simp [ofUnits, charOfUnit_toNat]
    | cons d rest =>
      have h := c.valid
      simp only [UInt32.isValidChar, Nat.isValidChar] at h
      have hs : isHighSurrogate c.toNat = false := by
        simp only [isHighSurrogate, Char.toNat, Bool.and_eq_false_iff, decide_eq_false_iff_not]
        omega
      simp only [List.map_cons] at ih ⊢
      rw [ofUnits, hs]
      simp [ih, charOfUnit_toNat]

/-- The character of an escape of one letter. -/
def simpleEscape? (c : Char) : Option Char :=
  if c = '"' then some '"'
  else if c = '\\' then some '\\'
  else if c = '/' then some '/'
  else if c = 'b' then some '\x08'
  else if c = 'f' then some '\x0c'
  else if c = 'n' then some '\n'
  else if c = 'r' then some '\r'
  else if c = 't' then some '\t'
  else none

def hexUnit? (a b c d : Char) : Option Nat := do
  let a ← hexValue? a
  let b ← hexValue? b
  let c ← hexValue? c
  let d ← hexValue? d
  some (((a * 16 + b) * 16 + c) * 16 + d)

/-- Puts a code unit in front of those that follow. -/
def consUnit (n : Nat) (result : Except Failure (List Nat × Rest)) :
    Except Failure (List Nat × Rest) :=
  result.map fun (units, rest) => (n :: units, rest)

/-- Reads the code units of a string up to its closing quote. `start` is the place of its opening
quote, `place` the place of the first character. An escape needs a character behind it. -/
def readUnits (start place : Nat) : List Char → Except Failure (List Nat × Rest)
  | [] => .error ⟨.openString, start⟩
  | '"' :: rest => .ok ([], ⟨place + 1, rest⟩)
  | ['\\'] => .error ⟨.openString, start⟩
  | '\\' :: 'u' :: a :: b :: c :: d :: rest =>
    match hexUnit? a b c d with
    | some n =>
      if rest.isEmpty then .error ⟨.badUnicodeEscape, place + 1⟩
      else consUnit n (readUnits start (place + 6) rest)
    | none => .error ⟨.badUnicodeEscape, place + 1⟩
  | '\\' :: 'u' :: _ => .error ⟨.badUnicodeEscape, place + 1⟩
  | '\\' :: c :: rest =>
    match simpleEscape? c with
    | some e => consUnit e.toNat (readUnits start (place + 2) rest)
    | none => .error ⟨.badEscape, place⟩
  | c :: rest =>
    if c.toNat < 0x20 then .error ⟨.controlCharacter, place⟩
    else consUnit c.toNat (readUnits start (place + 1) rest)

/-- Reads a string whose opening quote is at the front. -/
def readString (r : Rest) : Except Failure (String × Rest) :=
  (readUnits r.place (r.place + 1) (r.chars.drop 1)).map fun (units, rest) =>
    (String.ofList (ofUnits units), rest)

/-- How a character is written in a string. -/
def escape (c : Char) : List Char :=
  if c = '"' then ['\\', '"']
  else if c = '\\' then ['\\', '\\']
  else if c = '\n' then ['\\', 'n']
  else if c = '\r' then ['\\', 'r']
  else if c = '\t' then ['\\', 't']
  else if c = '\x08' then ['\\', 'b']
  else if c = '\x0c' then ['\\', 'f']
  else if 0x20 ≤ c.toNat && c.toNat < 0x7f then [c]
  else if c.toNat < 0x10000 then '\\' :: 'u' :: hexDigits 4 c.toNat
  else
    let n := c.toNat - 0x10000
    ('\\' :: 'u' :: hexDigits 4 (0xd800 + n / 0x400))
      ++ ('\\' :: 'u' :: hexDigits 4 (0xdc00 + n % 0x400))

def quote (text : String) : String :=
  String.ofList ('"' :: text.toList.flatMap escape ++ ['"'])

end Json

end LuaCoverage
