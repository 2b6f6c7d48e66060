import LuaCoverage.Json.Text

/-!
# Reading JSON

The grammar of JSON, with `NaN`, `Infinity` and `-Infinity` as numbers. A number with a fraction
or an exponent is a binary64 number, any other is an integer of any size. Of two entries with the
same name the later one counts, in the place of the earlier one.

The reader carries a bound on its depth, which `parse` takes from the length of the text.
-/

namespace LuaCoverage
open LuaCoverage.Decimal LuaCoverage.Text

namespace Json

def digitsValue (ds : List Char) : Nat := ds.foldl (fun n c => n * 10 + (c.toNat - 0x30)) 0

/-- The parts of a number: sign, whole digits, digits behind the point, exponent. -/
structure Numeral where
  negative : Bool
  whole : List Char
  places : Option (List Char)
  exponent : Option (Bool × List Char)

namespace Numeral

def value (n : Numeral) : Scalar :=
  if n.places.isNone && n.exponent.isNone then
    let magnitude := Int.ofNat (digitsValue n.whole)
    .int (if n.negative then -magnitude else magnitude)
  else
    let places := n.places.getD []
    let shift :=
      match n.exponent with
      | some (true, ds) => -Int.ofNat (digitsValue ds)
      | some (false, ds) => Int.ofNat (digitsValue ds)
      | none => 0
    .float (Binary64.ofDecimal n.negative (digitsValue (n.whole ++ places))
      (shift - places.length))

end Numeral

/-- The digits behind a point, if there is at least one. -/
def readPlaces (cs : List Char) : Option (List Char) × List Char :=
  match cs with
  | '.' :: rest =>
    let ds := rest.takeWhile isAsciiDigit
    if ds.isEmpty then (none, cs) else (some ds, rest.dropWhile isAsciiDigit)
  | _ => (none, cs)

/-- The digits of an exponent with its sign, if there is at least one. -/
def readExponent (cs : List Char) : Option (Bool × List Char) × List Char :=
  match cs with
  | e :: rest =>
    if e = 'e' || e = 'E' then
      let (negative, digits) :=
        match rest with
        | '-' :: ds => (true, ds)
        | '+' :: ds => (false, ds)
        | ds => (false, ds)
      let ds := digits.takeWhile isAsciiDigit
      if ds.isEmpty then (none, cs) else (some (negative, ds), digits.dropWhile isAsciiDigit)
    else (none, cs)
  | [] => (none, [])

/-- The whole digits of a number: a zero, or digits that do not start with one. -/
def readWhole (cs : List Char) : Option (List Char × List Char) :=
  match cs with
  | '0' :: rest => some (['0'], rest)
  | c :: _ =>
    if isAsciiDigit c then some (cs.takeWhile isAsciiDigit, cs.dropWhile isAsciiDigit) else none
  | [] => none

/-- Whether a number is negative, and its text behind the sign. -/
def readSign : List Char → Bool × List Char
  | '-' :: rest => (true, rest)
  | rest => (false, rest)

def readNumber (r : Rest) : Except Failure (Scalar × Rest) :=
  let (negative, digits) := readSign r.chars
  match readWhole digits with
  | none => r.fail .noValue
  | some (whole, rest) =>
    let (places, rest) := readPlaces rest
    let (exponent, rest) := readExponent rest
    .ok (Numeral.value ⟨negative, whole, places, exponent⟩,
      ⟨r.place + (r.chars.length - rest.length), rest⟩)

def words : List (String × Scalar) :=
  [("null", .null), ("true", .bool true), ("false", .bool false), ("NaN", .float .nan),
    ("Infinity", .float (.infinity false)), ("-Infinity", .float (.infinity true))]

def readScalar (r : Rest) : Except Failure (Scalar × Rest) :=
  match words.find? fun (word, _) => word.toList.isPrefixOf r.chars with
  | some (word, s) => .ok (s, r.advance word.length)
  | none => readNumber r

mutual
/-- Reads a value that starts at the front. -/
def readValue : (depth : Nat) → Rest → Except Failure (Value × Rest)
  | 0, r => r.fail .noValue
  | depth + 1, r =>
    match r.chars with
    | '"' :: _ => (readString r).map fun (s, rest) => (.string s, rest)
    | '\x7b' :: _ => do
      let inside := (r.advance 1).skip
      if inside.chars.head? = some '\x7d' then .ok (.mapping [], inside.advance 1)
      else
        let (pairs, rest) ← readEntries depth inside
        .ok (.mapping (Value.ofPairs pairs), rest)
    | '[' :: _ => do
      let inside := (r.advance 1).skip
      if inside.chars.head? = some ']' then .ok (.list [], inside.advance 1)
      else
        let (items, rest) ← readItems depth inside
        .ok (.list items, rest)
    | _ => (readScalar r).map fun (s, rest) => (.scalar s, rest)
/-- Reads the entries of a mapping, up to and including the closing brace. -/
def readEntries : (depth : Nat) → Rest → Except Failure (List (Scalar × Value) × Rest)
  | 0, r => r.fail .noName
  | depth + 1, r => do
    if r.chars.head? ≠ some '"' then r.fail .noName
    else
      let (name, rest) ← readString r
      let colon := rest.skip
      if colon.chars.head? ≠ some ':' then colon.fail .noColon
      else
        let (value, rest) ← readValue depth (colon.advance 1).skip
        let behind := rest.skip
        match behind.chars.head? with
        | some '\x7d' => .ok ([(.string name, value)], behind.advance 1)
        | some ',' =>
          let (more, rest) ← readEntries depth (behind.advance 1).skip
          .ok ((.string name, value) :: more, rest)
        | _ => behind.fail .noComma
/-- Reads the items of a list, up to and including the closing bracket. -/
def readItems : (depth : Nat) → Rest → Except Failure (List Value × Rest)
  | 0, r => r.fail .noValue
  | depth + 1, r => do
    let (value, rest) ← readValue depth r
    let behind := rest.skip
    match behind.chars.head? with
    | some ']' => .ok ([value], behind.advance 1)
    | some ',' =>
      let (more, rest) ← readItems depth (behind.advance 1).skip
      .ok (value :: more, rest)
    | _ => behind.fail .noComma
end

/-- The value that a text stands for. -/
def parseChars (text : List Char) : Except Failure Value := do
  if text.head? = some '\ufeff' then .error ⟨.byteOrderMark, 0⟩
  else
    let (value, rest) ← readValue (2 * text.length + 2) (Rest.mk 0 text).skip
    let behind := rest.skip
    if behind.chars.isEmpty then .ok value else behind.fail .extraData

/-- The value that a text stands for, or the wording of the fault. -/
def parse (text : String) : Except String Value :=
  match parseChars text.toList with
  | .ok value => .ok value
  | .error failure => .error (failure.message text.toList)

end Json

end LuaCoverage
