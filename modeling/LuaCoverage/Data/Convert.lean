import LuaCoverage.Data.Show

/-!
# Reading values

What is expected of a value, and why it may not be met: an integer, a mapping with an entry, a
list. A number with a fraction is cut off to an integer, a text is read as one.

Results:
* `Value.toInt_int`: an integer is read as itself.
-/

namespace LuaCoverage
open LuaCoverage.Decimal

/-- Why a value is not what was expected. -/
inductive Mismatch
  | missing (key : String)
  | noNumber (typeName : String)
  | noInteger (s : Scalar)
  | nanInteger
  | infiniteInteger
  | noEntries (typeName : String)
  | textIndex
  | listIndex
  | noMember (typeName member : String)
  | notIterable (typeName : String)
  | notHashable (typeName : String)
  | negative (what : String) (n : Int)
  deriving DecidableEq, Repr

namespace Mismatch

/-- The groups that mismatches fall into. -/
inductive Group
  | key
  | type
  | value
  | overflow
  | member
  deriving DecidableEq, Repr

def group : Mismatch → Group
  | .missing _ => .key
  | .noNumber _ | .noEntries _ | .textIndex | .listIndex | .notIterable _ | .notHashable _ => .type
  | .noInteger _ | .nanInteger | .negative _ _ => .value
  | .infiniteInteger => .overflow
  | .noMember _ _ => .member

def message : Mismatch → String
  | .missing key => Text.literal key
  | .noNumber typeName =>
    "int() argument must be a string, a bytes-like object or a real number, not '"
      ++ typeName ++ "'"
  | .noInteger s => Decimal.noInteger 10 s.literal
  | .nanInteger => "cannot convert float NaN to integer"
  | .infiniteInteger => "cannot convert float infinity to integer"
  | .noEntries typeName => "'" ++ typeName ++ "' object is not subscriptable"
  | .textIndex => "string indices must be integers, not 'str'"
  | .listIndex => "list indices must be integers or slices, not str"
  | .noMember typeName member =>
    "'" ++ typeName ++ "' object has no attribute '" ++ member ++ "'"
  | .notIterable typeName => "'" ++ typeName ++ "' object is not iterable"
  | .notHashable typeName => "unhashable type: '" ++ typeName ++ "'"
  | .negative what n => what ++ " must be non-negative (got: " ++ intText n ++ ")"

end Mismatch

namespace Scalar

/-- The characters of bytes that are all ASCII. -/
def asciiText? (bytes : List UInt8) : Option (List Char) :=
  let chars := bytes.map fun b => Char.ofNat b.toNat
  if chars.all Text.isAscii then some chars else none

def toInt : Scalar → Except Mismatch Int
  | .bool b => .ok (if b then 1 else 0)
  | .int n => .ok n
  | .float .nan => .error .nanInteger
  | .float x =>
    match x.truncate? with
    | some n => .ok n
    | none => .error .infiniteInteger
  | .string s =>
    match readInt s.toList with
    | some n => .ok n
    | none => .error (.noInteger (.string s))
  | .bytes b =>
    match (asciiText? b).bind readInt with
    | some n => .ok n
    | none => .error (.noInteger (.bytes b))
  | other => .error (.noNumber other.typeName)

end Scalar

namespace Value

def toInt : Value → Except Mismatch Int
  | .scalar s => s.toInt
  | other => .error (.noNumber other.typeName)

@[simp] theorem toInt_int (n : Int) : (Value.int n).toInt = .ok n := rfl

/-- The value of an entry that has to be there. -/
def entry (key : String) : Value → Except Mismatch Value
  | .mapping entries =>
    match lookup entries key with
    | some v => .ok v
    | none => .error (.missing key)
  | .list _ => .error .listIndex
  | .scalar (.string _) => .error .textIndex
  | other => .error (.noEntries other.typeName)

/-- The value of an entry that may be there. -/
def entry? (key : String) : Value → Except Mismatch (Option Value)
  | .mapping entries => .ok (lookup entries key)
  | other => .error (.noMember other.typeName "get")

def toEntries : Value → Except Mismatch (List (Scalar × Value))
  | .mapping entries => .ok entries
  | other => .error (.noMember other.typeName "items")

/-- What is enumerated in a value: the items of a list, the keys of a mapping, the members of a set,
the halves of a pair, the characters of a text, and bytes as numbers. -/
def toItems : Value → Except Mismatch (List Value)
  | .list items => .ok items
  | .mapping entries => .ok (entries.map fun entry => .scalar entry.1)
  | .set members => .ok (members.map .scalar)
  | .pair first second => .ok [first, second]
  | .scalar (.string s) => .ok (s.toList.map fun c => .string (String.ofList [c]))
  | .scalar (.bytes b) => .ok (b.map fun x => .nat x.toNat)
  | other => .error (.notIterable other.typeName)

end Value

end LuaCoverage
