import LuaCoverage.Decimal.Shortest
import LuaCoverage.Text.Literal

/-!
# Values

What a data file holds: scalars, lists, and mappings that keep the order of their entries; some
files also hold sets and pairs. The keys of a mapping and the members of a set are scalars, and no
two of them are equal; numbers are equal if they have the same value, whatever their type, and the
two truth values count as one and zero.

Results:
* `Value.size_pos`: every value counts itself.
* `Value.get?_put_self`: an entry is found where it was put.
* `Value.same_iff`: values that look the same are equal.
-/

namespace LuaCoverage
open LuaCoverage.Decimal

/-- A day. -/
structure Date where
  year : Nat
  month : Nat
  day : Nat
  deriving DecidableEq, Repr

/-- A moment of a day, with the minutes that its clock is ahead, if they are known. -/
structure Moment where
  date : Date
  hour : Nat
  minute : Nat
  second : Nat
  micros : Nat
  ahead : Option Int
  deriving DecidableEq, Repr

/-- A value without parts. -/
inductive Scalar
  | null
  | bool (b : Bool)
  | int (n : Int)
  | float (x : Binary64)
  | string (s : String)
  | date (d : Date)
  | moment (m : Moment)
  | bytes (b : List UInt8)
  deriving DecidableEq, Repr

/-- A value. -/
inductive Value
  | scalar (s : Scalar)
  | list (items : List Value)
  | mapping (entries : List (Scalar × Value))
  | set (members : List Scalar)
  | pair (first second : Value)
  deriving Repr

namespace Scalar

/-- The integer of a scalar that has one; truth values are one and zero. -/
def int? : Scalar → Option Int
  | .bool b => some (if b then 1 else 0)
  | .int n => some n
  | _ => none

/-- Whether two scalars are the same key. -/
def equals (a b : Scalar) : Bool :=
  match a, b with
  | .float x, .float y => x.equals y
  | .float x, other => other.int?.any x.equalsInt
  | other, .float x => other.int?.any x.equalsInt
  | _, _ =>
    match a.int?, b.int? with
    | some m, some n => m == n
    | none, none => a == b
    | _, _ => false

@[simp] theorem equals_string (a b : String) : equals (.string a) (.string b) = (a == b) := by
  simp only [equals, int?]
  rw [Bool.eq_iff_iff]
  simp

end Scalar

namespace Value

def null : Value := .scalar .null

def bool (b : Bool) : Value := .scalar (.bool b)

def int (n : Int) : Value := .scalar (.int n)

def nat (n : Nat) : Value := .int (Int.ofNat n)

def string (s : String) : Value := .scalar (.string s)

/-- A mapping with texts as keys, which have to be distinct. -/
def object (entries : List (String × Value)) : Value :=
  .mapping (entries.map fun (key, value) => (.string key, value))

mutual
/-- The number of values in a value. -/
def size : Value → Nat
  | .scalar _ => 1
  | .list items => sizeItems items + 1
  | .mapping entries => sizeEntries entries + 1
  | .set _ => 1
  | .pair first second => first.size + second.size + 1
/-- The number of values in a list. -/
def sizeItems : List Value → Nat
  | [] => 0
  | v :: rest => v.size + sizeItems rest
/-- The number of values in the entries of a mapping. -/
def sizeEntries : List (Scalar × Value) → Nat
  | [] => 0
  | (_, v) :: rest => v.size + sizeEntries rest
end

theorem size_pos (v : Value) : 0 < v.size := by
  cases v <;> simp [size]

/-- Puts an entry in: in place of the entry with that key, or behind all others. -/
def put (entries : List (Scalar × Value)) (key : Scalar) (value : Value) :
    List (Scalar × Value) :=
  match entries with
  | [] => [(key, value)]
  | (k, v) :: rest => if k.equals key then (k, value) :: rest else (k, v) :: put rest key value

/-- The entries of a list of pairs, in which a later pair replaces the value of an earlier one
with the same key. -/
def ofPairs (pairs : List (Scalar × Value)) : List (Scalar × Value) :=
  pairs.foldl (fun entries pair => put entries pair.1 pair.2) []

/-- The value of a key among entries. -/
def lookup (entries : List (Scalar × Value)) (key : String) : Option Value :=
  (entries.find? fun entry => entry.1.equals (.string key)).map (·.2)

/-- The value of a key, if there is a mapping with that key. -/
def get? (key : String) : Value → Option Value
  | .mapping entries => lookup entries key
  | _ => none

theorem get?_put_self (entries : List (Scalar × Value)) (key : String) (value : Value) :
    lookup (put entries (.string key) value) key = some value := by
  induction entries with
  | nil => simp [put, lookup]
  | cons entry rest ih =>
    simp only [put]
    split
    · next h => simp [lookup, h]
    · next h =>
      simp only [lookup, List.find?_cons, h] at ih ⊢
      exact ih

/-- Whether a value is the empty one. -/
def isNull : Value → Bool
  | .scalar .null => true
  | _ => false

/-- Whether a value is empty, zero or false. -/
def isFalsy : Value → Bool
  | .scalar .null => true
  | .scalar (.bool b) => !b
  | .scalar (.int n) => n == 0
  | .scalar (.float x) => x.isZero
  | .scalar (.string s) => s.isEmpty
  | .scalar (.bytes b) => b.isEmpty
  | .scalar _ => false
  | .list items => items.isEmpty
  | .mapping entries => entries.isEmpty
  | .set members => members.isEmpty
  | .pair _ _ => false

end Value

end LuaCoverage

/-! ## Equality -/

namespace LuaCoverage.Value

mutual
def same : Value → Value → Bool
  | .scalar s, .scalar t => s = t
  | .list items, .list others => sameItems items others
  | .mapping entries, .mapping others => sameEntries entries others
  | .set members, .set others => members = others
  | .pair a b, .pair c d => a.same c && b.same d
  | _, _ => false
/-- Whether the items of two lists look the same. -/
def sameItems : List Value → List Value → Bool
  | [], [] => true
  | v :: rest, w :: others => v.same w && sameItems rest others
  | _, _ => false
/-- Whether the entries of two mappings look the same. -/
def sameEntries : List (Scalar × Value) → List (Scalar × Value) → Bool
  | [], [] => true
  | (k, v) :: rest, (l, w) :: others => k = l && (v.same w && sameEntries rest others)
  | _, _ => false
end

mutual
theorem same_iff : ∀ {v w : Value}, v.same w = true ↔ v = w
  | .scalar s, w => by cases w <;> simp [same]
  | .list items, w => by cases w <;> simp [same, sameItems_iff]
  | .mapping entries, w => by cases w <;> simp [same, sameEntries_iff]
  | .set members, w => by cases w <;> simp [same]
  | .pair a b, w => by cases w <;> simp [same, same_iff]
theorem sameItems_iff :
    ∀ {items others : List Value}, sameItems items others = true ↔ items = others
  | [], others => by cases others <;> simp [sameItems]
  | v :: rest, others => by cases others <;> simp [sameItems, same_iff, sameItems_iff]
theorem sameEntries_iff : ∀ {entries others : List (Scalar × Value)},
    sameEntries entries others = true ↔ entries = others
  | [], others => by cases others <;> simp [sameEntries]
  | (k, v) :: rest, others => by
    cases others <;> simp [sameEntries, same_iff, sameEntries_iff, Prod.ext_iff, and_assoc]
end

instance : DecidableEq Value := fun _ _ => decidable_of_iff _ same_iff

end LuaCoverage.Value
