import LuaCoverage.Counter.Tally
import LuaCoverage.Data.Convert
import LuaCoverage.Data.Table
import LuaCoverage.Text.Order

/-!
# The counter store

A store counts the hits of registered modules. A hit that no registered module has a counter for
is *stale*: it is dropped, and tallied under the reference it came with, in the order in which the
references were first seen.

Adding is two steps, each of which sees the store at one moment: the counter is looked up and
raised, or else the reference is tallied. A snapshot of a store is its value at a moment.

The counts of a module are paired with the probes of its map; there have to be as many of one as
of the other. Modules are taken in the order of their paths.

Results:
* `Store.tally?_register`: a registered module starts from zero.
* `Store.add_eq_error_iff`: only a negative amount is refused.
* `pair_eq_ok_iff`: pairing succeeds if and only if the lengths agree.
* `ProbeMap.sort_perm`, `ProbeMap.mem_sort`: sorting keeps the maps.
-/

namespace LuaCoverage
open LuaCoverage.Decimal

/-- What a hit refers to, as it was given: the path may be any scalar, the kind any text. -/
structure Reference where
  path : Scalar
  kind : String
  id : Int
  arm : Option Int
  deriving DecidableEq, Repr

namespace Reference

def equals (a b : Reference) : Bool :=
  a.path.equals b.path && a.kind == b.kind && a.id == b.id && a.arm == b.arm

end Reference

/-- Hits that were dropped. -/
structure StaleHits where
  reference : Reference
  hits : Int
  deriving DecidableEq, Repr

/-- The wording for hits that were dropped. -/
def StaleHits.message (s : StaleHits) : String :=
  let arm := (s.reference.arm.map fun a => "[" ++ intText a ++ "]").getD ""
  "dropped " ++ intText s.hits ++ " hit(s) for unknown " ++ s.reference.kind ++ " probe "
    ++ intText s.reference.id ++ arm

/-- Counts of registered modules, and dropped hits. -/
structure Store where
  tallies : List Tally
  stale : List StaleHits
  deriving DecidableEq, Repr

/-- An amount below zero. -/
structure NegativeAmount where
  amount : Int
  deriving DecidableEq, Repr

def NegativeAmount.message (e : NegativeAmount) : String :=
  "hit counts only grow (got amount " ++ intText e.amount ++ ")"

namespace Store

def empty : Store := ⟨[], []⟩

def tally? (s : Store) (path : String) : Option Tally :=
  s.tallies.find? fun t => t.path == path

def isRegistered (s : Store) (path : String) : Bool := (s.tally? path).isSome

/-- Puts the counts of a module in place of those it had, or behind all others. -/
def putTally (t : Tally) : List Tally → List Tally
  | [] => [t]
  | u :: rest => if u.path = t.path then t :: rest else u :: putTally t rest

/-- Registers a module: its counters start from zero. -/
def register (s : Store) (m : ProbeMap) : Store :=
  { s with tallies := putTally (Tally.ofMap m) s.tallies }

theorem find?_putTally (t : Tally) (tallies : List Tally) :
    (putTally t tallies).find? (fun u => u.path == t.path) = some t := by
  induction tallies with
  | nil => simp [putTally]
  | cons u rest ih =>
    simp only [putTally]
    split
    · simp
    · next h => simpa [h] using ih

theorem tally?_register (s : Store) (m : ProbeMap) :
    (s.register m).tally? m.path = some (Tally.ofMap m) :=
  find?_putTally (Tally.ofMap m) s.tallies

/-- The first step of adding: raises the counter of a reference, if there is one. -/
def count? (s : Store) (r : Reference) (amount : Int) : Option Store := do
  let kind ← ProbeKind.ofCode? r.kind
  let t ← s.tallies.find? fun t => (Scalar.string t.path).equals r.path
  let t ← t.add? kind r.id r.arm amount
  some { s with tallies := putTally t s.tallies }

/-- Adds hits to those dropped for a reference. -/
def addStale (r : Reference) (amount : Int) : List StaleHits → List StaleHits
  | [] => [⟨r, amount⟩]
  | entry :: rest =>
    if entry.reference.equals r then ⟨entry.reference, entry.hits + amount⟩ :: rest
    else entry :: addStale r amount rest

/-- The second step of adding: tallies a reference that has no counter. -/
def drop (s : Store) (r : Reference) (amount : Int) : Store :=
  { s with stale := addStale r amount s.stale }

/-- Adds hits, and tells whether they were counted. -/
def add (s : Store) (r : Reference) (amount : Int) : Except NegativeAmount (Bool × Store) :=
  if amount < 0 then .error ⟨amount⟩
  else
    match s.count? r amount with
    | some s' => .ok (true, s')
    | none => .ok (false, s.drop r amount)

theorem add_eq_error_iff (s : Store) (r : Reference) (amount : Int) :
    (∃ e, s.add r amount = .error e) ↔ amount < 0 := by
  unfold add
  split
  · simp_all
  · split <;> simp_all

/-- Adds one hit, and tells whether it was counted. -/
def increment (s : Store) (r : Reference) : Bool × Store :=
  match s.count? r 1 with
  | some s' => (true, s')
  | none => (false, s.drop r 1)

end Store

/-- A wrong number of arguments of a probe hit. -/
structure ArityError where
  given : Nat
  deriving DecidableEq, Repr

namespace ArityError

/-- The arguments that a probe hit needs. -/
def needed : List String := ["'path'", "'kind'", "'probe_id'"]

def message (e : ArityError) : String :=
  let call := "CounterStore.recorder.<locals>.record() "
  match needed.drop e.given with
  | [] => call ++ "takes from 3 to 4 positional arguments but " ++ natText e.given ++ " were given"
  | [a] => call ++ "missing 1 required positional argument: " ++ a
  | [a, b] => call ++ "missing 2 required positional arguments: " ++ a ++ " and " ++ b
  | a :: rest =>
    call ++ "missing " ++ natText (rest.length + 1) ++ " required positional arguments: " ++ a
      ++ ", " ++ ", and ".intercalate rest

end ArityError

namespace Store

/-- The reference of a probe hit with arguments of any kind, if they make one. -/
def reference? (path kind id : Value) (arm : Option Value) : Option Reference := do
  let id ← id.toInt.toOption
  let arm ←
    match arm with
    | none => some none
    | some v => if v.isNull then some none else v.toInt.toOption.map some
  match path with
  | .scalar path => some ⟨path, kind.shown, id, arm⟩
  | _ => none

/-- Records a probe hit with arguments of any kind. One that cannot be read changes nothing. -/
def record (s : Store) (path kind id : Value) (arm : Option Value) : Store :=
  match reference? path kind id arm with
  | some r => (s.increment r).2
  | none => s

/-- Records a probe hit with a list of arguments, of which the arm may be left out. -/
def recordAll (s : Store) : List Value → Except ArityError Store
  | [path, kind, id] => .ok (s.record path kind id none)
  | [path, kind, id, arm] => .ok (s.record path kind id (some arm))
  | args => .error ⟨args.length⟩

end Store

/-! ## Probes with their counts -/

/-- Counts of another number than the probes: whether there are fewer of them. -/
structure LengthError where
  isShorter : Bool
  deriving DecidableEq, Repr

def LengthError.message (e : LengthError) : String :=
  "zip() argument 2 is " ++ (if e.isShorter then "shorter" else "longer") ++ " than argument 1"

def pair {α β : Type} (probes : List α) (counts : List β) : Except LengthError (List (α × β)) :=
  if counts.length = probes.length then .ok (probes.zip counts)
  else .error ⟨counts.length < probes.length⟩

theorem pair_eq_ok_iff {α β : Type} (probes : List α) (counts : List β) :
    (∃ pairs, pair probes counts = .ok pairs) ↔ counts.length = probes.length := by
  unfold pair
  split <;> simp_all

namespace Store

/-- The counts of the module of a map, zero if there are none. -/
def tallyFor (s : Store) (m : ProbeMap) : Tally := (s.tally? m.path).getD (Tally.ofMap m)

end Store

namespace ProbeMap

/-- The maps in the order of their paths. -/
def sort (maps : List ProbeMap) : List ProbeMap :=
  maps.mergeSort fun a b => Text.precedes a.path b.path

theorem sort_perm (maps : List ProbeMap) : (sort maps).Perm maps := List.mergeSort_perm ..

@[simp] theorem mem_sort {maps : List ProbeMap} {m : ProbeMap} : m ∈ sort maps ↔ m ∈ maps :=
  List.mem_mergeSort

end ProbeMap

end LuaCoverage
