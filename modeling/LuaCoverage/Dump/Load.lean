import LuaCoverage.Counter.Store
import LuaCoverage.Dump.Basic

/-!
# Loading a dump

The counts of a dump are added to a store one by one: for every module the statements, then the
functions, then the branches. The counts of a branch are a list, one for each arm from the first
on, or a mapping from arms to counts; they are read before any of them is added.

A count that cannot be read ends the loading. What was added before it stays.

Results:
* `Dump.load_nil`: a dump without modules changes nothing.
-/

namespace LuaCoverage

/-- Why a count cannot be added. -/
inductive CountFault
  | mismatch (m : Mismatch)
  | negative (e : NegativeAmount)
  | noArms (typeName : String)
  deriving DecidableEq, Repr

def CountFault.message : CountFault → String
  | .mismatch m => m.message
  | .negative e => e.message
  | .noArms typeName =>
    "branch counts must be a list or an object (got " ++ typeName ++ ")"

/-- A count of a module that cannot be added. -/
structure LoadError where
  path : String
  fault : CountFault
  deriving DecidableEq, Repr

namespace LoadError

/-- Whether the fault is a number beyond all integers. It is passed on as it is. -/
def isOverflow (e : LoadError) : Bool :=
  match e.fault with
  | .mismatch m => m.group == .overflow
  | _ => false

def message (e : LoadError) : String :=
  if e.isOverflow then e.fault.message
  else e.path ++ ": malformed counts (" ++ e.fault.message ++ ")"

end LoadError

/-- Hits of a dump: what they refer to, and their number. -/
structure DumpHits where
  reference : Reference
  amount : Int
  deriving DecidableEq, Repr

namespace Dump

def reading {α : Type} (r : Except Mismatch α) : Except CountFault α :=
  r.mapError CountFault.mismatch

def hitsOf (path : String) (kind : ProbeKind) (id : Int) (arm : Option Int) (amount : Int) :
    Except CountFault DumpHits :=
  if amount < 0 then .error (.negative ⟨amount⟩)
  else .ok ⟨⟨.string path, kind.code, id, arm⟩, amount⟩

/-- The hits of an entry of statements or functions. -/
def plainHits (path : String) (kind : ProbeKind) (entry : Scalar × Value) :
    Except CountFault DumpHits := do
  let id ← reading entry.1.toInt
  let amount ← reading entry.2.toInt
  hitsOf path kind id none amount

/-- The numbers of a list with their arms, from a first one on. -/
def listArms : (arm : Nat) → List Value → Except Mismatch (List (Int × Int))
  | _, [] => .ok []
  | arm, v :: rest => do
    let amount ← v.toInt
    let more ← listArms (arm + 1) rest
    .ok ((Int.ofNat arm, amount) :: more)

/-- The arms of a branch with their numbers. -/
def arms : Value → Except CountFault (List (Int × Int))
  | .list items => reading (listArms 0 items)
  | .mapping entries => reading (entries.mapM fun (key, v) => do
      let arm ← key.toInt
      let amount ← v.toInt
      .ok (arm, amount))
  | other => .error (.noArms other.typeName)

/-- The hits of an entry of branches, each of which may be faulty. -/
def branchHits (path : String) (entry : Scalar × Value) : List (Except CountFault DumpHits) :=
  match arms entry.2 with
  | .error fault => [.error fault]
  | .ok numbers => numbers.map fun (arm, amount) => do
      let id ← reading entry.1.toInt
      hitsOf path .branch id (some arm) amount

/-- The hits of a module in the order in which they are added. -/
def moduleHits (m : DumpModule) : List (Except LoadError DumpHits) :=
  let all := (m.counts .statement).map (plainHits m.path .statement)
    ++ (m.counts .function).map (plainHits m.path .function)
    ++ (m.counts .branch).flatMap (branchHits m.path)
  all.map fun hits => hits.mapError fun fault => ⟨m.path, fault⟩

/-- The hits of a dump in the order in which they are added. -/
def hits (d : Dump) : List (Except LoadError DumpHits) := d.modules.flatMap moduleHits

/-- Adds hits to a store up to the first faulty one. `applied` is the number counted so far. -/
def addHits (s : Store) (applied : Int) :
    List (Except LoadError DumpHits) → Except LoadError Int × Store
  | [] => (.ok applied, s)
  | .error e :: _ => (.error e, s)
  | .ok h :: rest =>
    match s.count? h.reference h.amount with
    | some s' => addHits s' (applied + h.amount) rest
    | none => addHits (s.drop h.reference h.amount) applied rest

/-- Adds a dump to a store: the number of hits that were counted, or the error that ended the
loading, and the store behind it. -/
def load (d : Dump) (s : Store) : Except LoadError Int × Store := addHits s 0 d.hits

theorem load_nil (s : Store) : load ⟨[]⟩ s = (.ok 0, s) := rfl

end Dump

end LuaCoverage
