import LuaCoverage.Text.Base64
import LuaCoverage.Yaml.Kind
import LuaCoverage.Yaml.Layout

/-!
# Reading YAML

The value of a text: its only document, built from the nodes. The keys of a mapping are scalars;
of two equal keys the later value counts, in the place of the earlier one. The merge key takes in
the entries of other mappings, in front of those that are written out and so below them.

Lists may also be tagged as pairs, every item being a mapping of one entry, and mappings as sets,
of which the keys count.

Results:
* `Yaml.read_nil`: an empty text has no value.
-/

namespace LuaCoverage.Yaml
open LuaCoverage.Text

namespace Node

mutual
/-- The text of a node that has to be a scalar. A mapping may hold it under the key `=`. -/
def scalarText : Node → Except Fault String
  | .scalar _ text => .ok text
  | .list _ _ | .loop => .error .malformed
  | .mapping _ entries => contentText entries
/-- The text that entries hold under the key `=`. -/
def contentText : List (Node × Node) → Except Fault String
  | [] => .error .malformed
  | (k, v) :: rest => if k.kind = .content then v.scalarText else contentText rest
end

def boolOf (text : String) : Except Fault Bool :=
  let word := text.map Char.toLower
  if ["yes", "true", "on"].contains word then .ok true
  else if ["no", "false", "off"].contains word then .ok false
  else .error (.bool word)

/-- The scalar that a text of a kind stands for. -/
def scalarOf (kind : Kind) (text : String) : Except Fault Scalar :=
  match kind with
  | .null => .ok .null
  | .bool => (boolOf text).map .bool
  | .int => (integerOf text.toList).map .int
  | .float => (floatOf text.toList).map .float
  | .timestamp =>
    match readTimestamp? text.toList with
    | some t => t.toScalar.mapError .clock
    | none => .error .timestamp
  | .string => .ok (.string text)
  | .binary =>
    match Base64.decode? text.toList with
    | some b => if text.toList.all isAscii then .ok (.bytes b) else .error .malformed
    | none => .error .malformed
  | .list | .mapping | .set | .pairs | .merge | .content | .unknown => .error .malformed

/-- The value of a node that has no parts. -/
def scalarValue (n : Node) : Except Fault Scalar := do scalarOf n.kind (← n.scalarText)

mutual
/-- The entries that the value of a merge key takes in. -/
def mergedEntries : Node → Except Fault (List (Node × Node))
  | .scalar _ _ => .error .malformed
  | .list _ items => mergedItems items
  | .mapping _ entries => do
    let (merged, own) ← expand entries
    .ok (merged ++ own)
  | .loop => .ok []
/-- The entries of the mappings in a list, those of later mappings in front. -/
def mergedItems : List Node → Except Fault (List (Node × Node))
  | [] => .ok []
  | .mapping _ entries :: rest => do
    let (merged, own) ← expand entries
    let more ← mergedItems rest
    .ok (more ++ (merged ++ own))
  | .loop :: rest => mergedItems rest
  | _ :: _ => .error .malformed
/-- The entries that merge keys take in, and those that are written out. -/
def expand : List (Node × Node) → Except Fault (List (Node × Node) × List (Node × Node))
  | [] => .ok ([], [])
  | (k, v) :: rest => do
    if k.kind = .merge then
      let taken ← mergedEntries v
      let (merged, own) ← expand rest
      .ok (taken ++ merged, own)
    else
      let (merged, own) ← expand rest
      .ok (merged, (k, v) :: own)
end

/-- The key of an entry, which has no parts. A key `=` is a string like any other. -/
def key (n : Node) : Except Fault Scalar :=
  if n.kind = .content then do .ok (.string (← n.scalarText)) else n.scalarValue

/-- The entries of a mapping, merged ones in front. -/
def ownEntries : Node → Except Fault (List (Node × Node))
  | .mapping _ entries => do
    let (merged, own) ← expand entries
    .ok (merged ++ own)
  | _ => .error .malformed

/-- The entry of a mapping that has to hold just one. -/
def onlyEntry : Node → Except Fault (Node × Node)
  | .mapping _ [entry] => .ok entry
  | _ => .error .malformed

def ownItems : Node → Except Fault (List Node)
  | .list _ items => .ok items
  | _ => .error .malformed

/-- What there is to see of a part: a fault, or the part itself if it has parts in turn. -/
def glance : Node → Except Fault (List Node)
  | .loop => .ok []
  | n => if n.kind.isCollection then .ok [n] else n.scalarValue.map fun _ => []

/-- What there is to see of the parts of a collection, from the first to the last. -/
def glances (n : Node) : List (Except Fault (List Node)) :=
  match n.kind with
  | .list =>
    match n.ownItems with
    | .ok items => items.map glance
    | .error f => [.error f]
  | .pairs =>
    match n.ownItems with
    | .ok items => items.flatMap fun item =>
      match item.onlyEntry with
      | .ok (k, v) => [k.glance, v.glance]
      | .error f => [.error f]
    | .error f => [.error f]
  | _ =>
    match n.ownEntries with
    | .ok entries => entries.flatMap fun (k, v) => [k.key.map fun _ => [], v.glance]
    | .error f => [.error f]

/-- Looks through collections: those at one depth before the deeper ones, down to a depth. -/
def inspect : (depth : Nat) → List Node → Except Fault Unit
  | 0, _ => .ok ()
  | depth + 1, nodes => do
    let found ← (nodes.flatMap glances).mapM id
    if found.flatten.isEmpty then .ok () else inspect depth found.flatten

/-- The value of a node, to a depth. A loop has none, as its value would have to hold itself. -/
def valueTo : (bound : Nat) → Node → Except Fault Value
  | 0, _ => .error .malformed
  | _ + 1, .loop => .error .recursive
  | bound + 1, n =>
    let entryTo := fun (entry : Node × Node) => do
      let key ← entry.1.key
      let value ← valueTo bound entry.2
      .ok (key, value)
    match n.kind with
    | .list => do .ok (.list (← (← n.ownItems).mapM (valueTo bound)))
    | .mapping => do .ok (.mapping (Value.ofPairs (← (← n.ownEntries).mapM entryTo)))
    | .set => do
      .ok (.set ((Value.ofPairs (← (← n.ownEntries).mapM entryTo)).map (·.1)))
    | .pairs => do
      .ok (.list (← (← n.ownItems).mapM fun item => do
        let (k, v) ← item.onlyEntry
        .ok (.pair (← valueTo bound k) (← valueTo bound v))))
    | _ => do .ok (.scalar (← n.scalarValue))

mutual
/-- How deep the parts of a node lie. -/
def depth : Node → Nat
  | .scalar _ _ | .loop => 1
  | .list _ items => depthOfItems items + 1
  | .mapping _ entries => depthOfEntries entries + 1
/-- How deep the parts of a list lie. -/
def depthOfItems : List Node → Nat
  | [] => 0
  | n :: rest => max n.depth (depthOfItems rest)
/-- How deep the parts of entries lie. -/
def depthOfEntries : List (Node × Node) → Nat
  | [] => 0
  | (k, v) :: rest => max (max k.depth v.depth) (depthOfEntries rest)
end

/-- The value of a node. Of several faults the one that lies least deep is found. -/
def value (n : Node) : Except Fault Value := do
  let found ← n.glance
  inspect n.depth found
  valueTo (n.depth + 1) n

end Node

/-- The characters that a text may hold. -/
def isAllowed (c : Char) : Bool :=
  let n := c.toNat
  n = 0x9 || n = 0xa || n = 0xd || (0x20 ≤ n && n ≤ 0x7e) || n = 0x85 || (0xa0 ≤ n && n ≤ 0xd7ff)
    || (0xe000 ≤ n && n ≤ 0xfffd) || 0x10000 ≤ n

/-- The value of a text, if it holds any. -/
def read (text : List Char) : Except Fault (Option Value) := do
  demand (text.all isAllowed)
  match ← Node.ofTokens? (← tokens text) with
  | some n => do .ok (some (← n.value))
  | none => .ok none

theorem read_nil : read [] = .ok none := rfl

def Reader.standard : Reader := fun text => read text.toList

end LuaCoverage.Yaml
