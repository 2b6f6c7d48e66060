import LuaCoverage.Proofs.Data.Table
import LuaCoverage.Proofs.Json.Printed
import LuaCoverage.Proofs.Probe.Manifest
import LuaCoverage.Report.Reading

/-!
# Records that are read

A record is *valid* when no id comes twice in a table, its counts stand under the ids of its
locations, in any order, and a branch has a count for every path. What is read is a valid record,
whatever the data was: keys such as `1` and `01` are one id, truth values and numbers with a
fraction are integers. A valid record is read back from its own data, so data that was read and
written again stands for the same record.

Results:
* `Record.valid_iff_check`: the check passes the valid records, if no id comes twice.
* `Record.Valid.of_ofValue`: what is read is valid.
* `Record.Valid.ofValue_toValue`: a valid record is read back from its data.
* `Record.valid_and_read_back`: the valid records are the ones that are read, and are read back.
-/

namespace LuaCoverage
open LuaCoverage.Decimal

/-! ## Valid records -/

namespace Record
variable {r : Record}

/-- No id comes twice in a table of the record. -/
structure Keyed (r : Record) : Prop where
  statementMap : r.statementMap.keys.Nodup
  functionMap : r.functionMap.keys.Nodup
  branchMap : r.branchMap.keys.Nodup
  statements : r.statements.keys.Nodup
  functions : r.functions.keys.Nodup
  branches : r.branches.keys.Nodup

/-- The tables of a record are tables, and they go together: counts stand under the ids of
locations, and a branch has a count for every path. -/
structure Valid (r : Record) : Prop where
  keyed : r.Keyed
  statements : ∀ id, id ∈ r.statements.keys ↔ id ∈ r.statementMap.keys
  functions : ∀ id, id ∈ r.functions.keys ↔ id ∈ r.functionMap.keys
  branches : ∀ id, id ∈ r.branches.keys ↔ id ∈ r.branchMap.keys
  paths : ∀ id counts entry, r.branches.find? id = some counts → r.branchMap.find? id = some entry →
    counts.length = entry.locations.length

theorem sameKeys_iff {α β : Type} {a : Table Int α} {b : Table Int β} :
    sameKeys a b = true ↔ ∀ id, id ∈ a.keys ↔ id ∈ b.keys := by
  simp only [sameKeys, Bool.and_eq_true, List.all_eq_true, List.contains_iff_mem]
  exact ⟨fun h id => ⟨h.1 id, h.2 id⟩, fun h => ⟨fun id => (h id).1, fun id => (h id).2⟩⟩

/-- The lengths that the check compares are those of the branches under the same ids. -/
theorem paths_iff (hkeys : r.branches.keys.Nodup)
    (hsame : ∀ id, id ∈ r.branches.keys ↔ id ∈ r.branchMap.keys) :
    (∀ id counts entry, r.branches.find? id = some counts → r.branchMap.find? id = some entry →
        counts.length = entry.locations.length)
      ↔ ∀ entry ∈ r.branches, entry.2.length = r.pathCount entry.1 := by
  constructor
  · intro h entry hentry
    have hcounts := (Table.find?_eq_some_iff hkeys).2 hentry
    obtain ⟨found, hfound⟩ :=
      Table.exists_find?_iff.2 ((hsame entry.1).1 (List.mem_map_of_mem hentry))
    rw [h entry.1 entry.2 found hcounts hfound, pathCount, hfound]
    rfl
  · intro h id counts entry hcounts hentry
    have hlength := h (id, counts) ((Table.find?_eq_some_iff hkeys).1 hcounts)
    rwa [pathCount, hentry] at hlength

/-- The check passes the valid records, if no id comes twice. -/
theorem valid_iff_check (hkeyed : r.Keyed) : r.Valid ↔ r.check = none := by
  rw [check_eq_none_iff, sameKeys_iff, sameKeys_iff, sameKeys_iff]
  constructor
  · intro h
    exact ⟨h.statements, h.functions, h.branches, (paths_iff hkeyed.branches h.branches).1 h.paths⟩
  · intro h
    obtain ⟨hstatements, hfunctions, hbranches, hpaths⟩ := h
    exact ⟨hkeyed, hstatements, hfunctions, hbranches,
      (paths_iff hkeyed.branches hbranches).2 hpaths⟩

end Record

/-! ## What is read -/

theorem Value.nodup_of_toTable {α : Type} {decode : Value → Except Mismatch α} {v : Value}
    {table : Table Int α} (h : v.toTable decode = .ok table) : table.keys.Nodup := by
  unfold Value.toTable at h
  obtain ⟨entries, -, h⟩ := Except.bind_ok h
  obtain ⟨pairs, -, h⟩ := Except.bind_ok h
  cases h
  exact Table.nodup_keys_ofPairs pairs

namespace Record
variable {r : Record} {v : Value} {path : String}

theorem keyed_of_tables (h : tables path v = .ok r) : r.Keyed := by
  unfold tables at h
  obtain ⟨_, -, h⟩ := Except.bind_ok h
  obtain ⟨_, hstatementMap, h⟩ := Except.bind_ok h
  obtain ⟨_, -, h⟩ := Except.bind_ok h
  obtain ⟨_, hfunctionMap, h⟩ := Except.bind_ok h
  obtain ⟨_, -, h⟩ := Except.bind_ok h
  obtain ⟨_, hbranchMap, h⟩ := Except.bind_ok h
  obtain ⟨_, -, h⟩ := Except.bind_ok h
  obtain ⟨_, hstatements, h⟩ := Except.bind_ok h
  obtain ⟨_, -, h⟩ := Except.bind_ok h
  obtain ⟨_, hfunctions, h⟩ := Except.bind_ok h
  obtain ⟨_, -, h⟩ := Except.bind_ok h
  obtain ⟨_, hbranches, h⟩ := Except.bind_ok h
  cases h
  constructor
  case statementMap => exact Value.nodup_of_toTable hstatementMap
  case functionMap => exact Value.nodup_of_toTable hfunctionMap
  case branchMap => exact Value.nodup_of_toTable hbranchMap
  case statements => exact Value.nodup_of_toTable hstatements
  case functions => exact Value.nodup_of_toTable hfunctions
  case branches => exact Value.nodup_of_toTable hbranches

/-- A record is read from tables that pass the check. -/
theorem ofValue_cases (h : ofValue v = .ok r) : ∃ path, tables path v = .ok r ∧ r.check = none := by
  unfold ofValue at h
  split at h
  · next entries =>
    dsimp only at h
    split at h
    · cases h
    · obtain ⟨found, hfound, h⟩ := Except.bind_ok h
      split at h
      · cases h
      · next hcheck =>
        cases h
        exact ⟨_, Except.mapError_eq_ok_iff.1 hfound, hcheck⟩
  · cases h

/-- What is read is valid. -/
theorem Valid.of_ofValue (h : ofValue v = .ok r) : r.Valid := by
  obtain ⟨path, htables, hcheck⟩ := ofValue_cases h
  exact (valid_iff_check (keyed_of_tables htables)).2 hcheck

end Record

/-! ## What is read back -/

@[simp] theorem FunctionEntry.ofValue_toValue (e : FunctionEntry) : ofValue e.toValue = .ok e := by
  simp [ofValue, toValue, Value.object, Value.entry, Value.lookup]

@[simp] theorem BranchEntry.ofValue_toValue (e : BranchEntry) : ofValue e.toValue = .ok e := by
  simp [ofValue, toValue, Value.object, Value.entry, Value.lookup, toLocations_map]

theorem toInts_map (counts : List Int) :
    (Value.list (counts.map Value.int)).toInts = .ok counts := by
  rw [Value.toInts, Value.toItems, Except.ok_bind]
  exact Except.mapM_map_ok fun n _ => Value.toInt_int n

/-- A table is read back from its data. -/
theorem toTable_toValue {α : Type} {encode : α → Value} {decode : Value → Except Mismatch α}
    (h : ∀ a, decode (encode a) = .ok a) {table : Table Int α} (hkeys : table.keys.Nodup) :
    (table.toValue encode).toTable decode = .ok table := by
  have hentries : ((table.map fun e => (intText e.1, encode e.2)).map
      fun e => (Scalar.string e.1, e.2)).mapM (fun e => do
        let id ← e.1.toInt
        let decoded ← decode e.2
        .ok (id, decoded)) = (.ok table : Except Mismatch (Table Int α)) := by
    rw [List.map_map]
    refine Except.mapM_map_ok fun e _ => ?_
    simp only [Function.comp_apply, Scalar.toInt_intText, h, Except.ok_bind]
  rw [Value.toTable, Table.toValue, Value.object, Value.toEntries, Except.ok_bind, hentries,
    Except.ok_bind, Table.ofPairs_of_nodup hkeys]

namespace Record
variable {r : Record}

theorem Keyed.tables_toValue (h : r.Keyed) (path : String) :
    tables path r.toValue = .ok { r with path } := by
  simp [tables, toValue, Value.object, Value.entry, Value.lookup,
    toTable_toValue Location.ofValue_toValue h.statementMap,
    toTable_toValue FunctionEntry.ofValue_toValue h.functionMap,
    toTable_toValue BranchEntry.ofValue_toValue h.branchMap,
    toTable_toValue Value.toInt_int h.statements, toTable_toValue Value.toInt_int h.functions,
    toTable_toValue toInts_map h.branches]

/-- A valid record is read back from its data. -/
theorem Valid.ofValue_toValue (h : r.Valid) : ofValue r.toValue = .ok r := by
  have hmissing : keys.filter (fun key => (r.toValue.get? key).isNone) = [] := by
    simp [keys, toValue, Value.object, Value.get?, Value.lookup]
  have hpath : r.toValue.get? "path" = some (.string r.path) := by
    simp [toValue, Value.object, Value.get?, Value.lookup]
  have htables := h.keyed.tables_toValue r.path
  have hcheck := (valid_iff_check h.keyed).1 h
  obtain ⟨entries, hentries⟩ : ∃ entries, r.toValue = .mapping entries := ⟨_, rfl⟩
  rw [hentries] at hmissing hpath htables ⊢
  simp only [Value.get?] at hmissing
  simp only [ofValue, hmissing, List.isEmpty_nil, Bool.not_true, Bool.false_eq_true, if_false,
    hpath, Option.map_some, Value.shown_string, Option.getD_some, htables, Except.mapError_ok,
    Except.ok_bind, hcheck]

/-- Whatever is read is valid and is read back from its own data. Every valid record is read back
from its data, so the valid records are exactly those that are read from some data. -/
theorem valid_and_read_back :
    (∀ (v : Value) (r : Record), ofValue v = .ok r → r.Valid ∧ ofValue r.toValue = .ok r)
      ∧ ∀ r : Record, r.Valid → ofValue r.toValue = .ok r := by
  constructor
  · intro v r h
    have hvalid := Valid.of_ofValue h
    exact ⟨hvalid, hvalid.ofValue_toValue⟩
  · intro r hvalid
    exact hvalid.ofValue_toValue

/-- Data in which keys come together in one id, the counts stand in another order than the
locations, and numbers are given as texts, truth values and fractions. -/
def collapsingData : Value :=
  let loc : Int → Value := fun line => Location.toValue ⟨⟨line, 0⟩, ⟨line, 5⟩⟩
  .object [("path", .int 7),
    ("statementMap", .object [("1", loc 1), ("2", loc 2), ("01", loc 3)]),
    ("fnMap", .object []),
    ("branchMap", .object [("-4", .object [("type", .null), ("line", .string " 1_0 "),
      ("loc", loc 1), ("locations", .list [loc 1, loc 2])])]),
    ("s", .object [("+2", .bool true), ("1", .string "12"), (" 1 ", .int (-3))]),
    ("f", .object []),
    ("b", .object [("-04", .list [.scalar (.float (.finite false 5 (-1))), .int 0])])]

def collapsedRecord : Record :=
  let loc : Int → Location := fun line => ⟨⟨line, 0⟩, ⟨line, 5⟩⟩
  ⟨"7", [(1, loc 3), (2, loc 2)], [], [(-4, ⟨"None", 10, loc 1, [loc 1, loc 2]⟩)],
    [(2, 1), (1, -3)], [], [(-4, [2, 0])]⟩

theorem valid_collapsedRecord : collapsedRecord.Valid := by
  have hkeyed : collapsedRecord.Keyed := by
    constructor <;> decide
  exact (valid_iff_check hkeyed).2 rfl

theorem valid_and_read_back_sample :
    ofValue collapsingData = .ok collapsedRecord ∧ collapsedRecord.Valid
      ∧ ofValue collapsedRecord.toValue = .ok collapsedRecord := by
  have hread : ofValue collapsingData = .ok collapsedRecord :=
    Except.ok_of_toOption (by decide +kernel)
  obtain ⟨hvalid, -⟩ := valid_and_read_back.1 _ _ hread
  exact ⟨hread, hvalid, valid_and_read_back.2 _ valid_collapsedRecord⟩

end Record

end LuaCoverage
