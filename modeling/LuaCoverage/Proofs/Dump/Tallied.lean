import LuaCoverage.Dump.Load
import LuaCoverage.Proofs.Counter.History
import LuaCoverage.Proofs.Dump.Payload
import LuaCoverage.Proofs.Json.Printed

/-!
# Dumps as tallies of hits

A dump *tallies* hits if it says of every hit how often it came, and of no other. In JSON the counts
stand under the decimal forms of ids, with numbers for statements and functions, and for branches
with numbers under the decimal forms of arms, or in a list from the first arm on. The order of
entries does not matter, and what is empty may be left out, or be a list without items.

Results:
* `Dump.exists_ofValue`: such JSON is a dump, with a hit for every number.
* `Dump.addHits_numbers`: loading adds the hits one after the other.
-/

namespace LuaCoverage
open LuaCoverage.Decimal Store

/-- A hit of a probe: its module, its id, and for a branch the arm. -/
inductive Hit
  | statement (path : String) (id : Int)
  | function (path : String) (id : Int)
  | branch (path : String) (id arm : Int)
  deriving DecidableEq, Repr

namespace Hit

def address : Hit → Address
  | .statement path id => ⟨path, ProbeKind.statement.code, id, none⟩
  | .function path id => ⟨path, ProbeKind.function.code, id, none⟩
  | .branch path id arm => ⟨path, ProbeKind.branch.code, id, some arm⟩

/-- The arguments with which a program calls the probe function. -/
def arguments : Hit → List Value
  | .statement path id => [.string path, .string ProbeKind.statement.code, .int id]
  | .function path id => [.string path, .string ProbeKind.function.code, .int id]
  | .branch path id arm => [.string path, .string ProbeKind.branch.code, .int id, .int arm]

/-- A recorder makes a hit count one. -/
theorem recordAll_arguments (hit : Hit) (s : Store) :
    s.recordAll hit.arguments = .ok (Action.perform s (.increment hit.address)) := by
  cases hit <;> rfl

end Hit

/-- The numbers of hits of a module in a dump. -/
structure ModuleTally where
  path : String
  statements : List (Int × Int)
  functions : List (Int × Int)
  branches : List (Int × List (Int × Int))

namespace ModuleTally

/-- The hits of a module with their numbers. -/
def entries (m : ModuleTally) : List (Hit × Int) :=
  m.statements.map (fun (id, n) => (.statement m.path id, n))
    ++ m.functions.map (fun (id, n) => (.function m.path id, n))
    ++ m.branches.flatMap fun (id, arms) => arms.map fun (arm, n) => (.branch m.path id arm, n)

end ModuleTally

/-- Whether modules tally hits: every hit has its number once, and there are no others. -/
structure Tallies (modules : List ModuleTally) (hits : List Hit) : Prop where
  nodup : ((modules.flatMap ModuleTally.entries).map (·.1)).Nodup
  exact : ∀ hit n, (hit, n) ∈ modules.flatMap ModuleTally.entries
    ↔ hit ∈ hits ∧ n = hits.count hit

namespace Dump

/-- A number under the decimal form of another. -/
def numbered (entry : Int × Int) : Scalar × Value := (.string (intText entry.1), .int entry.2)

/-- Whether counts stand under the code of a kind. Without counts there may be nothing, or a list
without items. -/
def Under (fields : List (Scalar × Value)) (kind : ProbeKind) (counts : List (Scalar × Value)) :
    Prop :=
  Value.lookup fields kind.code = some (.mapping counts)
    ∨ counts = [] ∧ (Value.lookup fields kind.code = none
      ∨ Value.lookup fields kind.code = some (.list []))

/-- Whether an entry gives the numbers of the arms of a branch. -/
inductive IsBranch : Int × List (Int × Int) → Scalar × Value → Prop
  | mapping (id : Int) (arms : List (Int × Int)) :
    IsBranch (id, arms) (.string (intText id), .mapping (arms.map numbered))
  | list (id : Int) (numbers : List Int) :
    IsBranch (id, numbers.mapIdx fun arm n => ((arm : Int), n))
      (.string (intText id), .list (numbers.map .int))

/-- Whether an entry gives the numbers of a module. -/
def IsModule (m : ModuleTally) (entry : Scalar × Value) : Prop :=
  ∃ fields branches, entry = (.string m.path, .mapping fields)
    ∧ Under fields .statement (m.statements.map numbered)
    ∧ Under fields .function (m.functions.map numbered)
    ∧ List.Forall₂ IsBranch m.branches branches ∧ Under fields .branch branches

/-- Whether a value gives the numbers of modules. -/
def Shows (v : Value) (modules : List ModuleTally) : Prop :=
  ∃ entries, v = .mapping entries ∧ List.Forall₂ IsModule modules entries

/-! ## The hits of a dump -/

theorem eq_string_of_equals {s : Scalar} {text : String} (h : s.equals (.string text) = true) :
    s = .string text := by
  cases s <;> simp_all [Scalar.equals, Scalar.int?]

theorem lookup_put_of_ne (fields : List (Scalar × Value)) {key other : String} (v : Value)
    (h : other ≠ key) :
    Value.lookup (Value.put fields (.string key) v) other = Value.lookup fields other := by
  have hne : (key == other) = false := by simpa using Ne.symm h
  induction fields with
  | nil => simp [Value.put, Value.lookup, hne]
  | cons field rest ih =>
    simp only [Value.put]
    split
    · next hkey =>
      have hfield : field.1.equals (.string other) = false := by
        rw [eq_string_of_equals hkey, Scalar.equals_string, hne]
      simp [Value.lookup, hfield]
    · simp only [Value.lookup, List.find?_cons] at ih ⊢
      split
      · rfl
      · exact ih

/-- What counts are read under the code of a kind, once they are checked. -/
theorem checkCounts_of_under (path : String) {fields : List (Scalar × Value)} {kind : ProbeKind}
    {counts : List (Scalar × Value)} (h : Under fields kind counts) :
    ∃ checked, checkCounts path fields kind.code = .ok checked
      ∧ (⟨path, checked⟩ : DumpModule).counts kind = counts
      ∧ ∀ key, key ≠ kind.code → Value.lookup checked key = Value.lookup fields key := by
  rcases h with hcounts | ⟨rfl, hnone | hempty⟩
  · refine ⟨fields, ?_, ?_, fun _ _ => rfl⟩
    · simp [checkCounts, hcounts, isEmptyList, isMapping]
    · simp [DumpModule.counts, hcounts]
  · refine ⟨fields, ?_, ?_, fun _ _ => rfl⟩
    · simp [checkCounts, hnone]
    · simp [DumpModule.counts, hnone]
  · refine ⟨Value.put fields (.string kind.code) (.mapping []), ?_, ?_, ?_⟩
    · simp [checkCounts, hempty, isEmptyList]
    · simp [DumpModule.counts, Value.get?_put_self]
    · exact fun key hkey => lookup_put_of_ne fields _ hkey

theorem under_congr {fields other : List (Scalar × Value)} {kind : ProbeKind}
    {counts : List (Scalar × Value)}
    (hlookup : Value.lookup other kind.code = Value.lookup fields kind.code)
    (h : Under fields kind counts) : Under other kind counts := by
  rwa [Under, hlookup]

theorem counts_congr {path : String} {fields other : List (Scalar × Value)} {kind : ProbeKind}
    (hlookup : Value.lookup other kind.code = Value.lookup fields kind.code) :
    (⟨path, other⟩ : DumpModule).counts kind = (⟨path, fields⟩ : DumpModule).counts kind := by
  rw [DumpModule.counts, DumpModule.counts, hlookup]

theorem code_ne {a b : ProbeKind} (h : a ≠ b) : a.code ≠ b.code := by
  cases a <;> cases b <;> first | exact absurd rfl h | decide

/-- An entry with counts for every kind is a module of a dump. -/
theorem exists_moduleOf (key : Scalar)
    {fields statements functions branches : List (Scalar × Value)}
    (hstatements : Under fields .statement statements)
    (hfunctions : Under fields .function functions)
    (hbranches : Under fields .branch branches) :
    ∃ m, moduleOf (key, .mapping fields) = .ok m ∧ m.path = key.shown
      ∧ m.counts .statement = statements ∧ m.counts .function = functions
      ∧ m.counts .branch = branches := by
  have hsf := code_ne (a := .function) (b := .statement) (by decide)
  have hsb := code_ne (a := .branch) (b := .statement) (by decide)
  have hfb := code_ne (a := .branch) (b := .function) (by decide)
  obtain ⟨s, hs, hcounts, hkeep⟩ := checkCounts_of_under key.shown hstatements
  obtain ⟨f, hf, hcountf, hkeepf⟩ :=
    checkCounts_of_under key.shown (under_congr (hkeep _ hsf) hfunctions)
  obtain ⟨b, hb, hcountb, hkeepb⟩ := checkCounts_of_under key.shown
    (under_congr ((hkeepf _ hfb).trans (hkeep _ hsb)) hbranches)
  refine ⟨⟨key.shown, b⟩, ?_, rfl, ?_, ?_, hcountb⟩
  · simp only [moduleOf, hs, hf, hb, Except.ok_bind]
  · rw [counts_congr ((hkeepb _ hsb.symm).trans (hkeepf _ hsf.symm)), hcounts]
  · rw [counts_congr (hkeepb _ hfb.symm), hcountf]

/-- An entry that gives the numbers of a module is the module of a dump. -/
theorem moduleOf_of_isModule {m : ModuleTally} {entry : Scalar × Value} (h : IsModule m entry) :
    ∃ (d : DumpModule) (branches : List (Scalar × Value)), moduleOf entry = .ok d
      ∧ d.path = m.path
      ∧ d.counts .statement = m.statements.map numbered
      ∧ d.counts .function = m.functions.map numbered
      ∧ d.counts .branch = branches ∧ List.Forall₂ IsBranch m.branches branches := by
  obtain ⟨fields, branches, rfl, hstatements, hfunctions, hbranches, hunder⟩ := h
  obtain ⟨d, hd, hpath, hs, hf, hb⟩ :=
    exists_moduleOf (.string m.path) hstatements hfunctions hunder
  exact ⟨d, branches, hd, hpath, hs, hf, hb, hbranches⟩

/-- The hits of a dump for hits with their numbers. -/
def numbers {ε : Type} (entries : List (Hit × Int)) : List (Except ε DumpHits) :=
  entries.map fun (hit, n) => .ok ⟨hit.address.reference, n⟩

/-- The hits of statements or functions. -/
theorem plainHits_counts (path : String) (kind : ProbeKind) (hit : Int → Hit)
    (hreference : ∀ id, (hit id).address.reference = ⟨.string path, kind.code, id, none⟩)
    {counts : List (Int × Int)} (hpos : ∀ e ∈ counts, 0 ≤ e.2) :
    (counts.map numbered).map (plainHits path kind)
      = numbers (counts.map fun (id, n) => (hit id, n)) := by
  rw [numbers, List.map_map, List.map_map]
  refine List.map_congr_left fun e he => ?_
  simp only [Function.comp_apply, plainHits, numbered, Scalar.toInt_intText, Value.toInt_int,
    reading, Except.mapError_ok, Except.ok_bind, hitsOf, if_neg (Int.not_lt.2 (hpos e he)), hreference]

theorem listArms_map (arm : Nat) (numbers : List Int) :
    listArms arm (numbers.map .int)
      = .ok (numbers.mapIdx fun i n => (((arm + i : Nat) : Int), n)) := by
  induction numbers generalizing arm with
  | nil => rfl
  | cons n rest ih =>
    rw [List.map_cons, listArms, Value.toInt_int, Except.ok_bind, ih, Except.ok_bind,
      List.mapIdx_cons]
    simp only [Nat.add_zero, Nat.add_assoc, Nat.add_comm 1]
    rfl

theorem arms_of_isBranch {branch : Int × List (Int × Int)} {entry : Scalar × Value}
    (h : IsBranch branch entry) :
    entry.1 = .string (intText branch.1) ∧ arms entry.2 = .ok branch.2 := by
  cases h with
  | mapping id arms =>
    have hmap := Except.mapM_map_ok (f := numbered) (g := fun entry : Scalar × Value => do
        let arm ← entry.1.toInt
        let amount ← entry.2.toInt
        .ok (arm, amount)) (l := arms) fun a _ => by
      simp only [numbered, Scalar.toInt_intText, Value.toInt_int, Except.ok_bind]
    exact ⟨rfl, by simp only [Dump.arms, reading, hmap, Except.mapError_ok]⟩
  | list id numbers =>
    exact ⟨rfl, by simp only [Dump.arms, listArms_map, reading, Except.mapError_ok, Nat.zero_add]⟩

/-- The hits of branches. -/
theorem branchHits_arms (path : String) {branches : List (Int × List (Int × Int))}
    {entries : List (Scalar × Value)} (h : List.Forall₂ IsBranch branches entries)
    (hpos : ∀ b ∈ branches, ∀ a ∈ b.2, 0 ≤ a.2) :
    entries.flatMap (branchHits path) = numbers (branches.flatMap fun (id, arms) =>
      arms.map fun (arm, n) => (.branch path id arm, n)) := by
  induction h with
  | nil => rfl
  | @cons b entry bs entries hbranch _ ih =>
    obtain ⟨hid, harms⟩ := arms_of_isBranch hbranch
    have hfirst : branchHits path entry
        = numbers (b.2.map fun (arm, n) => (.branch path b.1 arm, n)) := by
      rw [branchHits, harms, numbers, List.map_map]
      refine List.map_congr_left fun a ha => ?_
      simp only [Function.comp_apply, hid, Scalar.toInt_intText, reading, Except.mapError_ok,
        Except.ok_bind, hitsOf, if_neg (Int.not_lt.2 (hpos b (by simp) a ha))]
      rfl
    rw [List.flatMap_cons, hfirst, ih fun c hc => hpos c (by simp [hc])]
    simp only [numbers, List.flatMap_cons, List.map_append]

/-- The hits of a module. -/
theorem moduleHits_of_isModule {m : ModuleTally} {entry : Scalar × Value} (h : IsModule m entry)
    (hpos : ∀ e ∈ m.entries, 0 ≤ e.2) :
    ∃ d, moduleOf entry = .ok d ∧ moduleHits d = numbers m.entries := by
  obtain ⟨d, branches, hd, hpath, hs, hf, hb, hbranches⟩ := moduleOf_of_isModule h
  refine ⟨d, hd, ?_⟩
  simp only [ModuleTally.entries, List.mem_append, List.mem_map, List.mem_flatMap] at hpos
  have hstatements := plainHits_counts m.path .statement (.statement m.path) (fun _ => rfl)
    fun e he => hpos _ (.inl (.inl ⟨e, he, rfl⟩))
  have hfunctions := plainHits_counts m.path .function (.function m.path) (fun _ => rfl)
    fun e he => hpos _ (.inl (.inr ⟨e, he, rfl⟩))
  have hbranch := branchHits_arms m.path hbranches
    fun b hb a ha => hpos _ (.inr ⟨b, hb, a, ha, rfl⟩)
  rw [moduleHits, hs, hf, hb, hpath, hstatements, hfunctions, hbranch]
  simp only [ModuleTally.entries, numbers, List.map_append, List.map_map]
  rfl

/-- A value that gives the numbers of modules is a dump, with a hit for every number. -/
theorem exists_ofValue {v : Value} {modules : List ModuleTally} (h : Shows v modules)
    (hpos : ∀ e ∈ modules.flatMap ModuleTally.entries, 0 ≤ e.2) :
    ∃ d, ofValue v = .ok d ∧ d.hits = numbers (modules.flatMap ModuleTally.entries) := by
  obtain ⟨entries, rfl, hentries⟩ := h
  have hall : ∃ ds, entries.mapM moduleOf = .ok ds
      ∧ ds.flatMap moduleHits = numbers (modules.flatMap ModuleTally.entries) := by
    induction hentries with
    | nil => exact ⟨[], rfl, rfl⟩
    | @cons m entry ms entries hm _ ih =>
      simp only [List.flatMap_cons, List.mem_append] at hpos
      obtain ⟨d, hd, hhits⟩ := moduleHits_of_isModule hm fun e he => hpos e (.inl he)
      obtain ⟨ds, hds, hmore⟩ := ih fun e he => hpos e (.inr he)
      refine ⟨d :: ds, ?_, ?_⟩
      · rw [List.mapM_cons, hd, Except.ok_bind, hds]
        rfl
      · rw [List.flatMap_cons, hhits, hmore, numbers, numbers, numbers, List.flatMap_cons,
          List.map_append]
  obtain ⟨ds, hds, hhits⟩ := hall
  exact ⟨⟨ds⟩, by rw [ofValue, hds]; rfl, hhits⟩

/-- Loading adds the hits one after the other. -/
theorem addHits_numbers {entries : List (Hit × Int)} (hpos : ∀ e ∈ entries, 0 ≤ e.2) (s : Store)
    (applied : Int) :
    ∃ total, addHits s applied (numbers entries)
      = (.ok total, (entries.map fun (hit, n) => Action.add hit.address n).foldl
          Action.perform s) := by
  induction entries generalizing s applied with
  | nil => exact ⟨applied, rfl⟩
  | cons e rest ih =>
    have hrest := ih fun d hd => hpos d (by simp [hd])
    have hneg : ¬e.2 < 0 := Int.not_lt.2 (hpos e (by simp))
    simp only [numbers, List.map_cons, addHits, List.foldl_cons] at hrest ⊢
    cases hcount : s.count? e.1.address.reference e.2 with
    | some s' =>
      have hperform : Action.perform s (.add e.1.address e.2) = s' := by
        simp only [Action.perform, add, if_neg hneg, hcount]
      rw [hperform]
      exact hrest s' _
    | none =>
      have hperform : Action.perform s (.add e.1.address e.2)
          = s.drop e.1.address.reference e.2 := by
        simp only [Action.perform, add, if_neg hneg, hcount]
      rw [hperform]
      exact hrest _ _

end Dump

end LuaCoverage
