import LuaCoverage.Proofs.Analysis.Shifted
import LuaCoverage.Proofs.Report.Fitting

/-!
# A store and a report with another first id

A store finds the counter of a hit by the id less the first id of the module, and a report lists
counts under the ids that were handed out. So if the ids of a module and those of all hits are
greater by some amount, a store answers every hit as before and has the same counts, and the report
is the same with ids that are greater by as much: as far as ids are concerned, modules may start
where they like, also below zero.

Results:
* `Store.add_shift`, `Store.addAll_shift`: hits with greater ids.
* `Tally.reads_shift`: counts are read at greater ids.
* `Record.ofTally_shift`: the record of a module whose ids are greater.
* `Analyzer.analyze_shifted`: the analysis, every run of hits, and the report.
-/

namespace LuaCoverage
open LuaCoverage.Text
variable {k : Int} {anonymous : Int → Bool} {m : ProbeMap} {t : Tally} {s : Store}

/-! ## Counts of a module -/

/-- Counts of a module whose ids are greater by `k`. -/
def Tally.shift (k : Int) (t : Tally) : Tally := { t with idBase := t.idBase + k }

namespace Tally

theorem ofMap_shift (k : Int) (anonymous : Int → Bool) (m : ProbeMap) :
    ofMap (m.shift k anonymous) = (ofMap m).shift k := by
  simp only [ofMap, ProbeMap.shift, shift, List.map_map]
  rfl

/-- Counts are read at greater ids. -/
theorem reads_shift (k : Int) (t : Tally) (id : Int) :
    (t.shift k).statement? (id + k) = t.statement? id
      ∧ (t.shift k).function? (id + k) = t.function? id
      ∧ (t.shift k).branch? (id + k) = t.branch? id := by
  simp only [statement?, function?, branch?, shift, Int.add_sub_add_right, and_self]

theorem add?_shift (k : Int) (t : Tally) (kind : ProbeKind) (id : Int) (arm : Option Int)
    (amount : Int) :
    (t.shift k).add? kind (id + k) arm amount = (t.add? kind id arm amount).map (shift k) := by
  have hslot : (t.shift k).slotOf? kind (id + k) arm = t.slotOf? kind id arm := by
    simp only [slotOf?, shift, Int.add_sub_add_right]
  have hraise : ∀ slot, (t.shift k).raise slot amount = (t.raise slot amount).shift k := by
    intro slot
    cases slot <;> rfl
  simp only [add?_eq, hslot, hraise, Option.map_map]
  rfl

theorem Fits.shift (h : t.Fits m) : (t.shift k).Fits (m.shift k anonymous) where
  path := h.path
  idBase := by rw [Tally.shift, ProbeMap.shift, h.idBase]
  statements := by rw [ProbeMap.shift, List.length_map]; exact h.statements
  functions := by rw [ProbeMap.shift, List.length_map]; exact h.functions
  branches := by rw [ProbeMap.shift, List.map_map]; exact h.branches

end Tally

/-! ## A store -/

/-- A reference to a probe whose id is greater by `k`. -/
def Reference.shift (k : Int) (r : Reference) : Reference := { r with id := r.id + k }

/-- Dropped hits of a reference whose id is greater by `k`. -/
def StaleHits.shift (k : Int) (h : StaleHits) : StaleHits := ⟨h.reference.shift k, h.hits⟩

/-- A store of modules whose ids are greater by `k`, and that was given hits whose ids are. -/
def Store.shift (k : Int) (s : Store) : Store :=
  ⟨s.tallies.map (Tally.shift k), s.stale.map (StaleHits.shift k)⟩

theorem Reference.equals_shift (k : Int) (a b : Reference) :
    (a.shift k).equals (b.shift k) = a.equals b := by
  have hid : (a.id + k == b.id + k) = (a.id == b.id) := by
    rw [Bool.eq_iff_iff, beq_iff_eq, beq_iff_eq]
    omega
  simp only [equals, shift, hid]

namespace Store

theorem putTally_shift (k : Int) (t : Tally) (tallies : List Tally) :
    putTally (t.shift k) (tallies.map (Tally.shift k))
      = (putTally t tallies).map (Tally.shift k) := by
  induction tallies with
  | nil => rfl
  | cons u rest ih =>
    simp only [List.map_cons, putTally]
    by_cases hpath : u.path = t.path
    · rw [if_pos hpath, if_pos (show (u.shift k).path = (t.shift k).path from hpath)]
      rfl
    · rw [if_neg hpath, if_neg (show ¬(u.shift k).path = (t.shift k).path from hpath), ih]
      rfl

theorem register_shift (k : Int) (anonymous : Int → Bool) (s : Store) (m : ProbeMap) :
    (s.shift k).register (m.shift k anonymous) = (s.register m).shift k := by
  rw [register, Tally.ofMap_shift, shift, putTally_shift]
  rfl

theorem tally?_shift (k : Int) (s : Store) (path : String) :
    (s.shift k).tally? path = (s.tally? path).map (Tally.shift k) := by
  rw [tally?, shift, List.find?_map]
  rfl

theorem tallyFor_shift (k : Int) (anonymous : Int → Bool) (s : Store) (m : ProbeMap) :
    (s.shift k).tallyFor (m.shift k anonymous) = (s.tallyFor m).shift k := by
  have htally : (s.shift k).tally? (m.shift k anonymous).path
      = (s.tally? m.path).map (Tally.shift k) := tally?_shift k s m.path
  rw [tallyFor, tallyFor, htally, Tally.ofMap_shift]
  cases s.tally? m.path <;> rfl

theorem count?_shift (k : Int) (s : Store) (r : Reference) (amount : Int) :
    (s.shift k).count? (r.shift k) amount = (s.count? r amount).map (shift k) := by
  have hfind : (s.shift k).tallies.find? (fun t => (Scalar.string t.path).equals r.path)
      = (s.tallies.find? fun t => (Scalar.string t.path).equals r.path).map (Tally.shift k) :=
    List.find?_map ..
  simp only [count?, Reference.shift, Option.bind_eq_bind, hfind]
  cases ProbeKind.ofCode? r.kind with
  | none => rfl
  | some kind =>
    cases s.tallies.find? fun t => (Scalar.string t.path).equals r.path with
    | none => rfl
    | some t =>
      simp only [Option.bind_some, Option.map_some, Tally.add?_shift]
      cases t.add? kind r.id r.arm amount with
      | none => rfl
      | some u => exact congrArg (fun tallies => some (Store.mk tallies _)) (putTally_shift ..)

theorem addStale_shift (k : Int) (r : Reference) (amount : Int) (stale : List StaleHits) :
    addStale (r.shift k) amount (stale.map (StaleHits.shift k))
      = (addStale r amount stale).map (StaleHits.shift k) := by
  induction stale with
  | nil => rfl
  | cons entry rest ih =>
    simp only [List.map_cons, addStale, ih]
    have hequals : (entry.shift k).reference.equals (r.shift k) = entry.reference.equals r :=
      Reference.equals_shift ..
    rw [hequals]
    split <;> rfl

theorem drop_shift (k : Int) (s : Store) (r : Reference) (amount : Int) :
    (s.shift k).drop (r.shift k) amount = (s.drop r amount).shift k := by
  rw [drop, shift, addStale_shift]
  rfl

/-- A hit with a greater id is answered as before. -/
theorem add_shift (k : Int) (s : Store) (r : Reference) (amount : Int) :
    (s.shift k).add (r.shift k) amount
      = (s.add r amount).map fun answer => (answer.1, answer.2.shift k) := by
  unfold add
  rw [count?_shift, drop_shift]
  split
  · rfl
  · cases s.count? r amount <;> rfl

/-- What a store answers to hits, each with an amount, and the store behind them. A hit that is an
error changes nothing. -/
def addAll (s : Store) : List (Reference × Int) → List (Except NegativeAmount Bool) × Store
  | [] => ([], s)
  | (r, amount) :: rest =>
    match s.add r amount with
    | .ok (counted, s') => (.ok counted :: (s'.addAll rest).1, (s'.addAll rest).2)
    | .error e => (.error e :: (s.addAll rest).1, (s.addAll rest).2)

/-- Hits with greater ids are answered as before. -/
theorem addAll_shift (k : Int) (s : Store) (hits : List (Reference × Int)) :
    (s.shift k).addAll (hits.map fun hit => (hit.1.shift k, hit.2))
      = ((s.addAll hits).1, (s.addAll hits).2.shift k) := by
  induction hits generalizing s with
  | nil => rfl
  | cons hit rest ih =>
    obtain ⟨r, amount⟩ := hit
    simp only [List.map_cons, addAll, add_shift]
    cases s.add r amount with
    | error e => simp only [Except.map, ih]
    | ok answer => simp only [Except.map, ih]

theorem Holds.add {r : Reference} {amount : Int} {counted : Bool} {s' : Store} (h : s.Holds m)
    (hadd : s.add r amount = .ok (counted, s')) : s'.Holds m := by
  unfold Store.add at hadd
  split at hadd
  · cases hadd
  · split at hadd
    · next hcount =>
      cases hadd
      exact h.count? hcount
    · cases hadd
      exact h.drop r amount

theorem Holds.addAll (h : s.Holds m) (hits : List (Reference × Int)) :
    (s.addAll hits).2.Holds m := by
  induction hits generalizing s with
  | nil => exact h
  | cons hit rest ih =>
    obtain ⟨r, amount⟩ := hit
    simp only [Store.addAll]
    cases hadd : s.add r amount with
    | error e => exact ih h
    | ok answer => exact ih (h.add hadd)

end Store

/-! ## A report -/

/-- What a record says about a function with an id, if its id is greater by `k`. -/
def FunctionEntry.shift (k : Int) (anonymous : Int → Bool) (id : Int) (e : FunctionEntry) :
    FunctionEntry :=
  { e with name := FunctionProbe.shiftName k anonymous id e.name }

/-- A table whose ids are greater by `k`. -/
def Table.shift {α : Type} (k : Int) (table : Table Int α) : Table Int α :=
  table.map fun entry => (entry.1 + k, entry.2)

/-- A record whose ids are greater by `k`. -/
def Record.shift (k : Int) (anonymous : Int → Bool) (r : Record) : Record where
  path := r.path
  statementMap := r.statementMap.shift k
  functionMap :=
    r.functionMap.map fun entry => (entry.1 + k, entry.2.shift k anonymous entry.1)
  branchMap := r.branchMap.shift k
  statements := r.statements.shift k
  functions := r.functions.shift k
  branches := r.branches.shift k

/-- A report whose ids are greater by `k`. -/
def Report.shift (k : Int) (anonymous : Int → Bool) (r : Report) : Report :=
  ⟨r.records.map fun entry => (entry.1, entry.2.shift k anonymous)⟩

namespace Record

theorem add_injective (k : Int) : Function.Injective fun id : Int => id + k :=
  fun _ _ h => (Int.add_left_inj k).1 h

theorem ofPairs_shift {α : Type} (k : Int) (pairs : List (Int × α)) :
    Table.ofPairs (pairs.map fun pair => (pair.1 + k, pair.2)) = Table.shift k (.ofPairs pairs) :=
  Table.ofPairs_map (add_injective k) (fun _ a => a) pairs

theorem zip_shift {α : Type} (k : Int) (ids : List Int) (counts : List α) :
    Table.ofPairs ((ids.map fun id => id + k).zip counts)
      = Table.shift k (.ofPairs (ids.zip counts)) := by
  rw [← ofPairs_shift, List.zip_map_left]
  rfl

theorem ofTally_shift (k : Int) (anonymous : Int → Bool) (m : ProbeMap) (t : Tally) :
    ofTally (m.shift k anonymous) (t.shift k) = (ofTally m t).shift k anonymous := by
  have hstatementMap := ofPairs_shift k (m.statements.map fun p => (p.id, p.loc))
  have hfunctionMap := Table.ofPairs_map (add_injective k) (FunctionEntry.shift k anonymous)
    (m.functions.map fun p => (p.id, FunctionEntry.mk p.name p.decl p.loc p.line))
  have hbranchMap := ofPairs_shift k
    (m.branches.map fun p => (p.id, BranchEntry.mk p.type p.line p.loc p.locations))
  have hstatements := zip_shift k (m.statements.map StatementProbe.id) t.statements
  have hfunctions := zip_shift k (m.functions.map FunctionProbe.id) t.functions
  have hbranches := zip_shift k (m.branches.map BranchProbe.id) t.branches
  simp only [ofTally, shift, ProbeMap.shift, ← hstatementMap, ← hfunctionMap, ← hbranchMap,
    ← hstatements, ← hfunctions, ← hbranches, List.map_map]
  rfl

end Record

/-- The report of a module whose ids are greater. -/
theorem Report.build_shift (h : s.Holds m) (k : Int) (anonymous : Int → Bool) :
    ∃ r, build s [m] = .ok r
      ∧ build (s.shift k) [m.shift k anonymous] = .ok (r.shift k anonymous) := by
  have htally := Store.tallyFor_shift k anonymous s m
  have hfits : ∀ m' ∈ [m], (s.tallyFor m').Fits m' := by
    simpa using h.tallyFor
  have hfits' : ∀ m' ∈ [m.shift k anonymous], ((s.shift k).tallyFor m').Fits m' := by
    simpa [htally] using h.tallyFor.shift
  refine ⟨ofMaps s [m], build_maps hfits (by simp), ?_⟩
  rw [build_maps hfits' (by simp), ofMaps, ofMaps, Report.shift]
  simp only [List.map_cons, List.map_nil, htally, Record.ofTally_shift]
  rfl

namespace Analyzer

/-- Take any source. Its analysis with first id `k` is that with first id zero, with ids that are
greater by `k`; so one succeeds if and only if the other does. And if both do, register each module
in a store, and give the stores the same hits, whose ids are greater by `k` in the second one. Both
stores answer every hit alike, they have the same counts, also where these are read by id, and the
report of the second one can be made and is that of the first with ids that are greater by `k`. -/
theorem analyze_shifted (parser : Lua.Parser) (k : Int) (language : String) (source : Bytes)
    (path : String) :
    let anonymous := isAnonymous parser language source path
    analyze ⟨parser, language, k⟩ source path
        = (analyze ⟨parser, language, 0⟩ source path).map (Analysis.shift k anonymous)
      ∧ ∀ a b, analyze ⟨parser, language, 0⟩ source path = .ok a →
        analyze ⟨parser, language, k⟩ source path = .ok b → ∀ hits,
        let first := (Store.empty.register a.map).addAll hits
        let second := (Store.empty.register b.map).addAll
          (hits.map fun hit => (hit.1.shift k, hit.2))
        second.1 = first.1 ∧ second.2 = first.2.shift k
          ∧ (∀ id, (second.2.tallyFor b.map).statement? (id + k)
              = (first.2.tallyFor a.map).statement? id
            ∧ (second.2.tallyFor b.map).function? (id + k)
              = (first.2.tallyFor a.map).function? id
            ∧ (second.2.tallyFor b.map).branch? (id + k) = (first.2.tallyFor a.map).branch? id)
          ∧ ∃ r, Report.build first.2 [a.map] = .ok r
            ∧ Report.build second.2 [b.map] = .ok (r.shift k anonymous) := by
  intro anonymous
  have hshift := analyze_shift k parser language source path
  refine ⟨hshift, ?_⟩
  intro a b ha hb hits
  rw [ha] at hshift
  obtain rfl : b = a.shift k anonymous := Except.ok.inj (hb.symm.trans hshift)
  have hregister : Store.empty.register (a.map.shift k anonymous)
      = (Store.empty.register a.map).shift k := Store.register_shift k anonymous Store.empty a.map
  have hanswers := Store.addAll_shift k (Store.empty.register a.map) hits
  have hholds := (Store.empty.holds_register a.map).addAll hits
  dsimp only [Analysis.shift]
  rw [hregister, hanswers, Store.tallyFor_shift]
  exact ⟨rfl, rfl, Tally.reads_shift k _, Report.build_shift hholds k anonymous⟩

/-- A source with a function that has a name and one that has none. -/
def shiftedSource : Bytes := Utf8.ofString "function f() end g = function() end"

/-- A hit of the second function, a hit of no function, and an amount below zero. -/
def shiftedHits : List (Reference × Int) :=
  [(⟨.string "m.lua", "f", 1, none⟩, 4), (⟨.string "m.lua", "f", 2, none⟩, 1),
    (⟨.string "m.lua", "s", 0, none⟩, -1)]

theorem analyze_shifted_sample :
    ∃ a b, analyze ⟨.ofGrammar, "lua", 0⟩ shiftedSource "m.lua" = .ok a
      ∧ analyze ⟨.ofGrammar, "lua", -3⟩ shiftedSource "m.lua" = .ok b
      ∧ a.map.functions.map (fun p => (p.id, p.name)) = [(0, "f"), (1, "(anonymous_1)")]
      ∧ b.map.functions.map (fun p => (p.id, p.name)) = [(-3, "f"), (-2, "(anonymous_-2)")]
      ∧ ((Store.empty.register b.map).addAll
          (shiftedHits.map fun hit => (hit.1.shift (-3), hit.2))).1
        = [.ok true, .ok false, .error ⟨-1⟩] := by
  obtain ⟨hshift, hstores⟩ := analyze_shifted .ofGrammar (-3) "lua" shiftedSource "m.lua"
  have hfound : (analyze ⟨.ofGrammar, "lua", 0⟩ shiftedSource "m.lua").toOption.map
      (fun a => (a.map.functions.map fun p => (p.id, p.name),
        ((Store.empty.register a.map).addAll shiftedHits).1))
        = some ([(0, "f"), (1, "(anonymous_1)")], [.ok true, .ok false, .error ⟨-1⟩]) := by
    decide +kernel
  obtain ⟨a, ha, hfound⟩ := Except.exists_of_toOption hfound
  obtain ⟨hnames, hanswers⟩ := Prod.mk.inj hfound
  rw [ha] at hshift
  refine ⟨a, _, ha, hshift, hnames, ?_, ?_⟩
  · have hshifted : ∀ (anonymous : Int → Bool) (functions : List FunctionProbe),
        (functions.map (FunctionProbe.shift (-3) anonymous)).map (fun p => (p.id, p.name))
          = (functions.map fun p => (p.id, p.name)).map fun p =>
            (p.1 + -3, FunctionProbe.shiftName (-3) anonymous p.1 p.2) := by
      intro anonymous functions
      rw [List.map_map, List.map_map]
      rfl
    rw [Analysis.shift, ProbeMap.shift, hshifted, hnames]
    decide +kernel
  · rw [(hstores a _ ha hshift shiftedHits).1, hanswers]

end Analyzer

end LuaCoverage
