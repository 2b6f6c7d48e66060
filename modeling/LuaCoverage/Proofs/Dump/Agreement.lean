import LuaCoverage.CommandLine.Counts
import LuaCoverage.Proofs.Counter.Shape
import LuaCoverage.Proofs.Dump.Written
import LuaCoverage.Proofs.Probe.Manifest
import LuaCoverage.Proofs.Report.Fitting
import Mathlib.Algebra.BigOperators.Group.Finset.Basic

/-!
# Counting outside and inside

Hits are counted in two ways. Inside, every hit is passed on to a store in which the modules are
registered. Outside, the maps of the modules are written to a manifest, the program prints a dump
of its hits when it ends, and both are read back. The two leave the same counts, the same dropped
hits apart from their order, and the same report.

Results:
* `Tallies.sum_eq`: a tally weighs as much as its hits do one by one.
* `Store.run_added`: adding a tally leaves what its hits leave one by one.
* `Dump.counted_outside`: both ways of counting agree.
-/

namespace LuaCoverage
open Store

/-! ## Hits together and one by one -/

/-- A tally weighs as much as its hits do one by one. -/
theorem Tallies.sum_eq {modules : List ModuleTally} {hits : List Hit} (h : Tallies modules hits)
    (weight : Hit → Int) :
    ((modules.flatMap ModuleTally.entries).map fun (x, n) => n * weight x).sum
      = (hits.map weight).sum := by
  let keys := (modules.flatMap ModuleTally.entries).map (·.1)
  have hentries : ((modules.flatMap ModuleTally.entries).map fun (x, n) => n * weight x)
      = keys.map fun x => hits.count x • weight x := by
    rw [List.map_map]
    refine List.map_congr_left fun e he => ?_
    obtain ⟨-, hn⟩ := (h.exact e.1 e.2).1 he
    simp [hn]
  have hkeys : keys.toFinset = hits.toFinset := by
    ext x
    simp only [keys, List.mem_toFinset, List.mem_map]
    constructor
    · rintro ⟨e, he, rfl⟩
      exact ((h.exact e.1 e.2).1 he).1
    · exact fun hx => ⟨(x, hits.count x), (h.exact _ _).2 ⟨hx, rfl⟩, rfl⟩
  calc ((modules.flatMap ModuleTally.entries).map fun (x, n) => n * weight x).sum
      = (keys.map fun x => hits.count x • weight x).sum := by rw [hentries]
    _ = keys.toFinset.sum fun x => hits.count x • weight x := (List.sum_toFinset _ h.nodup).symm
    _ = hits.toFinset.sum fun x => hits.count x • weight x := by rw [hkeys]
    _ = (hits.map weight).sum := (Finset.sum_list_map_count hits weight).symm

namespace Store

def added (entries : List (Hit × Int)) : List Action :=
  entries.map fun (hit, n) => .add hit.address n

def counted (hits : List Hit) : List Action := hits.map fun hit => .increment hit.address

theorem isHit_of_mem_added {entries : List (Hit × Int)} {c : Action} (hc : c ∈ added entries) :
    c.isHit = true := by
  obtain ⟨_, -, rfl⟩ := List.mem_map.1 hc
  rfl

theorem isHit_of_mem_counted {hits : List Hit} {c : Action} (hc : c ∈ counted hits) :
    c.isHit = true := by
  obtain ⟨_, -, rfl⟩ := List.mem_map.1 hc
  rfl

variable {modules : List ModuleTally} {hits : List Hit}

theorem nonneg_of_tallies (h : Tallies modules hits) :
    ∀ e ∈ modules.flatMap ModuleTally.entries, 0 ≤ e.2 := by
  intro e he
  rw [((h.exact e.1 e.2).1 he).2]
  exact Int.natCast_nonneg _

theorem added?_add (a : Address) {n : Int} (hn : 0 ≤ n) :
    (Action.add a n).added? = some (a, n) := if_neg (Int.not_lt.2 hn)

/-- What a tally adds, weighed by its addresses, is what its hits add one by one. -/
theorem sum_added (h : Tallies modules hits) (amount : Action → Int) (weight : Address → Int)
    (hamount : ∀ c a n, c.added? = some (a, n) → amount c = n * weight a) :
    ((added (modules.flatMap ModuleTally.entries)).map amount).sum
      = ((counted hits).map amount).sum := by
  have hone : ∀ x : Hit, amount (.increment x.address) = weight x.address := by
    intro x
    rw [hamount _ _ _ rfl, Int.one_mul]
  have hmany : ∀ e ∈ modules.flatMap ModuleTally.entries,
      amount (.add e.1.address e.2) = e.2 * weight e.1.address := fun e he =>
    hamount _ _ _ (added?_add _ (nonneg_of_tallies h e he))
  calc ((added (modules.flatMap ModuleTally.entries)).map amount).sum
      = ((modules.flatMap ModuleTally.entries).map fun (x, n) => n * weight x.address).sum := by
        rw [added, List.map_map]
        exact congrArg List.sum (List.map_congr_left hmany)
    _ = (hits.map fun x => weight x.address).sum := h.sum_eq fun x => weight x.address
    _ = ((counted hits).map amount).sum := by
        rw [counted, List.map_map]
        exact congrArg List.sum (List.map_congr_left fun x _ => (hone x).symm)

/-- What a tally adds to is what its hits add to. -/
theorem exists_added_iff (h : Tallies modules hits) (a : Address) :
    (∃ c ∈ added (modules.flatMap ModuleTally.entries), ∃ n, c.added? = some (a, n))
      ↔ ∃ c ∈ counted hits, ∃ n, c.added? = some (a, n) := by
  simp only [added, counted, List.mem_map]
  constructor
  · rintro ⟨_, ⟨e, he, rfl⟩, n, hn⟩
    rw [added?_add _ (nonneg_of_tallies h e he)] at hn
    cases hn
    exact ⟨_, ⟨e.1, ((h.exact e.1 e.2).1 he).1, rfl⟩, 1, rfl⟩
  · rintro ⟨_, ⟨x, hx, rfl⟩, n, hn⟩
    cases hn
    have he := (h.exact x (hits.count x)).2 ⟨hx, rfl⟩
    exact ⟨_, ⟨(x, _), he, rfl⟩, _, added?_add _ (nonneg_of_tallies h _ he)⟩

/-- Adding a tally leaves what its hits leave one by one. -/
theorem run_added (h : Tallies modules hits) (actions : List Action) :
    (run (actions ++ added (modules.flatMap ModuleTally.entries))).tallies
        = (run (actions ++ counted hits)).tallies
      ∧ (run (actions ++ added (modules.flatMap ModuleTally.entries))).stale.Perm
        (run (actions ++ counted hits)).stale := by
  have hleft : ∀ c ∈ (added (modules.flatMap ModuleTally.entries)).reverse, c.isHit = true :=
    fun c hc => isHit_of_mem_added (List.mem_reverse.1 hc)
  have hright : ∀ c ∈ (counted hits).reverse, c.isHit = true :=
    fun c hc => isHit_of_mem_counted (List.mem_reverse.1 hc)
  have hsum : ∀ (amount : Action → Int) (weight : Address → Int),
      (∀ c a n, c.added? = some (a, n) → amount c = n * weight a) →
      ((added (modules.flatMap ModuleTally.entries)).reverse.map amount).sum
        = ((counted hits).reverse.map amount).sum := by
    intro amount weight hamount
    rw [List.map_reverse, List.map_reverse, List.sum_reverse, List.sum_reverse]
    exact sum_added h amount weight hamount
  rw [run_eq_tallied, run_eq_tallied, List.reverse_append, List.reverse_append]
  constructor
  · refine History.tallies_of_sums hleft hright (fun m slot => ?_) _
    refine hsum _ (fun a => if m.slotAt? a = some slot then 1 else 0) fun c a n hc => ?_
    rw [History.amountAt_of_added? hc]
    split <;> simp
  · refine History.stale_of_sums hleft hright (fun a => ?_) (fun a => ?_) _
    · simpa only [List.mem_reverse] using exists_added_iff h a
    · refine hsum _ (fun b => if b = a then 1 else 0) fun c b n hc => ?_
      rw [Action.amountFor, hc]
      simp

/-- Recorders make the hits count one by one. -/
theorem foldlM_recordAll (hits : List Hit) (actions : List Action) :
    (hits.map Hit.arguments).foldlM recordAll (run actions)
      = .ok (run (actions ++ counted hits)) := by
  induction hits generalizing actions with
  | nil => simp [counted, pure, Except.pure]
  | cons x rest ih =>
    have hstep : Action.perform (run actions) (.increment x.address)
        = run (actions ++ [.increment x.address]) := by
      rw [run, run, List.foldl_append]
      rfl
    rw [List.map_cons, List.foldlM_cons, x.recordAll_arguments, hstep, Except.ok_bind, ih,
      List.append_assoc]
    rfl

theorem run_register (maps : List ProbeMap) :
    run (maps.map .register) = maps.foldl register empty := by
  rw [run, List.foldl_map]
  rfl

/-! ## Reports -/

/-- A store holds all modules that were registered under paths of their own. -/
theorem holds_of_registered {maps : List ProbeMap} (hpaths : (maps.map ProbeMap.path).Nodup)
    {m : ProbeMap} (hm : m ∈ maps) : (maps.foldl register empty).Holds m := by
  have hkeep : ∀ (rest : List ProbeMap) (s : Store), s.Holds m →
      m.path ∉ rest.map ProbeMap.path → (rest.foldl register s).Holds m := by
    intro rest
    induction rest with
    | nil => exact fun s hs _ => hs
    | cons other rest ih =>
      intro s hs hnot
      simp only [List.map_cons, List.mem_cons, not_or] at hnot
      exact ih _ (hs.register (Ne.symm hnot.1)) hnot.2
  obtain ⟨front, rest, rfl⟩ := List.append_of_mem hm
  rw [List.map_append, List.nodup_append, List.map_cons, List.nodup_cons] at hpaths
  rw [List.foldl_append, List.foldl_cons]
  exact hkeep rest _ (holds_register ..) hpaths.2.1.1

end Store

theorem Store.tallyFor_congr {s s' : Store} (h : s.tallies = s'.tallies) (m : ProbeMap) :
    s.tallyFor m = s'.tallyFor m := by
  rw [tallyFor, tallyFor, tally?, tally?, h]

namespace Dump

/-- Whether a text holds a dump of hits: JSON that tallies them and contains no marker, alone or
between the first markers of a log. -/
inductive Holds (hits : List Hit) : String → Prop
  | bare {json : String} : Tells hits json → ¬marker.toList <:+: json.toList → Holds hits json
  | marked {json : String} (before after : String) : Tells hits json →
    ¬marker.toList <:+: json.toList →
    ¬marker.toList <:+: before.toList ++ marker.toList.dropLast →
    Holds hits (before ++ marker ++ json ++ marker ++ after)

/-- JSON that tallies hits is the dump of the tally. -/
theorem exists_parse_of_payload {hits : List Hit} {text json : String} (htells : Tells hits json)
    (hpayload : payload text.toList = .ok json.toList) :
    ∃ modules d, Tallies modules hits ∧ parse text = .ok d
      ∧ d.hits = numbers (modules.flatMap ModuleTally.entries) := by
  obtain ⟨v, modules, hjson, hshows, htallies⟩ := htells
  obtain ⟨d, hd, hhits⟩ := exists_ofValue hshows (nonneg_of_tallies htallies)
  refine ⟨modules, d, htallies, ?_, hhits⟩
  rw [parse, hpayload, Except.ok_bind, String.ofList_toList]
  simp only [hjson, hd]

/-- A text that holds a dump of hits is read as a tally of them. -/
theorem exists_parse {hits : List Hit} {text : String} (h : Holds hits text) :
    ∃ modules d, Tallies modules hits ∧ parse text = .ok d
      ∧ d.hits = numbers (modules.flatMap ModuleTally.entries) := by
  cases h with
  | bare htells hinside => exact exists_parse_of_payload htells (payload_bare hinside)
  | marked before after htells hinside hbefore =>
    refine exists_parse_of_payload htells ?_
    obtain ⟨_, _, hjson, ⟨entries, rfl, -⟩, -⟩ := htells
    simpa only [String.toList_append, List.append_assoc] using
      payload_marked hjson hinside hbefore after.toList

/-- Counting outside agrees with counting inside. For any modules with paths of their own and any
hits, where the maps are written to a manifest and a text holds a dump of the hits: the manifest
and the dump can be read back, all of the dump can be added to the modules of the manifest, and
what a command reads from the two files is the result. Passing every hit to a recorder succeeds as
well. Both stores have the same counts, the same report, and the same dropped hits apart from
their order. There is JSON for any hits. -/
theorem counted_outside {files written : Files} {working p manifest : Path} {maps : List ProbeMap}
    {hits : List Hit} {text : String} (hpaths : (maps.map ProbeMap.path).Nodup)
    (hsave : ManifestFile.save files working p maps = .ok (manifest, written))
    (htext : Holds hits text) :
    (∃ json, Tells hits json) ∧ ManifestFile.read written working manifest = .ok maps
      ∧ ∃ d applied outside inside report, parse text = .ok d
        ∧ d.load (maps.foldl Store.register Store.empty) = (.ok applied, outside)
        ∧ (∀ file, written.readText (working.resolve file) file.text = .ok text →
          Counts.read written working file manifest = .ok ⟨outside, maps⟩)
        ∧ (hits.map Hit.arguments).foldlM Store.recordAll (maps.foldl Store.register Store.empty)
          = .ok inside
        ∧ Report.build outside maps = .ok report ∧ Report.build inside maps = .ok report
        ∧ outside.tallies = inside.tallies ∧ outside.stale.Perm inside.stale := by
  obtain ⟨modules, d, htallies, hd, hhits⟩ := exists_parse htext
  obtain ⟨htallies', hstale⟩ := run_added htallies (maps.map .register)
  obtain ⟨applied, hadd⟩ := addHits_numbers (nonneg_of_tallies htallies)
    (run (maps.map .register)) 0
  have hinside := foldlM_recordAll hits (maps.map .register)
  have hload : d.load (run (maps.map .register))
      = (.ok applied, run (maps.map .register ++ added (modules.flatMap ModuleTally.entries))) := by
    rw [load, hhits, hadd, run, run, List.foldl_append, added, List.foldl_map, List.foldl_map]
  rw [run_register] at hload hinside
  have hread := ManifestFile.read_save hsave
  have hholds : ∀ m ∈ maps,
      (run (maps.map .register ++ added (modules.flatMap ModuleTally.entries))).Holds m := by
    intro m hm
    have hcontinues := Continues.load d (maps.foldl Store.register Store.empty)
    rw [hload] at hcontinues
    exact hcontinues.holds m (holds_of_registered hpaths hm)
  obtain ⟨report, hreport⟩ := Report.exists_build hholds
  refine ⟨⟨_, tells_print hits⟩, hread, d, applied, _, _, report, hd, hload, ?_, hinside, hreport, ?_, htallies', hstale⟩
  · intro file hfile
    simp only [Counts.read, hread, hfile, hd, Counts.add, Counts.ofMaps, hload, Except.mapError_ok,
      Except.ok_bind]
  · rw [← Report.build_congr fun m _ => Store.tallyFor_congr htallies' m, hreport]

/-- A module with two statements and a branch of two paths, and ids from 7 on. -/
def sampleMap : ProbeMap :=
  let loc : Location := ⟨⟨1, 0⟩, ⟨1, 5⟩⟩
  ⟨"m.lua", 7, [⟨7, loc⟩, ⟨8, loc⟩], [], [⟨7, "if", 1, loc, [loc, loc]⟩]⟩

/-- Hits of a statement and of the branch, and one of a module without a map. -/
def sampleHits : List Hit :=
  [.statement "m.lua" 8, .branch "m.lua" 7 1, .statement "m.lua" 8, .function "n.lua" 0]

def sampleJson : String :=
  "\x7b\"m.lua\": \x7b\"s\": \x7b\"8\": 2\x7d, \"f\": \x7b\x7d, "
    ++ "\"b\": \x7b\"7\": \x7b\"1\": 1\x7d\x7d\x7d, "
    ++ "\"n.lua\": \x7b\"s\": \x7b\x7d, \"f\": \x7b\"0\": 1\x7d, \"b\": \x7b\x7d\x7d\x7d"

theorem counted_outside_sample :
    ∃ manifest written, ManifestFile.save ⟨[]⟩ (Path.ofString "/w") (Path.ofString "out/maps.json")
        [sampleMap] = .ok (manifest, written)
      ∧ ManifestFile.read written (Path.ofString "/w") manifest = .ok [sampleMap]
      ∧ ∃ d applied outside inside,
        parse ("done\n" ++ marker ++ sampleJson ++ marker ++ "\n") = .ok d
        ∧ d.load (Store.empty.register sampleMap) = (.ok applied, outside)
        ∧ (sampleHits.map Hit.arguments).foldlM Store.recordAll (Store.empty.register sampleMap)
          = .ok inside
        ∧ inside.tallies = [⟨"m.lua", 7, [0, 2], [], [[0, 1]]⟩]
        ∧ outside.tallies = inside.tallies ∧ outside.stale.Perm inside.stale := by
  have hsaved : (ManifestFile.save ⟨[]⟩ (Path.ofString "/w") (Path.ofString "out/maps.json")
      [sampleMap]).toOption.isSome = true := by decide +kernel
  obtain ⟨⟨manifest, written⟩, hsave⟩ : ∃ r, ManifestFile.save ⟨[]⟩ (Path.ofString "/w")
      (Path.ofString "out/maps.json") [sampleMap] = .ok r := by
    cases hr : ManifestFile.save ⟨[]⟩ (Path.ofString "/w") (Path.ofString "out/maps.json")
        [sampleMap] with
    | error e => simp [hr, Except.toOption] at hsaved
    | ok r => exact ⟨r, rfl⟩
  have hprint : Json.print .inline (valueOf (ModuleTally.ofHits sampleHits)) = sampleJson := by
    decide +kernel
  have htells : Tells sampleHits sampleJson := hprint ▸ tells_print sampleHits
  have hholds : Holds sampleHits ("done\n" ++ marker ++ sampleJson ++ marker ++ "\n") :=
    .marked _ _ htells (by decide +kernel) (by decide +kernel)
  obtain ⟨-, hread, d, applied, outside, inside, -, hd, hload, -, hinside, -, -, htallies, hstale⟩ :=
    counted_outside (by simp) hsave hholds
  have hcounts : (((sampleHits.map Hit.arguments).foldlM Store.recordAll
      (Store.empty.register sampleMap)).toOption.map Store.tallies)
      = some [⟨"m.lua", 7, [0, 2], [], [[0, 1]]⟩] := by decide +kernel
  have hinside' : (sampleHits.map Hit.arguments).foldlM Store.recordAll
      (Store.empty.register sampleMap) = .ok inside := hinside
  rw [hinside'] at hcounts
  exact ⟨manifest, written, hsave, hread, d, applied, outside, inside, hd, hload, hinside',
    Option.some.inj hcounts, htallies, hstale⟩

end Dump

end LuaCoverage
