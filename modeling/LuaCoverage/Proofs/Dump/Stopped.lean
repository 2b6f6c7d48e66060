import LuaCoverage.Proofs.Counter.History
import LuaCoverage.Proofs.Counter.Shape
import LuaCoverage.Proofs.Except
import Mathlib.Algebra.Order.BigOperators.Group.List
import Mathlib.Algebra.Order.Group.Int

/-!
# A loading that stops

Loading adds the hits of a dump one after the other, and takes none of them back. The first count
that cannot be added ends it. The store behind it is the store in front of it with the hits that
stand before that count; whatever stands behind it is not looked at.

Results:
* `Dump.load_eq_error_iff`: where a loading stops, and with which store.
* `Dump.load_stopped`: by how much the store has grown.
* `Dump.load_changes_store`: a loading that stops may have changed the store.
-/

namespace LuaCoverage

/-- The store with hits of a dump added. -/
def Store.addHit (s : Store) (h : DumpHits) : Store :=
  match s.add h.reference h.amount with
  | .ok (_, s') => s'
  | .error _ => s

namespace Dump
variable {d : Dump} {s s' : Store} {e : LoadError} {h : DumpHits}

/-! ## The hits of a dump are not negative -/

theorem hitsOf_eq_ok_iff {path : String} {kind : ProbeKind} {id amount : Int} {arm : Option Int} :
    hitsOf path kind id arm amount = .ok h
      ↔ 0 ≤ amount ∧ h = ⟨⟨.string path, kind.code, id, arm⟩, amount⟩ := by
  unfold hitsOf
  split
  · next hneg =>
    simp only [reduceCtorEq, false_iff, not_and]
    intro hpos
    omega
  · next hpos =>
    rw [Except.ok.injEq]
    constructor
    · intro hh
      exact ⟨Int.not_lt.1 hpos, hh.symm⟩
    · intro hh
      exact hh.2.symm

theorem nonneg_of_plainHits {path : String} {kind : ProbeKind} {entry : Scalar × Value}
    (hh : plainHits path kind entry = .ok h) : 0 ≤ h.amount := by
  obtain ⟨_, -, hh⟩ := Except.bind_ok hh
  obtain ⟨_, -, hh⟩ := Except.bind_ok hh
  obtain ⟨hpos, rfl⟩ := hitsOf_eq_ok_iff.1 hh
  exact hpos

theorem nonneg_of_branchHits {path : String} {entry : Scalar × Value}
    (hh : .ok h ∈ branchHits path entry) : 0 ≤ h.amount := by
  simp only [branchHits] at hh
  split at hh
  · simp at hh
  · obtain ⟨number, -, hh⟩ := List.mem_map.1 hh
    obtain ⟨_, -, hh⟩ := Except.bind_ok hh
    obtain ⟨hpos, rfl⟩ := hitsOf_eq_ok_iff.1 hh
    exact hpos

theorem nonneg_of_mem_hits (hh : .ok h ∈ d.hits) : 0 ≤ h.amount := by
  obtain ⟨m, -, hh⟩ := List.mem_flatMap.1 hh
  obtain ⟨x, hx, hh⟩ := List.mem_map.1 hh
  obtain rfl := Except.mapError_eq_ok_iff.1 hh
  rcases List.mem_append.1 hx with hx | hx
  · rcases List.mem_append.1 hx with hx | hx
    all_goals
      obtain ⟨entry, -, hx⟩ := List.mem_map.1 hx
      exact nonneg_of_plainHits hx
  · obtain ⟨entry, -, hx⟩ := List.mem_flatMap.1 hx
    exact nonneg_of_branchHits hx

/-! ## Where a loading stops -/

/-- Hits that are not negative are added whatever the store is. -/
theorem addHits_cons (hpos : 0 ≤ h.amount) (s : Store) (applied : Int)
    (rest : List (Except LoadError DumpHits)) :
    ∃ applied', addHits s applied (.ok h :: rest) = addHits (s.addHit h) applied' rest := by
  have hneg : ¬h.amount < 0 := Int.not_lt.2 hpos
  simp only [addHits, Store.addHit, Store.add, if_neg hneg]
  cases s.count? h.reference h.amount with
  | some s' => exact ⟨_, rfl⟩
  | none => exact ⟨_, rfl⟩

theorem addHits_front {front : List DumpHits} (hpos : ∀ h ∈ front, 0 ≤ h.amount) (s : Store)
    (applied : Int) (rest : List (Except LoadError DumpHits)) :
    ∃ applied', addHits s applied (front.map .ok ++ rest)
      = addHits (front.foldl Store.addHit s) applied' rest := by
  induction front generalizing s applied with
  | nil => exact ⟨applied, rfl⟩
  | cons h front ih =>
    obtain ⟨applied', hcons⟩ := addHits_cons (hpos h (by simp)) s applied (front.map .ok ++ rest)
    rw [List.map_cons, List.cons_append, hcons, List.foldl_cons]
    exact ih (fun x hx => hpos x (by simp [hx])) _ _

/-- The first count of a dump that cannot be added, and the hits in front of it. -/
def StopsAt (d : Dump) (front : List DumpHits) (e : LoadError) : Prop :=
  ∃ rest, d.hits = front.map .ok ++ .error e :: rest

theorem StopsAt.nonneg {front : List DumpHits} (hstop : d.StopsAt front e) :
    ∀ h ∈ front, 0 ≤ h.amount := by
  intro h hh
  obtain ⟨rest, hhits⟩ := hstop
  exact nonneg_of_mem_hits (d := d) (by rw [hhits]; simp [hh])

theorem eq_map_ok_or_stopsAt (d : Dump) :
    (∃ front : List DumpHits, d.hits = front.map .ok) ∨ ∃ front e, d.StopsAt front e := by
  unfold StopsAt
  induction d.hits with
  | nil => exact .inl ⟨[], rfl⟩
  | cons hit hits ih =>
    cases hit with
    | error e => exact .inr ⟨[], e, hits, rfl⟩
    | ok h =>
      rcases ih with ⟨front, rfl⟩ | ⟨front, e, rest, rfl⟩
      · exact .inl ⟨h :: front, rfl⟩
      · exact .inr ⟨h :: front, e, rest, rfl⟩

theorem StopsAt.load_eq {front : List DumpHits} (hstop : d.StopsAt front e) (s : Store) :
    d.load s = (.error e, front.foldl Store.addHit s) := by
  obtain ⟨rest, hhits⟩ := id hstop
  obtain ⟨applied, hadd⟩ := addHits_front hstop.nonneg s 0 (.error e :: rest)
  rw [load, hhits, hadd, addHits]

/-- A loading stops at the first count that cannot be added, with all hits before it added. -/
theorem load_eq_error_iff :
    d.load s = (.error e, s') ↔ ∃ front, d.StopsAt front e ∧ s' = front.foldl Store.addHit s := by
  constructor
  · intro hload
    rcases eq_map_ok_or_stopsAt d with ⟨front, hhits⟩ | ⟨front, e', hstop⟩
    · have hpos : ∀ h ∈ front, 0 ≤ h.amount := fun h hh =>
        nonneg_of_mem_hits (d := d) (by rw [hhits]; simp [hh])
      obtain ⟨applied, hadd⟩ := addHits_front hpos s 0 []
      rw [List.append_nil] at hadd
      rw [load, hhits, hadd] at hload
      cases hload
    · rw [hstop.load_eq] at hload
      cases hload
      exact ⟨front, hstop, rfl⟩
  · rintro ⟨front, hstop, rfl⟩
    exact hstop.load_eq s

/-! ## How the store has grown -/

theorem total_addHit (hpos : 0 ≤ h.amount) (s : Store) :
    (s.addHit h).total = s.total + h.amount := by
  unfold Store.addHit
  split
  · next hadd => exact Store.total_add hadd
  · next error hadd =>
    have hneg := (Store.add_eq_error_iff s h.reference h.amount).1 ⟨error, hadd⟩
    omega

theorem total_foldl_addHit {front : List DumpHits} (hpos : ∀ h ∈ front, 0 ≤ h.amount) (s : Store) :
    (front.foldl Store.addHit s).total = s.total + Tally.sum (front.map DumpHits.amount) := by
  induction front generalizing s with
  | nil => simp [Tally.sum]
  | cons h front ih =>
    rw [List.foldl_cons, ih (fun x hx => hpos x (by simp [hx])), total_addHit (hpos h (by simp)),
      List.map_cons, Tally.sum, Int.add_assoc]

/-- A loading that fails has added exactly the hits that stand before the first count that cannot
be added, one after the other, and nothing of what stands behind it. The same modules are
registered as before, and the sum of all counts and dropped hits has grown by the number of these
hits. So the store is the one it was if there are none, and another one if there is a hit among
them. -/
theorem load_stopped (hload : d.load s = (.error e, s')) :
    ∃ front, d.StopsAt front e ∧ s' = front.foldl Store.addHit s ∧ s.Continues s'
      ∧ s'.total = s.total + Tally.sum (front.map DumpHits.amount)
      ∧ (front = [] → s' = s) ∧ ((∃ h ∈ front, h.amount ≠ 0) → s' ≠ s) := by
  obtain ⟨front, hstop, hs'⟩ := load_eq_error_iff.1 hload
  have hpos := hstop.nonneg
  have hcontinues := Store.Continues.load d s
  rw [hload] at hcontinues
  have htotal : s'.total = s.total + Tally.sum (front.map DumpHits.amount) := by
    rw [hs', total_foldl_addHit hpos]
  refine ⟨front, hstop, hs', hcontinues, htotal, ?_, ?_⟩
  · rintro rfl
    exact hs'
  · rintro ⟨h, hh, hne⟩ heq
    have hle : h.amount ≤ (front.map DumpHits.amount).sum :=
      List.single_le_sum (by simpa using hpos) _ (List.mem_map_of_mem hh)
    have := hpos h hh
    rw [heq, Tally.sum_eq_sum] at htotal
    omega

def brokenMap : ProbeMap := ⟨"m.lua", 0, [⟨0, ⟨⟨1, 0⟩, ⟨1, 5⟩⟩⟩], [], []⟩

/-- A dump whose second count stands under something that is no number. -/
def brokenJson : String := "\x7b\"m.lua\": \x7b\"s\": \x7b\"0\": 2, \"zero\": 1\x7d\x7d\x7d"

def brokenError : LoadError := ⟨"m.lua", .mismatch (.noInteger (.string "zero"))⟩

theorem exists_load_brokenJson : ∃ d, parse brokenJson = .ok d
    ∧ d.load (Store.empty.register brokenMap)
      = (.error brokenError, ⟨[⟨"m.lua", 0, [2], [], []⟩], []⟩) := by
  have hloaded : (parse brokenJson).toOption.map
      (fun d => d.load (Store.empty.register brokenMap))
        = some (.error brokenError, ⟨[⟨"m.lua", 0, [2], [], []⟩], []⟩) := by decide +kernel
  exact Except.exists_of_toOption hloaded

theorem load_stopped_sample :
    ∃ d s' front, parse brokenJson = .ok d
      ∧ d.load (Store.empty.register brokenMap) = (.error brokenError, s')
      ∧ d.StopsAt front brokenError
      ∧ s' = front.foldl Store.addHit (Store.empty.register brokenMap)
      ∧ Tally.sum (front.map DumpHits.amount) = 2 := by
  obtain ⟨d, hd, hload⟩ := exists_load_brokenJson
  obtain ⟨front, hstop, hs', -, htotal, -⟩ := load_stopped hload
  refine ⟨d, _, front, hd, hload, hstop, hs', ?_⟩
  have hbefore : (Store.empty.register brokenMap).total = 0 := by decide
  have hafter : Store.total ⟨[⟨"m.lua", 0, [2], [], []⟩], []⟩ = 2 := by decide
  omega

/-- Loading is not all or nothing: the first count of this dump stays added although the second
one cannot be read. -/
theorem load_changes_store :
    ∃ d s', parse brokenJson = .ok d
      ∧ d.load (Store.empty.register brokenMap) = (.error brokenError, s')
      ∧ (Store.empty.register brokenMap).tallies = [⟨"m.lua", 0, [0], [], []⟩]
      ∧ s'.tallies = [⟨"m.lua", 0, [2], [], []⟩] := by
  obtain ⟨d, hd, hload⟩ := exists_load_brokenJson
  exact ⟨d, _, hd, hload, rfl, rfl⟩

end Dump

end LuaCoverage
