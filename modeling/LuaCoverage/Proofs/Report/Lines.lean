import LuaCoverage.Proofs.Data.Table
import LuaCoverage.Proofs.Distinct
import LuaCoverage.Report.Lines
import Mathlib.Algebra.Order.BigOperators.Group.List
import Mathlib.Algebra.Order.Ring.Int

/-!
# Folding statements onto lines

A summary lists the lines on which statements start, each once and in the order of their first
statements, with the hits of all statements that start there. So its counts have the sum that the
hits have; and if no hit is below zero, a line was executed as soon as one of its statements was.

Results:
* `LineSummary.lines_ofHits`: the lines with their counts.
* `LineSummary.sum_ofHits`: the counts of the lines sum to the hits.
* `LineSummary.total_ofHits`, `LineSummary.executed_ofHits`: the numbers of lines.
-/

namespace LuaCoverage.LineSummary
variable {hits : List (Int × Int)} {line : Int}

/-- The hits of all statements that start on a line. -/
def hitsOn (hits : List (Int × Int)) (line : Int) : Int :=
  ((hits.filter fun hit => hit.1 = line).map (·.2)).sum

/-! ## One hit more -/

theorem lines_concat (hits : List (Int × Int)) (hit : Int × Int) :
    (ofHits (hits ++ [hit])).lines = addHits (ofHits hits).lines hit.1 hit.2 := by
  unfold ofHits
  rw [List.foldl_append]
  rfl

theorem hitsOn_concat (hits : List (Int × Int)) (hit : Int × Int) (line : Int) :
    hitsOn (hits ++ [hit]) line = hitsOn hits line + if hit.1 = line then hit.2 else 0 := by
  unfold hitsOn
  rw [List.filter_append, List.map_append, List.sum_append]
  by_cases hline : hit.1 = line <;> simp [hline]

theorem getD_addHits (lines : Table Int Int) (line n other : Int) :
    ((addHits lines line n).find? other).getD 0
      = (lines.find? other).getD 0 + if line = other then n else 0 := by
  unfold addHits
  by_cases hline : line = other
  · subst hline
    rw [Table.find?_put_self, Option.getD_some, if_pos rfl]
  · rw [Table.find?_put_of_ne _ _ (Ne.symm hline), if_neg hline, Int.add_zero]

theorem keys_addHits (lines : Table Int Int) (line n : Int) :
    (addHits lines line n).keys
      = if line ∈ lines.keys then lines.keys else lines.keys ++ [line] := by
  unfold addHits
  split
  · next hmem => exact Table.keys_put_of_mem _ hmem
  · next hmem => exact Table.keys_put_of_not_mem _ hmem

theorem sum_addHits (lines : Table Int Int) (line n : Int) :
    (addHits lines line n).values.sum = lines.values.sum + n := by
  unfold addHits Table.values
  induction lines with
  | nil => simp [Table.put, Table.find?]
  | cons entry rest ih =>
    simp only [Table.put, Table.find?]
    split
    · simp only [List.map_cons, List.sum_cons, Option.getD_some]
      omega
    · simp only [List.map_cons, List.sum_cons, ih]
      omega

/-! ## All of them -/

theorem keys_ofHits (hits : List (Int × Int)) :
    (ofHits hits).lines.keys = (hits.map (·.1)).eraseDups := by
  induction hits using List.reverseRecOn with
  | nil => rfl
  | append_singleton hits hit ih =>
    rw [lines_concat, keys_addHits, ih, List.map_append, List.map_singleton, eraseDups_concat]
    simp only [List.mem_eraseDups]

theorem find?_ofHits (hits : List (Int × Int)) (line : Int) :
    ((ofHits hits).lines.find? line).getD 0 = hitsOn hits line := by
  induction hits using List.reverseRecOn with
  | nil => rfl
  | append_singleton hits hit ih => rw [lines_concat, getD_addHits, ih, hitsOn_concat]

/-- A summary lists each line once, with the hits of its statements. -/
theorem lines_ofHits (hits : List (Int × Int)) :
    (ofHits hits).lines
      = (hits.map (·.1)).eraseDups.map fun line => (line, hitsOn hits line) := by
  have hkeys := keys_ofHits hits
  have hnodup : (ofHits hits).lines.keys.Nodup := by
    rw [hkeys]
    exact nodup_eraseDups _
  rw [Table.eq_map_keys hnodup 0, hkeys]
  simp only [find?_ofHits]

theorem sum_ofHits (hits : List (Int × Int)) :
    (ofHits hits).lines.values.sum = (hits.map (·.2)).sum := by
  induction hits using List.reverseRecOn with
  | nil => rfl
  | append_singleton hits hit ih =>
    rw [lines_concat, sum_addHits, ih, List.map_append, List.sum_append, List.map_singleton,
      List.sum_singleton]

theorem total_ofHits (hits : List (Int × Int)) :
    (ofHits hits).total = (hits.map (·.1)).eraseDups.length := by
  rw [total, lines_ofHits, List.length_map]

/-- Hits that are not below zero sum to more than zero as soon as one of them is not zero. -/
theorem hitsOn_pos_iff (hpos : ∀ hit ∈ hits, 0 ≤ hit.2) :
    0 < hitsOn hits line ↔ ∃ hit ∈ hits, hit.1 = line ∧ hit.2 ≠ 0 := by
  have hnonneg : ∀ n ∈ (hits.filter fun hit => hit.1 = line).map (·.2), 0 ≤ n := by
    intro n hn
    obtain ⟨hit, hhit, rfl⟩ := List.mem_map.1 hn
    exact hpos hit (List.mem_of_mem_filter hhit)
  have hle : 0 ≤ hitsOn hits line := List.sum_nonneg hnonneg
  constructor
  · intro h
    by_contra hnone
    have hzero : hitsOn hits line = 0 := by
      refine List.sum_eq_zero fun n hn => ?_
      obtain ⟨hit, hhit, rfl⟩ := List.mem_map.1 hn
      obtain ⟨hhit, hline⟩ := List.mem_filter.1 hhit
      exact Decidable.byContradiction fun hne =>
        hnone ⟨hit, hhit, of_decide_eq_true hline, hne⟩
    omega
  · intro h
    obtain ⟨hit, hhit, hline, hne⟩ := h
    have hmem : hit.2 ∈ (hits.filter fun hit => hit.1 = line).map (·.2) :=
      List.mem_map_of_mem (List.mem_filter.2 ⟨hhit, decide_eq_true hline⟩)
    have hsum : hitsOn hits line ≠ 0 := fun hzero =>
      hne (List.all_zero_of_le_zero_le_of_sum_eq_zero hnonneg hzero hmem)
    omega

/-- If no hit is below zero, the lines that were executed are those of the statements that were. -/
theorem executed_ofHits (hpos : ∀ hit ∈ hits, 0 ≤ hit.2) :
    (ofHits hits).executed
      = ((hits.filter fun hit => hit.2 ≠ 0).map (·.1)).eraseDups.length := by
  have hexecuted : (ofHits hits).executed
      = ((hits.map (·.1)).filter fun line => hitsOn hits line > 0).eraseDups.length := by
    rw [executed, lines_ofHits, List.filter_map, List.length_map, eraseDups_filter]
    rfl
  rw [hexecuted]
  refine (eraseDups_perm fun line => ?_).length_eq
  simp only [List.mem_filter, List.mem_map, decide_eq_true_eq, hitsOn_pos_iff hpos]
  constructor
  · intro h
    obtain ⟨-, hit, hhit, hline, hne⟩ := h
    exact ⟨hit, ⟨hhit, hne⟩, hline⟩
  · intro h
    obtain ⟨hit, ⟨hhit, hne⟩, hline⟩ := h
    exact ⟨⟨hit, hhit, hline⟩, hit, hhit, hline, hne⟩

end LuaCoverage.LineSummary
