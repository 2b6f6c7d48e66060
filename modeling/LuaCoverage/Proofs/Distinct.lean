import Mathlib.Data.List.Induction
import Mathlib.Data.List.Nodup
import Mathlib.Data.List.Pairwise
import Mathlib.Data.List.Perm.Basic

/-!
# Lists without their repetitions, and sorted lists

What is left of a list when every element is kept at its first place only, and what comes of sorting
where there is one order only.

Results:
* `nodup_eraseDups`: nothing comes twice.
* `eraseDups_concat`: what an element at the end adds.
* `appendNew_concat`: what an element at the end adds to what is new.
* `eraseDups_perm`: lists with the same members leave the same, apart from the order.
* `take_eraseDups_cons`: what an element in front does to the first ones.
* `mergeSort_eq_of_perm`: elements that stand in one order only are sorted into it.
-/

namespace LuaCoverage
variable {α : Type} [BEq α] [LawfulBEq α]

theorem nodup_eraseDups (l : List α) : l.eraseDups.Nodup := by
  induction hsize : l.length using Nat.strongRecOn generalizing l with
  | ind size ih =>
    cases l with
    | nil => simp
    | cons a rest =>
      rw [List.eraseDups_cons, List.nodup_cons]
      constructor
      · rw [List.mem_eraseDups]
        simp
      · refine ih _ ?_ _ rfl
        have := List.length_filter_le (fun b => !b == a) rest
        rw [← hsize, List.length_cons]
        omega

theorem eraseDups_concat [DecidableEq α] (l : List α) (a : α) :
    (l ++ [a]).eraseDups = if a ∈ l then l.eraseDups else l.eraseDups ++ [a] := by
  rw [List.eraseDups_append]
  by_cases ha : a ∈ l <;> simp [ha, List.removeAll, List.eraseDups_cons]

theorem eraseDups_perm {l l' : List α} (h : ∀ a, a ∈ l ↔ a ∈ l') :
    l.eraseDups.Perm l'.eraseDups := by
  rw [List.perm_ext_iff_of_nodup (nodup_eraseDups l) (nodup_eraseDups l')]
  intro a
  rw [List.mem_eraseDups, List.mem_eraseDups, h]

/-- A list, and behind it once everything else that another list has. -/
def appendNew [DecidableEq α] (old l : List α) : List α :=
  old ++ l.eraseDups.filter fun a => a ∉ old

theorem appendNew_concat [DecidableEq α] (old l : List α) (a : α) :
    appendNew old (l ++ [a])
      = if a ∈ appendNew old l then appendNew old l else appendNew old l ++ [a] := by
  unfold appendNew
  rw [eraseDups_concat]
  by_cases hold : a ∈ old
  · rw [if_pos (List.mem_append_left _ hold)]
    split <;> simp [hold]
  · by_cases hnew : a ∈ l <;> simp [hold, hnew]

/-! ## The first of them -/

theorem eraseDups_filter [DecidableEq α] (p : α → Bool) (l : List α) :
    (l.filter p).eraseDups = l.eraseDups.filter p := by
  induction l using List.reverseRecOn with
  | nil => rfl
  | append_singleton l a ih =>
    rw [List.filter_append, eraseDups_concat]
    by_cases ha : p a = true
    · have hone : [a].filter p = [a] := by simp [ha]
      rw [hone, eraseDups_concat, ih]
      simp only [List.mem_filter, ha, and_true]
      split
      · rfl
      · rw [List.filter_append, hone]
    · have hnone : [a].filter p = [] := by simp [ha]
      rw [hnone, List.append_nil, ih]
      split
      · rfl
      · rw [List.filter_append, hnone, List.append_nil]

/-- Leaving out an element that is not among the first changes nothing in front of it. -/
theorem take_filter_of_not_mem {l : List α} {a : α} {n : Nat} (ha : a ∉ l.take n) :
    (l.filter fun b => !b == a).take n = l.take n := by
  induction n generalizing l with
  | zero => rfl
  | succ n ih =>
    cases l with
    | nil => rfl
    | cons b rest =>
      rw [List.take_succ_cons, List.mem_cons, not_or] at ha
      have hb : (!b == a) = true := by simpa using Ne.symm ha.1
      rw [List.filter_cons, if_pos hb, List.take_succ_cons, List.take_succ_cons, ih ha.2]

/-- Leaving out one of the first elements makes room for one more. -/
theorem take_filter_of_mem {l : List α} {a : α} {n : Nat} (hl : l.Nodup) (ha : a ∈ l.take (n + 1)) :
    (l.filter fun b => !b == a).take n = (l.take (n + 1)).filter fun b => !b == a := by
  induction l generalizing n with
  | nil => simp at ha
  | cons b rest ih =>
    obtain ⟨hb, hrest⟩ := List.nodup_cons.1 hl
    rw [List.take_succ_cons] at ha ⊢
    by_cases hba : b = a
    · subst hba
      have hkeep : ∀ c ∈ rest, (!c == b) = true := by
        intro c hc
        have hne : c ≠ b := by
          rintro rfl
          exact hb hc
        simpa using hne
      rw [List.filter_cons_of_neg (by simp), List.filter_cons_of_neg (by simp),
        List.filter_eq_self.2 hkeep, List.filter_eq_self.2]
      intro c hc
      exact hkeep c (List.mem_of_mem_take hc)
    · have hmem : a ∈ rest.take n := (List.mem_cons.1 ha).resolve_left (Ne.symm hba)
      have hkeep : (!b == a) = true := by simpa using hba
      cases n with
      | zero => simp at hmem
      | succ n =>
        rw [List.filter_cons, if_pos hkeep, List.filter_cons, if_pos hkeep, List.take_succ_cons,
          ih hrest hmem]

/-- An element in front of a list that is kept at its first place only. -/
theorem take_eraseDups_cons [DecidableEq α] (n : Nat) (a : α) (l : List α) :
    (a :: l).eraseDups.take (n + 1)
      = a :: if a ∈ l.eraseDups.take (n + 1) then
          (l.eraseDups.take (n + 1)).filter fun b => !b == a
        else l.eraseDups.take n := by
  rw [List.eraseDups_cons, eraseDups_filter, List.take_succ_cons]
  split
  · next ha => rw [take_filter_of_mem (nodup_eraseDups l) ha]
  · next ha =>
    rw [take_filter_of_not_mem]
    intro hmem
    exact ha (List.take_subset_take_left _ (Nat.le_succ n) hmem)

omit [BEq α] [LawfulBEq α] in
/-- Elements that stand in one order only are sorted into it. -/
theorem mergeSort_eq_of_perm {le : α → α → Bool} (total : ∀ a b, (le a b || le b a) = true)
    (trans : ∀ a b c, le a b = true → le b c = true → le a c = true) {l sorted : List α}
    (hperm : sorted.Perm l)
    (hsorted : sorted.Pairwise fun a b => le a b = true ∧ le b a = false) :
    l.mergeSort le = sorted := by
  have hsort := (List.mergeSort_perm l le).trans hperm.symm
  refine hsort.eq_of_pairwise ?_ (List.pairwise_mergeSort trans total l) (hsorted.imp And.left)
  intro a b ha hb hab hba
  refine Classical.byContradiction fun hne => ?_
  have hsymm : Std.Symm fun a b : α => ¬(le a b = true ∧ le b a = true) :=
    ⟨fun _ _ hab hba => hab hba.symm⟩
  have hapart : sorted.Pairwise fun a b => ¬(le a b = true ∧ le b a = true) :=
    hsorted.imp fun h hboth => by simp [h.2] at hboth
  exact hapart.forall (hsort.mem_iff.1 ha) hb hne ⟨hab, hba⟩

end LuaCoverage
