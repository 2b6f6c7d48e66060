import LuaCoverage.Proofs.Counter.History
import Mathlib.Algebra.BigOperators.Group.Finset.Basic
import Mathlib.Data.Fintype.Basic

/-!
# A store that calls share

When a store is shared, a call that adds holds its lock for one section, in which the counter is
looked up and raised, and if there is none, for a second one, in which the reference is tallied.
Between the two the lock is free: other calls add, the same reference is tallied for others, and
snapshots are taken. So calls in progress are steps of one system, and a run of it is any order of
their sections and of snapshots.

A store reached by a run is told by the sections that have run: each slot has what was counted for
it, and each tallied reference what was dropped for it. What a section does depends on the
registered modules only, which no section changes, so nothing is lost between the two sections of a
call.

Results:
* `Shared.run_alone`: the sections of one call after another are `Store.add`.
* `Shared.exists_finished`: every run can be gone on with until all calls are done.
* `Shared.Reached.step`, `Shared.Reached.run`: what a run is at, by the sections that ran.
* `Shared.shows_of_run`: what the snapshots and the store of a run show.
-/

namespace LuaCoverage.Store
open History

/-- A call that adds to a store. -/
structure Adding where
  address : Address
  amount : Int
  deriving DecidableEq, Repr

/-- How far a call is: it has failed before its first section, it waits for that, it was refused
there and waits for its second one, or it has told whether it was counted. -/
inductive Stage
  | failed (e : NegativeAmount)
  | waiting
  | refused
  | done (counted : Bool)
  deriving DecidableEq, Repr

/-- Whether a call has no section left. -/
def Stage.isFinal : Stage → Bool
  | .failed _ | .done _ => true
  | .waiting | .refused => false

namespace Adding

/-- What a call does when no other runs. -/
def action (c : Adding) : Action := .add c.address c.amount

/-- How far a call is at first. A kind that is unknown is refused without a look at the store. -/
def start (c : Adding) : Stage :=
  if c.amount < 0 then .failed ⟨c.amount⟩
  else if (ProbeKind.ofCode? c.address.kind).isSome then .waiting
  else .refused

end Adding

/-- A section that is run under the lock: the first of a call, its second, or a snapshot. -/
inductive Section (n : Nat)
  | count (i : Fin n)
  | drop (i : Fin n)
  | snapshot
  deriving DecidableEq, Repr

namespace Section

/-- The call whose first section it is. -/
def counting? {n : Nat} : Section n → Option (Fin n)
  | .count i => some i
  | .drop _ | .snapshot => none

/-- The call whose second section it is. -/
def dropping? {n : Nat} : Section n → Option (Fin n)
  | .drop i => some i
  | .count _ | .snapshot => none

end Section

/-- A store, the stages of the calls that share it, and the snapshots taken so far. -/
structure Shared (n : Nat) where
  store : Store
  stages : Fin n → Stage
  snapshots : List Store

namespace Shared
variable {n : Nat}

/-- A store before the first section of its calls. -/
def start (calls : Fin n → Adding) (s : Store) : Shared n := ⟨s, fun i => (calls i).start, []⟩

def moveTo (s : Shared n) (i : Fin n) (stage : Stage) : Shared n :=
  { s with stages := Function.update s.stages i stage }

/-- Runs a section, if its call waits for it. -/
def step (calls : Fin n → Adding) (s : Shared n) : Section n → Option (Shared n)
  | .count i =>
    if s.stages i = .waiting then
      match s.store.count? (calls i).address.reference (calls i).amount with
      | some store => some ({ s with store := store }.moveTo i (.done true))
      | none => some (s.moveTo i .refused)
    else none
  | .drop i =>
    if s.stages i = .refused then
      let store := s.store.drop (calls i).address.reference (calls i).amount
      some ({ s with store := store }.moveTo i (.done false))
    else none
  | .snapshot => some { s with snapshots := s.snapshots ++ [s.store] }

def run (calls : Fin n → Adding) (s : Shared n) (sections : List (Section n)) :
    Option (Shared n) := sections.foldlM (step calls) s

def Finished (s : Shared n) : Prop := ∀ i, (s.stages i).isFinal = true

instance (s : Shared n) : Decidable s.Finished :=
  inferInstanceAs (Decidable (∀ i, (s.stages i).isFinal = true))

variable {calls : Fin n → Adding} {s s' : Shared n} {i : Fin n}

theorem run_append (front back : List (Section n)) :
    run calls s (front ++ back) = (run calls s front).bind fun s' => run calls s' back :=
  List.foldlM_append

theorem run_cons {c : Section n} (hstep : step calls s c = some s') (rest : List (Section n)) :
    run calls s (c :: rest) = run calls s' rest := by
  rw [run, List.foldlM_cons, hstep]
  rfl

@[simp] theorem moveTo_store (s : Shared n) (i : Fin n) (stage : Stage) :
    (s.moveTo i stage).store = s.store := rfl

@[simp] theorem moveTo_snapshots (s : Shared n) (i : Fin n) (stage : Stage) :
    (s.moveTo i stage).snapshots = s.snapshots := rfl

@[simp] theorem moveTo_stages_self (s : Shared n) (i : Fin n) (stage : Stage) :
    (s.moveTo i stage).stages i = stage := Function.update_self ..

@[simp] theorem moveTo_stages_of_ne (s : Shared n) (stage : Stage) {j : Fin n} (hj : j ≠ i) :
    (s.moveTo i stage).stages j = s.stages j := Function.update_of_ne hj ..

/-! ## One call -/

theorem step_count_of_some (hwaiting : s.stages i = .waiting) {store : Store}
    (hcount : s.store.count? (calls i).address.reference (calls i).amount = some store) :
    step calls s (.count i) = some ({ s with store := store }.moveTo i (.done true)) := by
  simp only [step, if_pos hwaiting, hcount]

theorem step_count_of_none (hwaiting : s.stages i = .waiting)
    (hcount : s.store.count? (calls i).address.reference (calls i).amount = none) :
    step calls s (.count i) = some (s.moveTo i .refused) := by
  simp only [step, if_pos hwaiting, hcount]

theorem step_drop (hrefused : s.stages i = .refused) :
    step calls s (.drop i)
      = some ({ s with store := s.store.drop (calls i).address.reference (calls i).amount }.moveTo i
          (.done false)) := by
  simp only [step, if_pos hrefused]

/-- The two sections of a call without a slot, one right after the other. -/
theorem run_count_drop (hwaiting : s.stages i = .waiting)
    (hcount : s.store.count? (calls i).address.reference (calls i).amount = none) :
    run calls s [.count i, .drop i]
      = some ({ s.moveTo i .refused with
          store := s.store.drop (calls i).address.reference (calls i).amount }.moveTo i
            (.done false)) :=
  (run_cons (step_count_of_none hwaiting hcount) _).trans
    (run_cons (step_drop (moveTo_stages_self ..)) [])

/-- The sections of a call that no other comes between do what adding does, and the call tells the
same. -/
theorem run_alone (hstart : s.stages i = (calls i).start) :
    ∃ sections s', run calls s sections = some s'
      ∧ match s.store.add (calls i).address.reference (calls i).amount with
        | .ok (counted, store) => s'.stages i = .done counted ∧ s'.store = store
        | .error e => s'.stages i = .failed e ∧ s'.store = s.store := by
  by_cases hneg : (calls i).amount < 0
  · refine ⟨[], s, rfl, ?_⟩
    rw [add, if_pos hneg]
    exact ⟨by rw [hstart, Adding.start, if_pos hneg], rfl⟩
  rw [add, if_neg hneg]
  rw [Adding.start, if_neg hneg] at hstart
  cases hkind : ProbeKind.ofCode? (calls i).address.kind with
  | none =>
    -- An unknown kind has no first section, and would be refused in it.
    have hrefused : s.stages i = .refused := by simpa [hkind] using hstart
    have hcount : s.store.count? (calls i).address.reference (calls i).amount = none := by
      simp [count?, Address.reference, hkind]
    exact ⟨[.drop i], _, run_cons (step_drop hrefused) [], by simp [hcount]⟩
  | some kind =>
    have hwaiting : s.stages i = .waiting := by simpa [hkind] using hstart
    cases hcount : s.store.count? (calls i).address.reference (calls i).amount with
    | some store =>
      exact ⟨[.count i], _, run_cons (step_count_of_some hwaiting hcount) [], by simp⟩
    | none => exact ⟨[.count i, .drop i], _, run_count_drop hwaiting hcount, by simp⟩

/-- A call can be run to its end at any time. -/
theorem exists_final (calls : Fin n → Adding) (s : Shared n) (i : Fin n) :
    ∃ sections s', run calls s sections = some s' ∧ (s'.stages i).isFinal = true
      ∧ ∀ j, j ≠ i → s'.stages j = s.stages j := by
  cases hs : s.stages i with
  | failed e => exact ⟨[], s, rfl, by rw [hs]; rfl, fun _ _ => rfl⟩
  | done counted => exact ⟨[], s, rfl, by rw [hs]; rfl, fun _ _ => rfl⟩
  | refused =>
    refine ⟨[.drop i], _, run_cons (step_drop hs) [], ?_, fun j hj => moveTo_stages_of_ne _ _ hj⟩
    rw [moveTo_stages_self, Stage.isFinal]
  | waiting =>
    cases hcount : s.store.count? (calls i).address.reference (calls i).amount with
    | some store =>
      refine ⟨[.count i], _, run_cons (step_count_of_some hs hcount) [], ?_,
        fun j hj => moveTo_stages_of_ne _ _ hj⟩
      rw [moveTo_stages_self, Stage.isFinal]
    | none =>
      refine ⟨[.count i, .drop i], _, run_count_drop hs hcount, ?_, fun j hj => ?_⟩
      · rw [moveTo_stages_self, Stage.isFinal]
      · rw [moveTo_stages_of_ne _ _ hj]
        exact moveTo_stages_of_ne _ _ hj

/-- Every run can be gone on with until all calls are done. -/
theorem exists_finished (calls : Fin n → Adding) (s : Shared n) :
    ∃ sections s', run calls s sections = some s' ∧ s'.Finished := by
  have hsome : ∀ (todo : List (Fin n)) (s : Shared n),
      (∀ i, i ∉ todo → (s.stages i).isFinal = true) →
        ∃ sections s', run calls s sections = some s' ∧ s'.Finished := by
    intro todo
    induction todo with
    | nil => exact fun s hs => ⟨[], s, rfl, fun i => hs i List.not_mem_nil⟩
    | cons i rest ih =>
      intro s hs
      obtain ⟨front, mid, hfront, hfinal, hothers⟩ := exists_final calls s i
      obtain ⟨back, s', hback, hfinished⟩ := ih mid fun j hj => by
        by_cases hji : j = i
        · rw [hji, hfinal]
        · rw [hothers j hji]
          exact hs j (by simp [hji, hj])
      exact ⟨front ++ back, s', by rw [run_append, hfront, Option.bind_some, hback], hfinished⟩
  exact hsome (List.finRange n) s fun i hi => absurd (List.mem_finRange i) hi

/-! ## Steps -/

/-- What a section may do. -/
theorem step_cases {c : Section n} (hstep : step calls s c = some s') :
    (∃ i store, c = .count i ∧ s.stages i = .waiting
      ∧ s.store.count? (calls i).address.reference (calls i).amount = some store
      ∧ s' = { s with store := store }.moveTo i (.done true))
    ∨ (∃ i, c = .count i ∧ s.stages i = .waiting
      ∧ s.store.count? (calls i).address.reference (calls i).amount = none
      ∧ s' = s.moveTo i .refused)
    ∨ (∃ i, c = .drop i ∧ s.stages i = .refused
      ∧ s' = { s with store := s.store.drop (calls i).address.reference (calls i).amount }.moveTo i
          (.done false))
    ∨ (c = .snapshot ∧ s' = { s with snapshots := s.snapshots ++ [s.store] }) := by
  cases c with
  | count i =>
    rw [step] at hstep
    split at hstep
    · next hwaiting =>
      split at hstep
      · next store hcount =>
        exact .inl ⟨i, store, rfl, hwaiting, hcount, (Option.some.inj hstep).symm⟩
      · next hcount => exact .inr (.inl ⟨i, rfl, hwaiting, hcount, (Option.some.inj hstep).symm⟩)
    · cases hstep
  | drop i =>
    rw [step] at hstep
    split at hstep
    · next hrefused =>
      exact .inr (.inr (.inl ⟨i, rfl, hrefused, (Option.some.inj hstep).symm⟩))
    · cases hstep
  | snapshot => exact .inr (.inr (.inr ⟨rfl, (Option.some.inj hstep).symm⟩))

theorem snapshots_of_step {c : Section n} (hstep : step calls s c = some s') :
    s'.snapshots = s.snapshots ++ if c = .snapshot then [s.store] else [] := by
  obtain ⟨i, store, rfl, -, -, rfl⟩ | ⟨i, rfl, -, -, rfl⟩ | ⟨i, rfl, -, rfl⟩ | ⟨rfl, rfl⟩ :=
    step_cases hstep <;> simp

/-- Snapshots are kept, and one is taken in every section for it. -/
theorem snapshots_of_run {ran : List (Section n)} (hrun : run calls s ran = some s') :
    ∃ taken, s'.snapshots = s.snapshots ++ taken ∧ taken.length = ran.count .snapshot := by
  induction ran generalizing s with
  | nil =>
    cases hrun
    exact ⟨[], (List.append_nil _).symm, rfl⟩
  | cons c rest ih =>
    obtain ⟨mid, hstep, hrest⟩ := Option.bind_eq_some_iff.1 hrun
    obtain ⟨taken, htaken, hlength⟩ := ih hrest
    refine ⟨(if c = .snapshot then [s.store] else []) ++ taken, ?_, ?_⟩
    · rw [htaken, snapshots_of_step hstep, List.append_assoc]
    · rw [List.length_append, hlength, List.count_cons]
      by_cases hc : c = .snapshot
      · simp [hc, Nat.add_comm]
      · simp [hc]

end Shared

/-! ## What sections add -/

namespace Shared
variable {n : Nat} {calls : Fin n → Adding} {ran : List (Section n)} {h : History} {i : Fin n}

/-- The calls whose first sections are among some. -/
def counts (ran : List (Section n)) : List (Fin n) := ran.filterMap Section.counting?

/-- The calls whose second sections are among some. -/
def drops (ran : List (Section n)) : List (Fin n) := ran.filterMap Section.dropping?

/-- What the first sections of calls look for, the latest first. -/
def counted (calls : Fin n → Adding) (ran : List (Section n)) : History :=
  ((counts ran).map fun i => (calls i).action).reverse

/-- What the second sections of calls drop. -/
def dropped (calls : Fin n → Adding) (ran : List (Section n)) : List (Address × Int) :=
  (drops ran).map fun i => ((calls i).address, (calls i).amount)

/-- The store with a history, behind sections of calls. -/
def storeAfter (h : History) (calls : Fin n → Adding) (ran : List (Section n)) : Store :=
  ⟨History.tallies (counted calls ran ++ h), gather (missed h ++ dropped calls ran)⟩

theorem counts_concat (ran : List (Section n)) (c : Section n) :
    counts (ran ++ [c]) = counts ran ++ c.counting?.toList := by
  rw [counts, List.filterMap_append]
  cases c <;> rfl

theorem drops_concat (ran : List (Section n)) (c : Section n) :
    drops (ran ++ [c]) = drops ran ++ c.dropping?.toList := by
  rw [drops, List.filterMap_append]
  cases c <;> rfl

@[simp] theorem mem_counts : i ∈ counts ran ↔ .count i ∈ ran := by
  rw [counts, List.mem_filterMap]
  constructor
  · rintro ⟨c, hc, hi⟩
    cases c <;> simp_all [Section.counting?]
  · exact fun hi => ⟨_, hi, rfl⟩

@[simp] theorem mem_drops : i ∈ drops ran ↔ .drop i ∈ ran := by
  rw [drops, List.mem_filterMap]
  constructor
  · rintro ⟨c, hc, hi⟩
    cases c <;> simp_all [Section.dropping?]
  · exact fun hi => ⟨_, hi, rfl⟩

theorem counted_concat (ran : List (Section n)) (c : Section n) :
    counted calls (ran ++ [c])
      = (c.counting?.map fun i => (calls i).action).toList ++ counted calls ran := by
  rw [counted, counts_concat]
  cases c <;> simp [Section.counting?, counted]

theorem dropped_concat (ran : List (Section n)) (c : Section n) :
    dropped calls (ran ++ [c])
      = dropped calls ran
        ++ (c.dropping?.map fun i => ((calls i).address, (calls i).amount)).toList := by
  rw [dropped, drops_concat]
  cases c <;> simp [Section.dropping?, dropped]

theorem isHit_of_mem_counted : ∀ c ∈ counted calls ran, c.isHit = true := by
  intro c hc
  obtain ⟨i, -, rfl⟩ := List.mem_map.1 (List.mem_reverse.1 hc)
  rfl

/-- Sections of calls change nothing about which address has which slot. -/
theorem slot?_counted (a : Address) : slot? (counted calls ran ++ h) a = slot? h a :=
  slot?_append_hits isHit_of_mem_counted h a

theorem added?_action {c : Adding} (hamount : 0 ≤ c.amount) :
    c.action.added? = some (c.address, c.amount) := if_neg (by omega)

theorem tallies_of_slot?_none {c : Adding} (hamount : 0 ≤ c.amount)
    (hslot : slot? h c.address = none) :
    History.tallies (c.action :: h) = History.tallies h := by
  refine tallies_of_amountAt (c := c.action) rfl fun path m slot hm => ?_
  rw [amountAt_of_added? (added?_action hamount), slotAt?_of_slot?_none hslot hm, if_neg (by simp)]

theorem count?_of_tallies {s u : Store} (hs : s.tallies = u.tallies) (r : Reference)
    (amount : Int) :
    s.count? r amount = (u.count? r amount).map fun v => { s with tallies := v.tallies } := by
  simp only [count?, hs, Option.bind_eq_bind, Option.map_bind, Function.comp_def, Option.map_some]

/-- What the first section of a call does with a store that has the counts of a history. -/
theorem count?_of_history {s : Store} (hs : s.tallies = History.tallies h) {c : Adding}
    (hamount : 0 ≤ c.amount) :
    s.count? c.address.reference c.amount
      = if (slot? h c.address).isSome then
          some { s with tallies := History.tallies (c.action :: h) }
        else none := by
  rw [count?_of_tallies (u := tallied h) hs]
  cases hslot : slot? h c.address with
  | some slot =>
    obtain ⟨t, ht, hcount⟩ := count?_tallied_of_some hslot c.amount
    rw [hcount, tallies_of_slot (added?_action hamount) hslot ht]
    rfl
  | none =>
    rw [count?_tallied_of_none hslot]
    rfl

end Shared

/-! ## Runs -/

/-- How far a call is when its sections have run, or have not. -/
def Adding.stageAfter (h : History) (c : Adding) (counted dropped : Bool) : Stage :=
  if c.amount < 0 then .failed ⟨c.amount⟩
  else if dropped then .done false
  else if counted then if (slot? h c.address).isSome then .done true else .refused
  else c.start

theorem Adding.stageAfter_waiting {h : History} {c : Adding} {counted dropped : Bool}
    (hstage : c.stageAfter h counted dropped = .waiting) :
    0 ≤ c.amount ∧ counted = false ∧ dropped = false := by
  unfold stageAfter start at hstage
  split_ifs at hstage
  simp_all

theorem Adding.stageAfter_refused {h : History} {c : Adding} {counted dropped : Bool}
    (hstage : c.stageAfter h counted dropped = .refused) :
    0 ≤ c.amount ∧ slot? h c.address = none ∧ dropped = false := by
  have hknown : ProbeKind.ofCode? c.address.kind = none → slot? h c.address = none := by
    intro hkind
    rw [slot?, Option.bind_eq_none_iff]
    intro m _
    simp [ProbeMap.slotAt?, hkind]
  unfold stageAfter start at hstage
  split_ifs at hstage <;> simp_all

/-- A call is done when the section that it needs has run. -/
theorem Adding.stageAfter_final {h : History} {c : Adding} {counted dropped : Bool}
    (hfinal : (c.stageAfter h counted dropped).isFinal = true) (hamount : 0 ≤ c.amount) :
    dropped = true ∨ counted = true ∧ (slot? h c.address).isSome = true := by
  unfold stageAfter start at hfinal
  split_ifs at hfinal <;> simp_all [Stage.isFinal]
  omega

namespace Shared
variable {n : Nat} {calls : Fin n → Adding} {ran : List (Section n)} {h : History} {i : Fin n}
  {s s' : Shared n}

/-- What holds when sections have run on a store with a history: where the store and every call are.
No section of a call runs twice, and what is dropped is what no slot is addressed by. -/
structure Reached (h : History) (calls : Fin n → Adding) (ran : List (Section n)) (s : Shared n) :
    Prop where
  store : s.store = storeAfter h calls ran
  stages : ∀ i, s.stages i = (calls i).stageAfter h (.count i ∈ ran) (.drop i ∈ ran)
  countsOnce : (counts ran).Nodup
  dropsOnce : (drops ran).Nodup
  refused : ∀ i, .drop i ∈ ran → 0 ≤ (calls i).amount ∧ slot? h (calls i).address = none

theorem reached_start (h : History) (calls : Fin n → Adding) :
    Reached h calls [] (start calls (tallied h)) where
  store := by simp [start, storeAfter, tallied, counted, dropped, counts, drops]
  stages i := by simp only [start, Adding.stageAfter, Adding.start]; split_ifs <;> simp_all
  countsOnce := List.nodup_nil
  dropsOnce := List.nodup_nil
  refused i hi := by simp at hi

/-- A section that takes a call to the stage it has with it leaves all others. -/
theorem Reached.stages_moveTo (hs : Reached h calls ran s) {c : Section n} {stage : Stage}
    (store : Store) (hothers : ∀ j, j ≠ i → c ≠ .count j ∧ c ≠ .drop j)
    (hstage : stage = (calls i).stageAfter h (.count i ∈ ran ++ [c]) (.drop i ∈ ran ++ [c])) :
    ∀ j, ({ s with store := store }.moveTo i stage).stages j
      = (calls j).stageAfter h (.count j ∈ ran ++ [c]) (.drop j ∈ ran ++ [c]) := by
  intro j
  by_cases hj : j = i
  · rw [hj, moveTo_stages_self, hstage]
  · obtain ⟨hcount, hdrop⟩ := hothers j hj
    rw [moveTo_stages_of_ne _ _ hj, hs.stages]
    simp [hcount.symm, hdrop.symm]

/-- No section has run twice when one is run that has not run yet. -/
theorem Reached.once (hs : Reached h calls ran s) {c : Section n} (hc : c = .snapshot ∨ c ∉ ran) :
    (counts (ran ++ [c])).Nodup ∧ (drops (ran ++ [c])).Nodup := by
  rw [counts_concat, drops_concat]
  refine (and_congr List.nodup_append_comm List.nodup_append_comm).2 ?_
  cases c with
  | count i =>
    have hnew : i ∉ counts ran := fun hi => by simp_all
    exact ⟨List.nodup_cons.2 ⟨hnew, hs.countsOnce⟩, hs.dropsOnce⟩
  | drop i =>
    have hnew : i ∉ drops ran := fun hi => by simp_all
    exact ⟨hs.countsOnce, List.nodup_cons.2 ⟨hnew, hs.dropsOnce⟩⟩
  | snapshot => exact ⟨hs.countsOnce, hs.dropsOnce⟩

/-- What holds with a section of a call that had not run is told by the store and the stage that it
leads to. -/
theorem Reached.moved (hs : Reached h calls ran s) {c : Section n} (store : Store) {stage : Stage}
    (hnew : c ∉ ran) (hothers : ∀ j, j ≠ i → c ≠ .count j ∧ c ≠ .drop j)
    (hstore : store = storeAfter h calls (ran ++ [c]))
    (hstage : stage = (calls i).stageAfter h (.count i ∈ ran ++ [c]) (.drop i ∈ ran ++ [c]))
    (hrefused : ∀ j, .drop j = c → 0 ≤ (calls j).amount ∧ slot? h (calls j).address = none) :
    Reached h calls (ran ++ [c]) ({ s with store := store }.moveTo i stage) where
  store := hstore
  stages := hs.stages_moveTo store hothers hstage
  countsOnce := (hs.once (.inr hnew)).1
  dropsOnce := (hs.once (.inr hnew)).2
  refused j hj := by
    rcases List.mem_append.1 hj with hj | hj
    · exact hs.refused j hj
    · exact hrefused j (List.mem_singleton.1 hj)

theorem Reached.counted (hs : Reached h calls ran s) (hwaiting : s.stages i = .waiting)
    {store : Store}
    (hcount : s.store.count? (calls i).address.reference (calls i).amount = some store) :
    Reached h calls (ran ++ [.count i]) ({ s with store := store }.moveTo i (.done true)) := by
  obtain ⟨hamount, hnew, hdrop⟩ :=
    Adding.stageAfter_waiting ((hs.stages i).symm.trans hwaiting)
  rw [count?_of_history (congrArg Store.tallies hs.store) hamount, slot?_counted] at hcount
  split at hcount
  case isFalse => cases hcount
  case isTrue hslot =>
    cases hcount
    refine hs.moved _ (by simpa using hnew) (by simp [eq_comm]) ?_ ?_ (by simp)
    · rw [storeAfter, counted_concat, dropped_concat, hs.store, storeAfter]
      simp [Section.counting?, Section.dropping?]
    · simp_all [Adding.stageAfter]

theorem Reached.refuse (hs : Reached h calls ran s) (hwaiting : s.stages i = .waiting)
    (hcount : s.store.count? (calls i).address.reference (calls i).amount = none) :
    Reached h calls (ran ++ [.count i]) (s.moveTo i .refused) := by
  obtain ⟨hamount, hnew, hdrop⟩ :=
    Adding.stageAfter_waiting ((hs.stages i).symm.trans hwaiting)
  rw [count?_of_history (congrArg Store.tallies hs.store) hamount, slot?_counted] at hcount
  split at hcount
  case isTrue => cases hcount
  case isFalse hslot =>
    refine hs.moved s.store (by simpa using hnew) (by simp [eq_comm]) ?_ ?_ (by simp)
    · -- The call is in the history of the counts from now on, and adds nothing to them.
      have hsame := tallies_of_slot?_none (h := Shared.counted calls ran ++ h) hamount
        (by simpa [slot?_counted] using hslot)
      rw [storeAfter, counted_concat, dropped_concat, hs.store, storeAfter]
      simp [Section.counting?, Section.dropping?, hsame]
    · simp_all [Adding.stageAfter]

theorem Reached.drop (hs : Reached h calls ran s) (hrefused : s.stages i = .refused) :
    Reached h calls (ran ++ [.drop i])
      ({ s with store := s.store.drop (calls i).address.reference (calls i).amount }.moveTo i
        (.done false)) := by
  obtain ⟨hamount, hslot, hnew⟩ :=
    Adding.stageAfter_refused ((hs.stages i).symm.trans hrefused)
  refine hs.moved _ (by simpa using hnew) (by simp [eq_comm]) ?_ ?_ ?_
  · rw [storeAfter, counted_concat, dropped_concat, hs.store, storeAfter]
    simp [Section.counting?, Section.dropping?, Store.drop, ← List.append_assoc, gather_concat]
  · simp_all [Adding.stageAfter]
  · rintro j ⟨⟩
    exact ⟨hamount, hslot⟩

theorem Reached.snapshot (hs : Reached h calls ran s) :
    Reached h calls (ran ++ [.snapshot]) { s with snapshots := s.snapshots ++ [s.store] } where
  store := by
    rw [storeAfter, counted_concat, dropped_concat, hs.store, storeAfter]
    simp [Section.counting?, Section.dropping?]
  stages j := by simpa using hs.stages j
  countsOnce := (hs.once (.inl rfl)).1
  dropsOnce := (hs.once (.inl rfl)).2
  refused := by simpa using hs.refused

/-- A section takes what holds of the sections before it to what holds with it. -/
theorem Reached.step (hs : Reached h calls ran s) {c : Section n}
    (hstep : Shared.step calls s c = some s') : Reached h calls (ran ++ [c]) s' := by
  obtain ⟨i, store, rfl, hwaiting, hcount, rfl⟩ | ⟨i, rfl, hwaiting, hcount, rfl⟩
    | ⟨i, rfl, hrefused, rfl⟩ | ⟨rfl, rfl⟩ := step_cases hstep
  · exact hs.counted hwaiting hcount
  · exact hs.refuse hwaiting hcount
  · exact hs.drop hrefused
  · exact hs.snapshot

/-- What a run is at, by the sections that ran. -/
theorem Reached.run (hs : Reached h calls ran s) {more : List (Section n)}
    (hrun : Shared.run calls s more = some s') : Reached h calls (ran ++ more) s' := by
  induction more generalizing ran s with
  | nil =>
    cases hrun
    rwa [List.append_nil]
  | cons c rest ih =>
    obtain ⟨mid, hstep, hrest⟩ := Option.bind_eq_some_iff.1 hrun
    rw [← List.singleton_append, ← List.append_assoc]
    exact ih (hs.step hstep) hrest

end Shared

/-! ## What a store shows -/

namespace History
variable {maps : List ProbeMap}

/-- The history of a store with maps registered, and nothing added. -/
def registered (maps : List ProbeMap) : History := maps.reverse.map .register

/-- The counts of the modules of a history that hold the values of a function. -/
def shown (h : History) (value : ProbeMap → Slot → Int) : List Tally :=
  (paths h).filterMap fun path => (map? path h).map fun m => Tally.tabulate m (value m)

theorem run_registered (maps : List ProbeMap) :
    Store.run (maps.map .register) = tallied (registered maps) := by
  rw [run_eq_tallied, registered, List.map_reverse]

theorem count_registered (m : ProbeMap) (slot : Slot) : count (registered maps) m slot = 0 := by
  refine List.sum_eq_zero fun amount hamount => ?_
  obtain ⟨c, hc, rfl⟩ := List.mem_map.1 hamount
  obtain ⟨other, -, rfl⟩ := List.mem_map.1 ((List.takeWhile_sublist _).subset hc)
  rfl

theorem missed_registered : missed (registered maps) = [] := by
  rw [registered]
  induction maps.reverse with
  | nil => rfl
  | cons m rest ih => simp [missed, Action.isClear, Action.added?, ih]

theorem mem_gather {hits : List (Address × Int)} {entry : StaleHits} :
    entry ∈ gather hits
      ↔ ∃ a, a ∈ hits.map (·.1) ∧ entry = ⟨a.reference, sumAt hits a⟩ := by
  simp [gather, eq_comm]

theorem reference_injective : Function.Injective Address.reference := by
  rintro ⟨path, kind, id, arm⟩ ⟨path', kind', id', arm'⟩ hsame
  simpa [Address.reference] using hsame

theorem nodup_gather (hits : List (Address × Int)) :
    ((gather hits).map StaleHits.reference).Nodup := by
  rw [gather, List.map_map]
  exact (nodup_eraseDups _).map reference_injective

end History

namespace Shared
variable {n : Nat} {calls : Fin n → Adding} {ran : List (Section n)} {h : History} {s : Shared n}

/-- A store shows what sections have done: each slot has the amounts of the calls that address it
and whose first section has run, and each dropped reference those of the calls that have it and
whose second section has run. -/
structure Shows (h : History) (calls : Fin n → Adding) (ran : List (Section n)) (s : Store) :
    Prop where
  tallies : s.tallies = shown h fun m slot =>
    ∑ i, if .count i ∈ ran then (calls i).action.amountAt m slot else 0
  stale : ∀ entry, entry ∈ s.stale ↔ ∃ i, .drop i ∈ ran ∧ entry = ⟨(calls i).address.reference,
    ∑ j, if .drop j ∈ ran then (calls j).action.amountFor (calls i).address else 0⟩
  references : (s.stale.map StaleHits.reference).Nodup

/-- The sum over the calls of a list, each in it once. -/
theorem sum_map_of_nodup {list : List (Fin n)} (hnodup : list.Nodup) (f : Fin n → Int) :
    (list.map f).sum = ∑ i, if i ∈ list then f i else 0 := by
  rw [← List.sum_toFinset f hnodup, ← Finset.sum_ite_mem_eq]
  simp only [List.mem_toFinset]

theorem sumAt_dropped (a : Address) : sumAt (dropped calls ran) a
    = ((drops ran).map fun i => if (calls i).address = a then (calls i).amount else 0).sum := by
  rw [dropped]
  induction drops ran with
  | nil => rfl
  | cons i rest ih =>
    by_cases ha : (calls i).address = a <;> simp_all [sumAt]

theorem amountFor_action {c : Adding} (hamount : 0 ≤ c.amount) (a : Address) :
    c.action.amountFor a = if c.address = a then c.amount else 0 := by
  rw [Action.amountFor, added?_action hamount]

/-- The store that sections of calls on registered modules leave shows what they have done. -/
theorem Reached.shows {maps : List ProbeMap} (hs : Reached (registered maps) calls ran s) :
    Shows (registered maps) calls ran s.store where
  tallies := by
    rw [hs.store, storeAfter, History.tallies, paths_append_hits isHit_of_mem_counted]
    refine List.filterMap_congr fun path _ => ?_
    rw [History.tally?, map?_append_hits isHit_of_mem_counted]
    congr 1
    funext m
    congr 1
    funext slot
    have hperm := List.reverse_perm ((counts ran).map fun i => (calls i).action)
    rw [count_append_hits isHit_of_mem_counted, count_registered, Int.add_zero, Shared.counted,
      (hperm.map _).sum_eq, List.map_map, sum_map_of_nodup hs.countsOnce]
    simp only [mem_counts, Function.comp_apply]
  stale entry := by
    rw [hs.store, storeAfter, mem_gather, missed_registered, List.nil_append]
    have hsum : ∀ a, sumAt (dropped calls ran) a
        = ∑ i, if .drop i ∈ ran then (calls i).action.amountFor a else 0 := by
      intro a
      rw [sumAt_dropped, sum_map_of_nodup hs.dropsOnce]
      refine Finset.sum_congr rfl fun i _ => ?_
      simp only [mem_drops]
      split
      · next hi => rw [amountFor_action (hs.refused i hi).1]
      · rfl
    simp only [hsum]
    simp [dropped]
  references := by
    rw [hs.store]
    exact nodup_gather _

/-- What a run has reached on registered modules. -/
theorem reached_of_run {maps : List ProbeMap} {sections : List (Section n)}
    (hrun : run calls (start calls (Store.run (maps.map .register))) sections = some s) :
    Reached (registered maps) calls sections s := by
  rw [run_registered] at hrun
  exact (reached_start (registered maps) calls).run hrun

/-- When all calls are done, those that were dropped are those that no slot was addressed by, and
the first sections of all others have run. -/
theorem Reached.ran_of_finished (hs : Reached h calls ran s) (hfinished : s.Finished) (i : Fin n) :
    (.drop i ∈ ran ↔ 0 ≤ (calls i).amount ∧ slot? h (calls i).address = none)
      ∧ (0 ≤ (calls i).amount → (slot? h (calls i).address).isSome → .count i ∈ ran) := by
  have hfinal := hfinished i
  rw [hs.stages] at hfinal
  have hran := Adding.stageAfter_final hfinal
  refine ⟨⟨hs.refused i, fun ⟨hamount, hslot⟩ => ?_⟩, fun hamount hslot => ?_⟩
  · obtain hdrop | ⟨-, hsome⟩ := hran hamount
    · simpa using hdrop
    · simp [hslot] at hsome
  · obtain hdrop | ⟨hcount, -⟩ := hran hamount
    · have hnone := (hs.refused i (by simpa using hdrop)).2
      simp [hnone] at hslot
    · simpa using hcount

/-- When all calls are done, every slot has what was added to it. -/
theorem Reached.amountAt_of_finished (hs : Reached h calls ran s) (hfinished : s.Finished)
    {path : String} {m : ProbeMap} (hm : map? path h = some m) (slot : Slot) (i : Fin n) :
    (if .count i ∈ ran then (calls i).action.amountAt m slot else 0)
      = (calls i).action.amountAt m slot := by
  split
  · rfl
  · next hnot =>
    by_cases hamount : 0 ≤ (calls i).amount
    · have hslot : slot? h (calls i).address = none := by
        by_contra hsome
        exact hnot ((hs.ran_of_finished hfinished i).2 hamount (Option.isSome_iff_ne_none.2 hsome))
      rw [amountAt_of_added? (added?_action hamount), slotAt?_of_slot?_none hslot hm,
        if_neg (by simp)]
    · have hnone : (calls i).action.added? = none := if_pos (by omega)
      rw [Action.amountAt, hnone]

/-- When all calls are done, a reference without a slot has what was added to it. -/
theorem Reached.amountFor_of_finished (hs : Reached h calls ran s) (hfinished : s.Finished)
    {a : Address} (hslot : slot? h a = none) (i : Fin n) :
    (if .drop i ∈ ran then (calls i).action.amountFor a else 0)
      = (calls i).action.amountFor a := by
  split
  · rfl
  · next hnot =>
    by_cases hamount : 0 ≤ (calls i).amount
    · have hother : (calls i).address ≠ a := by
        rintro rfl
        exact hnot ((hs.ran_of_finished hfinished i).1.2 ⟨hamount, hslot⟩)
      rw [amountFor_action hamount, if_neg hother]
    · have hnone : (calls i).action.added? = none := if_pos (by omega)
      rw [Action.amountFor, hnone]

/-- When all calls are done, each has told whether its address has a slot. -/
theorem Reached.stages_of_finished (hs : Reached h calls ran s) (hfinished : s.Finished)
    (i : Fin n) :
    s.stages i = if (calls i).amount < 0 then .failed ⟨(calls i).amount⟩
      else .done (slot? h (calls i).address).isSome := by
  obtain ⟨hdrop, hcount⟩ := hs.ran_of_finished hfinished i
  rw [hs.stages, Adding.stageAfter]
  by_cases hneg : (calls i).amount < 0
  · rw [if_pos hneg, if_pos hneg]
  · have hamount : 0 ≤ (calls i).amount := by omega
    rw [if_neg hneg, if_neg hneg]
    cases hslot : slot? h (calls i).address with
    | none => simp [hdrop.2 ⟨hamount, hslot⟩]
    | some slot =>
      have hkept : .drop i ∉ ran := fun hi => by simp [(hdrop.1 hi).2] at hslot
      simp [hkept, hcount hamount (by simp [hslot])]

/-- Calls that share a store with registered modules, in any order of their sections and of
snapshots. A snapshot shows in each slot the amounts of the calls whose first section has run before
it, and of the dropped hits those whose second section has. When all calls are done, every slot has
the sum of what the calls add to it, every reference that a call was refused for is dropped with the
sum of what was added to it, and each call has told whether its address has a slot. From wherever
a run is, all calls can be run to their end. -/
theorem shows_of_run (maps : List ProbeMap) (calls : Fin n → Adding) (sections : List (Section n))
    (hrun : run calls (start calls (Store.run (maps.map .register))) sections = some s) :
    (s.snapshots.length = sections.count .snapshot
      ∧ ∀ front back, sections = front ++ .snapshot :: back →
        ∃ snapshot, s.snapshots[front.count .snapshot]? = some snapshot
          ∧ Shows (registered maps) calls front snapshot)
    ∧ (s.Finished →
      (s.store.tallies = shown (registered maps) fun m slot =>
        ∑ i, (calls i).action.amountAt m slot)
      ∧ (s.store.stale.map StaleHits.reference).Nodup
      ∧ (∀ entry, entry ∈ s.store.stale ↔ ∃ i, 0 ≤ (calls i).amount
        ∧ slot? (registered maps) (calls i).address = none
        ∧ entry = ⟨(calls i).address.reference,
          ∑ j, (calls j).action.amountFor (calls i).address⟩)
      ∧ ∀ i, s.stages i = if (calls i).amount < 0 then .failed ⟨(calls i).amount⟩
        else .done (slot? (registered maps) (calls i).address).isSome)
    ∧ ∃ more s', run calls s more = some s' ∧ s'.Finished := by
  have hs := reached_of_run hrun
  refine ⟨⟨?_, ?_⟩, fun hfinished => ⟨?_, hs.shows.references, fun entry => ?_,
    hs.stages_of_finished hfinished⟩, exists_finished calls s⟩
  · obtain ⟨taken, htaken, hlength⟩ := snapshots_of_run hrun
    simpa [htaken, start] using hlength
  · rintro front back rfl
    rw [run_append, Option.bind_eq_some_iff] at hrun
    obtain ⟨mid, hfront, hrest⟩ := hrun
    refine ⟨mid.store, ?_, (reached_of_run hfront).shows⟩
    obtain ⟨taken, htaken, hlength⟩ := snapshots_of_run hfront
    obtain ⟨later, hlater, -⟩ := snapshots_of_run ((run_cons rfl back).symm.trans hrest)
    rw [hlater, htaken]
    simp [start, ← hlength]
  · rw [hs.shows.tallies]
    refine List.filterMap_congr fun path _ => ?_
    cases hm : map? path (registered maps) with
    | none => rfl
    | some m =>
      rw [Option.map_some, Option.map_some]
      simp only [hs.amountAt_of_finished hfinished hm]
  · rw [hs.shows.stale]
    refine exists_congr fun i => ?_
    rw [(hs.ran_of_finished hfinished i).1, and_assoc]
    refine and_congr_right fun _ => and_congr_right fun hslot => ?_
    simp only [hs.amountFor_of_finished hfinished hslot]

def sampleMap : ProbeMap := ⟨"m.lua", 7, [⟨7, ⟨⟨1, 0⟩, ⟨1, 5⟩⟩⟩], [], []⟩

/-- A call with a slot, two with the same unknown reference, and one with a negative amount. -/
def sampleCalls : Fin 4 → Adding
  | 0 => ⟨⟨"m.lua", "s", 7, none⟩, 2⟩
  | 1 => ⟨⟨"m.lua", "s", 9, none⟩, 3⟩
  | 2 => ⟨⟨"m.lua", "s", 9, none⟩, 4⟩
  | 3 => ⟨⟨"m.lua", "s", 7, none⟩, -1⟩

/-- Both calls with an unknown reference are refused before either is dropped, and snapshots are
taken between. -/
def sampleSections : List (Section 4) :=
  [.count 1, .count 2, .snapshot, .count 0, .drop 2, .snapshot, .drop 1]

theorem shows_of_run_sample :
    ∃ s, run sampleCalls (start sampleCalls (Store.run [.register sampleMap])) sampleSections
        = some s
      ∧ s.Finished
      ∧ s.store = ⟨[⟨"m.lua", 7, [2], [], []⟩], [⟨⟨.string "m.lua", "s", 9, none⟩, 7⟩]⟩
      ∧ (∃ snapshot, s.snapshots[1]? = some snapshot ∧ snapshot.stale.map StaleHits.hits = [4]
        ∧ Shows (registered [sampleMap]) sampleCalls
          [.count 1, .count 2, .snapshot, .count 0, .drop 2] snapshot)
      ∧ s.store.tallies = shown (registered [sampleMap]) fun m slot =>
        ∑ i, (sampleCalls i).action.amountAt m slot := by
  have hread : (run sampleCalls (start sampleCalls (Store.run [.register sampleMap]))
      sampleSections).map (fun s => (decide s.Finished, s.store, s.snapshots.map Store.stale))
      = some (true,
        ⟨[⟨"m.lua", 7, [2], [], []⟩], [⟨⟨.string "m.lua", "s", 9, none⟩, 7⟩]⟩,
        [[], [⟨⟨.string "m.lua", "s", 9, none⟩, 4⟩]]) := by decide +kernel
  obtain ⟨s, hrun, hs⟩ := Option.map_eq_some_iff.1 hread
  obtain ⟨hfinished, hstore, hstale⟩ := by simpa only [Prod.mk.injEq] using hs
  obtain ⟨⟨-, hsnapshots⟩, hend, -⟩ := shows_of_run [sampleMap] sampleCalls sampleSections hrun
  obtain ⟨snapshot, hsnapshot, hshows⟩ :=
    hsnapshots [.count 1, .count 2, .snapshot, .count 0, .drop 2] [.drop 1] rfl
  have hfinished : s.Finished := of_decide_eq_true hfinished
  refine ⟨s, hrun, hfinished, hstore, ⟨snapshot, hsnapshot, ?_, hshows⟩, (hend hfinished).1⟩
  have hget := congrArg (fun stales => stales[1]?.map (List.map StaleHits.hits)) hstale
  have hsnapshot : s.snapshots[1]? = some snapshot := hsnapshot
  simpa [hsnapshot] using hget

end Shared

end LuaCoverage.Store
