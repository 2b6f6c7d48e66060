import LuaCoverage.Proofs.Stats.Order
import LuaCoverage.Proofs.Stats.Ranked

/-!
# What each option decides

The options of the statistics come in at different places: a kind that takes no part loses its spots
before anything is counted, the least number of hits and the limit come in when the spots are ranked.
So they do not get into each other's way. Ranking is stable, so leaving out spots before it or after
it is the same, even if some tie; and since it puts those with more hits first, asking for more hits
cuts off the end of a list.

Results:
* `filter_mergeSort`: leaving out and sorting commute.
* `hottest_limit`, `hottest_minHits`: what the limit and the least number of hits do to a ranked
  list.
* `Stats.Separate`: what every option does to the statistics, and what it leaves alone.
* `Stats.build_options`: so it is with the statistics of any modules.
-/

namespace LuaCoverage

/-! ## Ranked lists -/

section Ranking
variable {α : Type}

/-- A list is split in one way into elements that pass a test and elements that do not. -/
theorem append_inj_of_split {p : α → Bool} {front back front' back' : List α}
    (h : front ++ back = front' ++ back') (hfront : ∀ a ∈ front, p a = true)
    (hback : ∀ a ∈ back, ¬p a = true) (hfront' : ∀ a ∈ front', p a = true)
    (hback' : ∀ a ∈ back', ¬p a = true) : front = front' ∧ back = back' := by
  have hfilter := congrArg (List.filter p) h
  rw [List.filter_append, List.filter_append, List.filter_eq_self.2 hfront,
    List.filter_eq_self.2 hfront', List.filter_eq_nil_iff.2 hback, List.filter_eq_nil_iff.2 hback',
    List.append_nil, List.append_nil] at hfilter
  subst hfilter
  exact ⟨rfl, List.append_cancel_left h⟩

variable {le : α → α → Bool} (total : ∀ a b, (le a b || le b a) = true)
  (trans : ∀ a b c, le a b = true → le b c = true → le a c = true)
include total trans

/-- Where an element stands in front of a sorted list: behind those that have to come first. -/
theorem mergeSort_cons_split (a : α) (l : List α) :
    ∃ front back, (a :: l).mergeSort le = front ++ a :: back ∧ l.mergeSort le = front ++ back
      ∧ (∀ b ∈ front, (!le a b) = true) ∧ ∀ b ∈ back, ¬(!le a b) = true := by
  obtain ⟨front, back, hcons, hsort, hfront⟩ := List.mergeSort_cons trans total a l
  refine ⟨front, back, hcons, hsort, hfront, ?_⟩
  intro b hb
  have hsorted := List.pairwise_mergeSort trans total (a :: l)
  rw [hcons] at hsorted
  have hab : le a b = true :=
    List.rel_of_pairwise_cons (List.pairwise_append.1 hsorted).2.1 hb
  simp [hab]

/-- Leaving out elements of a sorted list is the same as sorting what is left. -/
theorem filter_mergeSort (p : α → Bool) (l : List α) :
    (l.mergeSort le).filter p = (l.filter p).mergeSort le := by
  induction l with
  | nil => simp
  | cons a rest ih =>
    obtain ⟨front, back, hcons, hsort, hfront, hback⟩ := mergeSort_cons_split total trans a rest
    rw [hsort, List.filter_append] at ih
    rw [hcons, List.filter_append]
    by_cases ha : p a = true
    · obtain ⟨front', back', hcons', hsort', hfront', hback'⟩ :=
        mergeSort_cons_split total trans a (rest.filter p)
      rw [hsort'] at ih
      obtain ⟨hf, hb⟩ := append_inj_of_split ih
        (fun b hb => hfront b (List.mem_of_mem_filter hb))
        (fun b hb => hback b (List.mem_of_mem_filter hb)) hfront' hback'
      rw [List.filter_cons_of_pos ha, List.filter_cons_of_pos ha, hcons', hf, hb]
    · rw [List.filter_cons_of_neg ha, List.filter_cons_of_neg ha, ih]

end Ranking

section Hottest
variable {α : Type} (hits : α → Int) (le : α → α → Bool)

def hottest (limit minHits : Nat) (all : List α) : List α :=
  ((all.filter fun x => hits x ≥ Int.ofNat minHits).mergeSort le).take limit

/-- A smaller limit takes the first of what a larger one takes. -/
theorem hottest_limit {n m : Nat} (hnm : n ≤ m) (minHits : Nat) (all : List α) :
    hottest hits le n minHits all = (hottest hits le m minHits all).take n := by
  rw [hottest, hottest, List.take_take, Nat.min_eq_left hnm]

/-- Where hits go down, those with enough hits stand in front. -/
theorem filter_eq_takeWhile {l : List α} (hl : l.Pairwise fun a b => hits b ≤ hits a) (n : Int) :
    l.filter (fun x => hits x ≥ n) = l.takeWhile fun x => hits x ≥ n := by
  induction hl with
  | nil => rfl
  | @cons a rest hrest _ ih =>
    by_cases ha : hits a ≥ n
    · rw [List.filter_cons_of_pos (by simpa using ha),
        List.takeWhile_cons_of_pos (by simpa using ha), ih]
    · rw [List.filter_cons_of_neg (by simpa using ha),
        List.takeWhile_cons_of_neg (by simpa using ha), List.filter_eq_nil_iff]
      intro b hb
      have := hrest b hb
      simp only [decide_eq_true_eq]
      omega

variable {hits le} (total : ∀ a b, (le a b || le b a) = true)
  (trans : ∀ a b c, le a b = true → le b c = true → le a c = true)
  (mono : ∀ a b, le a b = true → hits b ≤ hits a)
include total trans mono

/-- Asking for more hits cuts a list off where the hits are too few. -/
theorem hottest_minHits {low high : Nat} (hle : low ≤ high) (limit : Nat) (all : List α) :
    hottest hits le limit high all
      = (hottest hits le limit low all).takeWhile fun x => hits x ≥ Int.ofNat high := by
  have henough : all.filter (fun x => hits x ≥ Int.ofNat high)
      = (all.filter fun x => hits x ≥ Int.ofNat low).filter fun x => hits x ≥ Int.ofNat high := by
    rw [List.filter_filter]
    apply List.filter_congr
    intro x _
    have hmono : Int.ofNat low ≤ Int.ofNat high := Int.ofNat_le.2 hle
    rw [Bool.eq_iff_iff, Bool.and_eq_true, decide_eq_true_eq, decide_eq_true_eq]
    omega
  have hsorted := List.pairwise_mergeSort trans total
    (all.filter fun x => hits x ≥ Int.ofNat low)
  rw [hottest, hottest, henough, ← filter_mergeSort total trans,
    filter_eq_takeWhile hits (hsorted.imp fun h => mono _ _ h), List.take_takeWhile]

end Hottest

/-- Hits go down in the order of the spots. -/
theorem HotSpot.hits_le_of_precedes {a b : HotSpot} (h : a.precedes b = true) :
    b.hits ≤ a.hits := by
  have := precedes_iff.1 h
  omega

/-- Hits go down in the order of the files. -/
theorem HotFile.hits_le_of_precedes {a b : HotFile} (h : a.precedes b = true) :
    b.hits ≤ a.hits := by
  have := precedes_iff.1 h
  omega

/-! ## Options -/

/-- The options with a kind of probes switched off. -/
def StatsOptions.without (o : StatsOptions) : ProbeKind → StatsOptions
  | .statement => { o with statements := false }
  | .function => { o with functions := false }
  | .branch => { o with branches := false }

@[simp] theorem StatsOptions.shows_without_self (o : StatsOptions) (kind : ProbeKind) :
    (o.without kind).shows kind = false := by
  cases kind <;> rfl

theorem StatsOptions.shows_without_of_ne (o : StatsOptions) {kind other : ProbeKind}
    (h : other ≠ kind) : (o.without kind).shows other = o.shows other := by
  cases kind <;> cases other <;> first | rfl | exact absurd rfl h

@[simp] theorem StatsOptions.limit_without (o : StatsOptions) (kind : ProbeKind) :
    (o.without kind).limit = o.limit := by
  cases kind <;> rfl

@[simp] theorem StatsOptions.minHits_without (o : StatsOptions) (kind : ProbeKind) :
    (o.without kind).minHits = o.minHits := by
  cases kind <;> rfl

namespace Stats

def ofKind (s : Stats) : ProbeKind → Category
  | .statement => s.statements
  | .function => s.functions
  | .branch => s.branches

theorem rank_eq_hottest (o : StatsOptions) (all : List HotSpot) :
    rank o all = hottest HotSpot.hits HotSpot.precedes o.limit o.minHits all := rfl

theorem rankFiles_eq_hottest (o : StatsOptions) (files : Table String Int) :
    rankFiles o files = hottest HotFile.hits HotFile.precedes o.limit o.minHits
      (files.map fun (path, hits) => HotFile.mk path hits) := rfl

section Category
variable (o : StatsOptions) (kind : ProbeKind) (modules : List Spots)

/-- A kind that takes no part has nothing. -/
theorem category_without_self : category (o.without kind) kind modules = ⟨0, 0, []⟩ := by
  simp [category, sumHits, Tally.sum, rank]

/-- The other kinds stay as they are. -/
theorem category_without_of_ne {kind other : ProbeKind} (h : other ≠ kind) :
    category (o.without kind) other modules = category o other modules := by
  simp only [category, rank, StatsOptions.shows_without_of_ne o h, StatsOptions.limit_without,
    StatsOptions.minHits_without]

end Category

/-- What every option does to statistics that can be made with any options, and what it leaves
alone. -/
structure Separate (run : StatsOptions → Stats) : Prop where
  points : ∀ o limit minHits kind,
    ((run { o with limit, minHits }).ofKind kind).points = ((run o).ofKind kind).points
  hits : ∀ o limit minHits kind,
    ((run { o with limit, minHits }).ofKind kind).hits = ((run o).ofKind kind).hits
  limit_top : ∀ (o : StatsOptions) {n m : Nat}, n ≤ m → ∀ kind,
    ((run { o with limit := n }).ofKind kind).top
      = ((run { o with limit := m }).ofKind kind).top.take n
  limit_files : ∀ (o : StatsOptions) {n m : Nat}, n ≤ m →
    (run { o with limit := n }).files = (run { o with limit := m }).files.take n
  minHits_top : ∀ (o : StatsOptions) {low high : Nat}, low ≤ high → ∀ kind,
    ((run { o with minHits := high }).ofKind kind).top
      <+: ((run { o with minHits := low }).ofKind kind).top
  minHits_files : ∀ (o : StatsOptions) {low high : Nat}, low ≤ high →
    (run { o with minHits := high }).files <+: (run { o with minHits := low }).files
  without_self : ∀ (o : StatsOptions) kind, (run (o.without kind)).ofKind kind = ⟨0, 0, []⟩
  without_other : ∀ (o : StatsOptions) {kind other : ProbeKind}, other ≠ kind →
    (run (o.without kind)).ofKind other = (run o).ofKind other
  without_files : ∀ (o : StatsOptions) kind, (run (o.without kind)).files = (run o).files

/-- The statistics made of spots and of the hits of files, with any options. -/
def made (all : List Spots) (files : Table String Int) (o : StatsOptions) : Stats :=
  ⟨category o .statement all, category o .function all, category o .branch all, rankFiles o files⟩

@[simp] theorem ofKind_made (all : List Spots) (files : Table String Int) (o : StatsOptions)
    (kind : ProbeKind) : (made all files o).ofKind kind = category o kind all := by
  cases kind <;> rfl

theorem separate_made (all : List Spots) (files : Table String Int) :
    Separate (made all files) := by
  constructor
  case points =>
    intro o limit minHits kind
    rw [ofKind_made, ofKind_made]
    rfl
  case hits =>
    intro o limit minHits kind
    rw [ofKind_made, ofKind_made]
    rfl
  case limit_top =>
    intro o n m hnm kind
    rw [ofKind_made, ofKind_made]
    exact hottest_limit _ _ hnm _ _
  case limit_files =>
    intro o n m hnm
    exact hottest_limit _ _ hnm _ _
  case minHits_top =>
    intro o low high hle kind
    rw [ofKind_made, ofKind_made]
    show rank _ _ <+: rank _ _
    rw [rank_eq_hottest, rank_eq_hottest, hottest_minHits HotSpot.precedes_total
      (fun _ _ _ => HotSpot.precedes_trans) (fun _ _ => HotSpot.hits_le_of_precedes) hle]
    exact List.takeWhile_prefix _
  case minHits_files =>
    intro o low high hle
    show rankFiles _ _ <+: rankFiles _ _
    rw [rankFiles_eq_hottest, rankFiles_eq_hottest, hottest_minHits HotFile.precedes_total
      (fun _ _ _ => HotFile.precedes_trans) (fun _ _ => HotFile.hits_le_of_precedes) hle]
    exact List.takeWhile_prefix _
  case without_self =>
    intro o kind
    rw [ofKind_made, category_without_self]
  case without_other =>
    intro o kind other h
    rw [ofKind_made, ofKind_made, category_without_of_ne o all h]
  case without_files =>
    intro o kind
    show rankFiles _ _ = rankFiles _ _
    rw [rankFiles, rankFiles, StatsOptions.limit_without, StatsOptions.minHits_without]

/-- With as many counts as probes statistics can be made with any options, and every option does
what it is for and no more. -/
theorem build_options {s : Store} {maps : List ProbeMap}
    (hpairs : ∀ m ∈ maps, (s.tallyFor m).Pairs m) :
    ∃ run : StatsOptions → Stats, (∀ o, build s maps o = .ok (run o)) ∧ Separate run := by
  refine ⟨made ((spotted s maps).map (·.2)) (fileHits s maps), ?_, separate_made _ _⟩
  intro o
  exact build_of_pairs hpairs o

theorem build_options_sample :
    ∃ run : StatsOptions → Stats, (∀ o, build tiedStore tiedMaps o = .ok (run o)) ∧ Separate run
      ∧ (run .standard).files = [⟨"b.lua", 13⟩, ⟨"a.lua", 2⟩]
      ∧ (run { StatsOptions.standard with limit := 1 }).files = [⟨"b.lua", 13⟩]
      ∧ (run (StatsOptions.standard.without .statement)).files
        = [⟨"b.lua", 13⟩, ⟨"a.lua", 2⟩] := by
  obtain ⟨run, hrun, hseparate⟩ := build_options pairs_tied
  have hfiles : (run .standard).files = [⟨"b.lua", 13⟩, ⟨"a.lua", 2⟩] := by
    have hsort : ProbeMap.sort tiedMaps = [tiedMaps[2], tiedMaps[0], tiedMaps[1]] :=
      ProbeMap.sort_eq_of_sorted (by decide) (by decide)
    have hmade := build_of_pairs pairs_tied .standard
    rw [fileHits, spotted, hsort] at hmade
    rw [Except.ok.inj ((hrun _).symm.trans hmade)]
    exact rankFiles_eq [⟨"b.lua", 13⟩, ⟨"a.lua", 2⟩] (by decide +kernel) (by decide)
  refine ⟨run, hrun, hseparate, hfiles, ?_, ?_⟩
  · have hlimit := hseparate.limit_files .standard (n := 1) (m := 10) (by decide)
    exact hlimit.trans (congrArg (List.take 1) hfiles)
  · exact (hseparate.without_files _ _).trans hfiles

end Stats

end LuaCoverage
