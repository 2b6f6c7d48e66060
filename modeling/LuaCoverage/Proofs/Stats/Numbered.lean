import LuaCoverage.Proofs.Json.Printed
import LuaCoverage.Proofs.Report.Exact
import LuaCoverage.Proofs.Report.Lines
import LuaCoverage.Proofs.Stats.Consumers
import LuaCoverage.Proofs.Stats.Order

/-!
# The numbers of the flat result

The flat result numbers the statements of all modules with one counter, module after module in the
order of their paths. So the number of a statement is its place in its module behind the statements
of all modules with smaller paths, in whatever order the modules were given; every number up to the
first unused one is that of one statement; and what is listed under it is what the store counted for
this statement, and where it stands.

Results:
* `Flat.number_append_cons`: the numbers of a module behind others, in order.
* `Flat.build_eq_told`: what the flat result lists.
* `Flat.perm_range_numbers`: the numbers are those below the number of all statements.
* `Flat.getElem?_number`: what has the number of a statement.
* `Flat.get?_table`, `Flat.keys_table`: the same as data.
* `Flat.build_numbered`: all of this, and the lines of the modules, for any modules in any order.
-/

namespace LuaCoverage
open LuaCoverage.Decimal
variable {s : Store} {m : ProbeMap} {maps other front back : List ProbeMap}

/-! ## Numbers -/

/-- Those of the modules whose paths come before that of a module. -/
def ProbeMap.before (maps : List ProbeMap) (m : ProbeMap) : List ProbeMap :=
  maps.filter fun other => Text.precedes other.path m.path && other.path != m.path

def ProbeMap.statementCount (maps : List ProbeMap) : Nat :=
  (maps.map fun m => m.statements.length).sum

/-- In front of a module in order stand those with smaller paths. -/
theorem ProbeMap.before_append_cons
    (hsorted : (front ++ m :: back).Pairwise fun a b => Text.precedes a.path b.path = true)
    (hpaths : ((front ++ m :: back).map path).Nodup) : before (front ++ m :: back) m = front := by
  rw [List.map_append, List.map_cons, List.nodup_append] at hpaths
  obtain ⟨-, hback, hfront⟩ := hpaths
  obtain ⟨-, hrest, hcross⟩ := List.pairwise_append.1 hsorted
  have hsmaller : ∀ a ∈ front, (Text.precedes a.path m.path && a.path != m.path) = true := by
    intro a ha
    have hne : a.path ≠ m.path := hfront _ (List.mem_map_of_mem ha) _ (by simp)
    simp [hcross a ha m (by simp), hne]
  have hlarger : ∀ a ∈ m :: back, ¬(Text.precedes a.path m.path && a.path != m.path) = true := by
    intro a ha h
    rw [Bool.and_eq_true, bne_iff_ne] at h
    rcases List.mem_cons.1 ha with rfl | ha
    · exact h.2 rfl
    · exact h.2 (Text.precedes_antisymm h.1 ((List.pairwise_cons.1 hrest).1 a ha))
  unfold before
  rw [List.filter_append, List.filter_eq_self.2 hsmaller, List.filter_eq_nil_iff.2 hlarger,
    List.append_nil]

namespace Flat

/-- The number of a statement of a module, the `j`th: behind the statements of all modules with
smaller paths. -/
def number (maps : List ProbeMap) (m : ProbeMap) (j : Nat) : Nat :=
  ProbeMap.statementCount (ProbeMap.before maps m) + j

/-- The numbers of all statements, modules as they are given. -/
def numbers (maps : List ProbeMap) : List Nat :=
  maps.flatMap fun m => (List.range m.statements.length).map (number maps m)

theorem number_append_cons
    (hsorted : (front ++ m :: back).Pairwise fun a b => Text.precedes a.path b.path = true)
    (hpaths : ((front ++ m :: back).map ProbeMap.path).Nodup) (j : Nat) :
    number (front ++ m :: back) m j = ProbeMap.statementCount front + j := by
  rw [number, ProbeMap.before_append_cons hsorted hpaths]

/-- The order in which modules are given does not matter to a number. -/
theorem number_perm (hperm : maps.Perm other) : number maps = number other := by
  funext m j
  unfold number ProbeMap.statementCount ProbeMap.before
  rw [((hperm.filter _).map _).sum_eq]

theorem numbers_perm (hperm : maps.Perm other) : (numbers maps).Perm (numbers other) := by
  unfold numbers
  rw [number_perm hperm]
  exact hperm.flatMap_right _

/-- Numbers of modules in order count up. -/
theorem numbers_eq_range
    (hsorted : maps.Pairwise fun a b => Text.precedes a.path b.path = true)
    (hpaths : (maps.map ProbeMap.path).Nodup) :
    numbers maps = List.range (ProbeMap.statementCount maps) := by
  -- Induction on the modules that are left; their numbers start behind the statements in front.
  have hleft : ∀ front back, front ++ back = maps →
      (back.flatMap fun m => (List.range m.statements.length).map (number maps m))
        = List.range' (ProbeMap.statementCount front) (ProbeMap.statementCount back) := by
    intro front back
    induction back generalizing front with
    | nil => exact fun _ => rfl
    | cons m rest ih =>
      intro h
      have hrest := ih (front ++ [m]) (by rw [← h, List.append_assoc]; rfl)
      have hnumber : number maps m = fun j => ProbeMap.statementCount front + j := by
        funext j
        subst h
        exact number_append_cons hsorted hpaths j
      have hcount : ProbeMap.statementCount (front ++ [m])
          = ProbeMap.statementCount front + m.statements.length := by
        simp [ProbeMap.statementCount]
      have hmodule : (List.range m.statements.length).map (number maps m)
          = List.range' (ProbeMap.statementCount front) m.statements.length := by
        rw [hnumber, List.range_eq_range', List.map_add_range', Nat.add_zero]
      rw [List.flatMap_cons, hrest, hmodule, hcount, ProbeMap.statementCount,
        ProbeMap.statementCount, ProbeMap.statementCount, List.map_cons, List.sum_cons]
      exact List.range'_append_1 ..
  rw [List.range_eq_range']
  exact hleft [] maps rfl

/-- The statements of all modules are numbered one to one, from zero on. -/
theorem perm_range_numbers (hpaths : (maps.map ProbeMap.path).Nodup) :
    (numbers maps).Perm (List.range (ProbeMap.statementCount maps)) := by
  have hsort := ProbeMap.sort_perm maps
  have hcount : ProbeMap.statementCount (ProbeMap.sort maps) = ProbeMap.statementCount maps :=
    (hsort.map _).sum_eq
  rw [← hcount, ← numbers_eq_range (ProbeMap.sort_pairwise maps) (ProbeMap.nodup_sort hpaths)]
  exact numbers_perm hsort.symm

/-! ## Statements under their numbers -/

/-- The entry of a statement, the `j`th of a module. -/
def entry (s : Store) (m : ProbeMap) (j : Nat) (p : StatementProbe) : FlatEntry :=
  ⟨m.path, p.loc.start.line, s.hitsAt m (.statement j)⟩

/-- The lines on which the statements of a module start, with the hits of each. -/
def lineHits (s : Store) (m : ProbeMap) : List (Int × Int) :=
  m.statements.mapIdx fun j p => (p.loc.start.line, s.hitsAt m (.statement j))

/-- With as many counts as statements, these are the counts of the module. -/
theorem map_snd_lineHits (h : (s.tallyFor m).statements.length = m.statements.length) :
    (lineHits s m).map (·.2) = (s.tallyFor m).statements := by
  apply List.ext_getElem
  · simp [lineHits, h]
  · intro j hj hk
    have hhits : s.hitsAt m (.statement j) = (s.tallyFor m).statements[j] :=
      Store.hitsAt_of_at? (List.getElem?_eq_getElem hk)
    simp [lineHits, hhits]

theorem entriesOf_eq_mapIdx (h : (s.tallyFor m).statements.length = m.statements.length) :
    entriesOf m (s.tallyFor m) = m.statements.mapIdx (entry s m) := by
  rw [entriesOf, ← map_snd_lineHits h]
  apply List.ext_getElem <;> simp [lineHits, entry]

theorem summarize_mapIdx (s : Store) (m : ProbeMap) :
    summarize (m.statements.mapIdx (entry s m)) = LineSummary.ofHits (lineHits s m) := by
  unfold summarize lineHits
  congr 1
  apply List.ext_getElem <;> simp [entry]

/-- The flat result that lists the statements of modules in the order of their paths, each with what
the store counted. -/
def told (s : Store) (maps : List ProbeMap) : Flat where
  entries := (ProbeMap.sort maps).flatMap fun m => m.statements.mapIdx (entry s m)
  summaries := (ProbeMap.sort maps).map fun m => (m.path, LineSummary.ofHits (lineHits s m))

/-- With a count for each statement, this is what is made of the modules. -/
theorem build_eq_told (hpaths : (maps.map ProbeMap.path).Nodup)
    (hlength : ∀ m ∈ maps, (s.tallyFor m).statements.length = m.statements.length) :
    build s maps = .ok (told s maps) := by
  have hentries : ∀ m ∈ ProbeMap.sort maps,
      entriesOf m (s.tallyFor m) = m.statements.mapIdx (entry s m) := by
    intro m hm
    exact entriesOf_eq_mapIdx (hlength m (ProbeMap.mem_sort.1 hm))
  have hsummaries : ((ProbeMap.sort maps).map fun m =>
      (m.path, summarize (entriesOf m (s.tallyFor m))))
        = (ProbeMap.sort maps).map fun m => (m.path, LineSummary.ofHits (lineHits s m)) := by
    refine List.map_congr_left fun m hm => ?_
    rw [hentries m hm, summarize_mapIdx]
  rw [build_maps hlength hpaths, List.flatMap_congr hentries, hsummaries]
  rfl

theorem nextId_told (s : Store) (maps : List ProbeMap) :
    (told s maps).nextId = ProbeMap.statementCount maps := by
  rw [nextId, told, List.length_flatMap, ProbeMap.statementCount,
    ← ((ProbeMap.sort_perm maps).map _).sum_eq]
  simp only [List.length_mapIdx]

theorem find?_summaries_told (hpaths : (maps.map ProbeMap.path).Nodup) (hm : m ∈ maps) :
    (told s maps).summaries.find? m.path = some (LineSummary.ofHits (lineHits s m)) := by
  have hkeys : (told s maps).summaries.keys.Nodup := by
    rw [Table.keys, told, List.map_map]
    exact ProbeMap.nodup_sort hpaths
  rw [Table.find?_eq_some_iff hkeys]
  exact List.mem_map_of_mem (ProbeMap.mem_sort.2 hm)

/-- What modules list one after the other, at the place behind those in front. -/
theorem getElem?_flatMap_append_cons {α β : Type} {front back : List α} {a : α} (f : α → List β)
    {j : Nat} (hj : j < (f a).length) :
    ((front ++ a :: back).flatMap f)[(front.flatMap f).length + j]? = (f a)[j]? := by
  rw [List.flatMap_append, List.flatMap_cons, List.getElem?_append_right (Nat.le_add_right ..),
    Nat.add_sub_cancel_left, List.getElem?_append_left hj]

/-- Under the number of a statement is its entry. -/
theorem getElem?_number (hpaths : (maps.map ProbeMap.path).Nodup) (hm : m ∈ maps) {j : Nat}
    {p : StatementProbe} (hp : m.statements[j]? = some p) :
    (told s maps).entries[number maps m j]? = some (entry s m j p) := by
  have hsort := ProbeMap.sort_perm maps
  have hsorted := ProbeMap.sort_pairwise maps
  have hnodup := ProbeMap.nodup_sort hpaths
  obtain ⟨front, back, hsplit⟩ := List.append_of_mem (ProbeMap.mem_sort.2 hm)
  rw [number_perm hsort.symm, told]
  rw [hsplit] at hsorted hnodup ⊢
  have hlt : j < (m.statements.mapIdx (entry s m)).length := by
    rw [List.length_mapIdx]
    exact (List.getElem?_eq_some_iff.1 hp).1
  have hlength : ProbeMap.statementCount front
      = (front.flatMap fun m => m.statements.mapIdx (entry s m)).length := by
    simp [ProbeMap.statementCount, List.length_flatMap]
  rw [number_append_cons hsorted hnodup, hlength,
    getElem?_flatMap_append_cons (fun m : ProbeMap => m.statements.mapIdx (entry s m)) hlt,
    List.getElem?_mapIdx, hp]
  rfl

end Flat

/-! ## As data -/

namespace Value

/-- The keys of a mapping, in order. -/
def keys : Value → List Scalar
  | .mapping entries => entries.map (·.1)
  | _ => []

theorem get?_object (entries : Table String Value) (key : String) :
    (object entries).get? key = entries.find? key := by
  unfold object get?
  induction entries with
  | nil => rfl
  | cons entry rest ih =>
    simp only [lookup, List.map_cons, Table.find?] at ih ⊢
    by_cases hkey : entry.1 = key
    · rw [List.find?_cons_of_pos (by simp [hkey]), if_pos hkey]
      rfl
    · rw [List.find?_cons_of_neg (by simp [hkey]), if_neg hkey, ih]

theorem keys_object (entries : Table String Value) :
    (object entries).keys = entries.keys.map Scalar.string := by
  simp [object, keys, Table.keys]

end Value

namespace Flat

theorem find?_numbered {α : Type} (first n : Nat) (entries : List α) :
    Table.find? ((numbered first entries).map fun entry => (natText entry.1, entry.2))
      (natText (first + n)) = entries[n]? := by
  induction entries generalizing first n with
  | nil => rfl
  | cons e rest ih =>
    simp only [numbered, List.map_cons, Table.find?]
    cases n with
    | zero => simp
    | succ n =>
      have hne : ¬natText first = natText (first + (n + 1)) := by
        intro h
        have := natText_injective h
        omega
      rw [if_neg hne, List.getElem?_cons_succ, ← ih (first + 1) n, Nat.add_right_comm]
      rfl

theorem get?_table (f : Flat) (encode : FlatEntry → Value) (n : Nat) :
    (f.table encode).get? (natText n) = (f.entries[n]?).map encode := by
  have htable : f.table encode
      = .object (((numbered 0 f.entries).map fun entry => (natText entry.1, entry.2)).map
        fun entry => (entry.1, encode entry.2)) := by
    rw [table, List.map_map]
    rfl
  have hfind := find?_numbered 0 n f.entries
  rw [Nat.zero_add] at hfind
  rw [htable, Value.get?_object, Table.find?_map, hfind]

theorem keys_table (f : Flat) (encode : FlatEntry → Value) :
    (f.table encode).keys = (List.range f.nextId).map fun n => .string (natText n) := by
  rw [table, Value.keys_object, Table.keys, List.map_map, List.range_eq_range', nextId,
    ← numbered_map_fst, List.map_map, List.map_map]
  rfl

/-! ## The whole result -/

/-- A flat result numbers the statements of modules one to one, lists under each number what a store
counted for its statement and where this stands, and folds the hits of every module onto its
lines. -/
structure Exact (s : Store) (maps : List ProbeMap) (f : Flat) : Prop where
  nextId : f.nextId = ProbeMap.statementCount maps
  bijective : (numbers maps).Perm (List.range f.nextId)
  next : ∀ summary, (f.toValue summary).get? "nextId" = some (.nat f.nextId)
  hits : ∀ summary, ∃ hits, (f.toValue summary).get? "hits" = some hits
    ∧ hits.keys = (List.range f.nextId).map (fun n => .string (natText n))
    ∧ ∀ m ∈ maps, ∀ j p, m.statements[j]? = some p →
      hits.get? (natText (number maps m j)) = some (.int (s.hitsAt m (.statement j)))
  places : ∀ summary, ∃ places, (f.toValue summary).get? "map" = some places
    ∧ places.keys = (List.range f.nextId).map (fun n => .string (natText n))
    ∧ ∀ m ∈ maps, ∀ j p, m.statements[j]? = some p →
      places.get? (natText (number maps m j))
        = some (.object [("file", .string m.path), ("line", .int p.loc.start.line)])
  lines : ∃ summaries, (f.toValue true).get? "summary" = some summaries
    ∧ summaries.keys.Perm (maps.map fun m => .string m.path)
    ∧ ∀ m ∈ maps, ∃ summary : LineSummary, summaries.get? m.path = some summary.toValue
      ∧ summary.lines.values.sum = ((lineHits s m).map (·.2)).sum
      ∧ summary.total = ((lineHits s m).map (·.1)).eraseDups.length
      ∧ summary.executed
        = (((lineHits s m).filter fun hit => hit.2 ≠ 0).map (·.1)).eraseDups.length

section Parts
variable (f : Flat)

theorem get?_hits (summary : Bool) :
    (f.toValue summary).get? "hits" = some (f.table fun e => .int e.hits) := by
  rw [toValue, Value.get?_object]
  rfl

theorem get?_map (summary : Bool) : (f.toValue summary).get? "map"
    = some (f.table fun e => .object [("file", .string e.file), ("line", .int e.line)]) := by
  rw [toValue, Value.get?_object]
  rfl

theorem get?_nextId (summary : Bool) :
    (f.toValue summary).get? "nextId" = some (.nat f.nextId) := by
  rw [toValue, Value.get?_object]
  rfl

theorem get?_summary : (f.toValue true).get? "summary"
    = some (.object (f.summaries.map fun entry => (entry.1, entry.2.toValue))) := by
  rw [toValue, Value.get?_object]
  rfl

end Parts

/-- If no count is below zero, what lists the statements of modules is exact. -/
theorem exact_told (hpaths : (maps.map ProbeMap.path).Nodup)
    (hpos : ∀ m ∈ maps, ∀ hit ∈ lineHits s m, 0 ≤ hit.2) : Exact s maps (told s maps) := by
  constructor
  case nextId => exact nextId_told s maps
  case bijective =>
    rw [nextId_told]
    exact perm_range_numbers hpaths
  case next => exact get?_nextId _
  case hits =>
    intro summary
    refine ⟨_, get?_hits _ summary, keys_table _ _, ?_⟩
    intro m hm j p hp
    rw [get?_table, getElem?_number hpaths hm hp]
    rfl
  case places =>
    intro summary
    refine ⟨_, get?_map _ summary, keys_table _ _, ?_⟩
    intro m hm j p hp
    rw [get?_table, getElem?_number hpaths hm hp]
    rfl
  case lines =>
    refine ⟨_, get?_summary _, ?_, ?_⟩
    · rw [Value.keys_object, Table.keys, told, List.map_map, List.map_map, List.map_map]
      exact (ProbeMap.sort_perm maps).map _
    · intro m hm
      refine ⟨LineSummary.ofHits (lineHits s m), ?_, LineSummary.sum_ofHits _,
        LineSummary.total_ofHits _, LineSummary.executed_ofHits (hpos m hm)⟩
      rw [Value.get?_object, Table.find?_map, find?_summaries_told hpaths hm]
      rfl

/-- Take any modules with paths of their own, in any order, and a store that has a count for each
statement of those that it knows, none below zero. Then the flat result can be made and is exact. -/
theorem build_numbered (hpaths : (maps.map ProbeMap.path).Nodup)
    (hlength : ∀ m ∈ maps, (s.tallyFor m).statements.length = m.statements.length)
    (hpos : ∀ m ∈ maps, ∀ n ∈ (s.tallyFor m).statements, 0 ≤ n) :
    ∃ f, build s maps = .ok f ∧ Exact s maps f := by
  refine ⟨told s maps, build_eq_told hpaths hlength, exact_told hpaths ?_⟩
  intro m hm hit hhit
  have hmem : hit.2 ∈ (lineHits s m).map (·.2) := List.mem_map_of_mem hhit
  rw [map_snd_lineHits (hlength m hm)] at hmem
  exact hpos m hm hit.2 hmem

/-- Three modules, not in the order of their paths: one with two statements on one line, one without
statements, and one that the store does not know. -/
def numberedMaps : List ProbeMap :=
  let loc : Nat → Location := fun line => ⟨⟨line, 0⟩, ⟨line, 5⟩⟩
  [⟨"c.lua", 4, [⟨4, loc 7⟩, ⟨5, loc 9⟩, ⟨6, loc 7⟩], [], []⟩, ⟨"b.lua", 0, [], [], []⟩,
    ⟨"a.lua", 0, [⟨0, loc 1⟩, ⟨1, loc 2⟩], [], []⟩]

/-- Counts of two of them, and of another module. -/
def numberedStore : Store :=
  ⟨[⟨"b.lua", 0, [], [], []⟩, ⟨"d.lua", 0, [1], [], []⟩, ⟨"c.lua", 4, [3, 0, 2], [], []⟩], []⟩

theorem build_numbered_sample :
    ∃ f hits places, build numberedStore numberedMaps = .ok f ∧ f.nextId = 5
      ∧ numbers numberedMaps = [2, 3, 4, 0, 1]
      ∧ (f.toValue false).get? "hits" = some hits
      ∧ hits.keys = ["0", "1", "2", "3", "4"].map Scalar.string
      ∧ hits.get? (natText 4) = some (.int 2) ∧ hits.get? (natText 1) = some (.int 0)
      ∧ (f.toValue false).get? "map" = some places
      ∧ places.get? (natText 3) = some (.object [("file", .string "c.lua"), ("line", .int 9)]) := by
  have hlength : ∀ m ∈ numberedMaps,
      (numberedStore.tallyFor m).statements.length = m.statements.length := by decide +kernel
  have hpos : ∀ m ∈ numberedMaps, ∀ n ∈ (numberedStore.tallyFor m).statements, 0 ≤ n := by
    decide +kernel
  obtain ⟨f, hf, hexact⟩ := build_numbered (by decide) hlength hpos
  obtain ⟨hits, hhits, hkeys, hat⟩ := hexact.hits false
  obtain ⟨places, hplaces, -, hplace⟩ := hexact.places false
  have hnextId : f.nextId = 5 := by rw [hexact.nextId]; rfl
  refine ⟨f, hits, places, hf, hnextId, by decide +kernel, hhits, ?_, ?_, ?_, hplaces, ?_⟩
  · rw [hkeys, hnextId]
    decide +kernel
  · exact hat _ (List.mem_cons_self ..) 2 _ rfl
  · exact hat _ (List.mem_of_getLast? rfl) 1 _ rfl
  · exact hplace _ (List.mem_cons_self ..) 1 _ rfl

end Flat

end LuaCoverage
