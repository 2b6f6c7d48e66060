import LuaCoverage.Proofs.Distinct
import LuaCoverage.Proofs.Dump.Tallied
import LuaCoverage.Proofs.Json.Printed

/-!
# Every run has a dump

The hits of a run can always be tallied, and the tally written as JSON: the hits are grouped by
module, kind, id and arm, every group in the order of its first hit, and a group is written with
its size.

Results:
* `ModuleTally.tallies_ofHits`: the groups tally the hits.
* `Dump.tells_print`: there is JSON that tallies any hits.
-/

namespace LuaCoverage
open LuaCoverage.Decimal

namespace Hit

def path : Hit → String
  | .statement path _ | .function path _ | .branch path _ _ => path

/-- The id of a statement of a module. -/
def statementOf? (path : String) : Hit → Option Int
  | .statement p id => if p = path then some id else none
  | _ => none

/-- The id of a function of a module. -/
def functionOf? (path : String) : Hit → Option Int
  | .function p id => if p = path then some id else none
  | _ => none

/-- The id of a branch of a module. -/
def branchOf? (path : String) : Hit → Option Int
  | .branch p id _ => if p = path then some id else none
  | _ => none

def armOf? (path : String) (id : Int) : Hit → Option Int
  | .branch p i arm => if p = path ∧ i = id then some arm else none
  | _ => none

variable {x : Hit} {p : String} {id arm : Int}

theorem statementOf?_eq_some : x.statementOf? p = some id ↔ x = .statement p id := by
  cases x <;> simp [statementOf?]

theorem functionOf?_eq_some : x.functionOf? p = some id ↔ x = .function p id := by
  cases x <;> simp [functionOf?]

theorem branchOf?_eq_some : x.branchOf? p = some id ↔ ∃ arm, x = .branch p id arm := by
  cases x <;> simp [branchOf?]

theorem armOf?_eq_some : x.armOf? p id = some arm ↔ x = .branch p id arm := by
  cases x <;> simp [armOf?, and_assoc]

/-- What is found in hits, every value once. -/
def distinct (hits : List Hit) (f : Hit → Option Int) : List Int := (hits.filterMap f).eraseDups

theorem mem_distinct {hits : List Hit} {f : Hit → Option Int} {n : Int} :
    n ∈ distinct hits f ↔ ∃ x ∈ hits, f x = some n := by
  rw [distinct, List.mem_eraseDups, List.mem_filterMap]

theorem nodup_distinct (hits : List Hit) (f : Hit → Option Int) : (distinct hits f).Nodup :=
  nodup_eraseDups _

end Hit

namespace ModuleTally
open Hit
variable {hits : List Hit} {p : String}

/-- The numbers of the hits of a module. -/
def ofPath (hits : List Hit) (path : String) : ModuleTally where
  path := path
  statements := (distinct hits (statementOf? path)).map fun id =>
    (id, hits.count (.statement path id))
  functions := (distinct hits (functionOf? path)).map fun id => (id, hits.count (.function path id))
  branches := (distinct hits (branchOf? path)).map fun id =>
    (id, (distinct hits (armOf? path id)).map fun arm => (arm, hits.count (.branch path id arm)))

/-- The numbers of hits of all their modules. -/
def ofHits (hits : List Hit) : List ModuleTally :=
  (hits.map Hit.path).eraseDups.map (ofPath hits)

theorem mem_entries_ofPath {x : Hit} {n : Int} :
    (x, n) ∈ (ofPath hits p).entries ↔ x.path = p ∧ x ∈ hits ∧ n = hits.count x := by
  simp only [entries, ofPath, List.map_map, List.flatMap_map, List.mem_append, List.mem_map,
    List.mem_flatMap, Function.comp_apply, mem_distinct, statementOf?_eq_some,
    functionOf?_eq_some, branchOf?_eq_some, armOf?_eq_some, exists_eq_right, Prod.mk.injEq]
  cases x with
  | statement path id =>
    constructor
    · rintro ((⟨i, hi, hx, rfl⟩ | ⟨_, -, h, -⟩) | ⟨_, -, _, -, h, -⟩)
      · cases hx
        exact ⟨rfl, hi, rfl⟩
      · cases h
      · cases h
    · rintro ⟨rfl, hx, rfl⟩
      exact .inl (.inl ⟨id, hx, rfl, rfl⟩)
  | function path id =>
    constructor
    · rintro ((⟨_, -, h, -⟩ | ⟨i, hi, hx, rfl⟩) | ⟨_, -, _, -, h, -⟩)
      · cases h
      · cases hx
        exact ⟨rfl, hi, rfl⟩
      · cases h
    · rintro ⟨rfl, hx, rfl⟩
      exact .inl (.inr ⟨id, hx, rfl, rfl⟩)
  | branch path id arm =>
    constructor
    · rintro ((⟨_, -, h, -⟩ | ⟨_, -, h, -⟩) | ⟨i, -, a, ha, hx, rfl⟩)
      · cases h
      · cases h
      · cases hx
        exact ⟨rfl, ha, rfl⟩
    · rintro ⟨rfl, hx, rfl⟩
      exact .inr ⟨id, ⟨_, hx, arm, rfl⟩, arm, hx, rfl, rfl⟩

theorem nodup_entries_ofPath (hits : List Hit) (p : String) :
    ((ofPath hits p).entries.map (·.1)).Nodup := by
  have hkeys : (ofPath hits p).entries.map (·.1)
      = (distinct hits (statementOf? p)).map (.statement p)
        ++ (distinct hits (functionOf? p)).map (.function p)
        ++ (distinct hits (branchOf? p)).flatMap fun id =>
          (distinct hits (armOf? p id)).map (.branch p id) := by
    simp only [entries, ofPath, List.map_append, List.map_map, List.flatMap_map, List.map_flatMap]
    rfl
  rw [hkeys, List.nodup_append, List.nodup_append, List.nodup_flatMap]
  refine ⟨⟨?_, ?_, ?_⟩, ⟨?_, ?_⟩, ?_⟩
  · exact (nodup_distinct ..).map fun a b h => by cases h; rfl
  · exact (nodup_distinct ..).map fun a b h => by cases h; rfl
  · simp
  · exact fun id _ => (nodup_distinct ..).map fun a b h => by cases h; rfl
  · refine (nodup_distinct ..).imp fun hne x hx hy => hne ?_
    obtain ⟨_, -, rfl⟩ := List.mem_map.1 hx
    obtain ⟨_, -, h⟩ := List.mem_map.1 hy
    cases h
    rfl
  · rintro x hx _ hy rfl
    obtain ⟨_, -, hy⟩ := List.mem_flatMap.1 hy
    obtain ⟨_, -, rfl⟩ := List.mem_map.1 hy
    simp at hx

/-- Grouping hits tallies them. -/
theorem tallies_ofHits (hits : List Hit) : Tallies (ofHits hits) hits where
  nodup := by
    rw [ofHits, List.flatMap_map, List.map_flatMap, List.nodup_flatMap]
    refine ⟨fun path _ => nodup_entries_ofPath hits path, ?_⟩
    refine (nodup_eraseDups _).imp fun hne x hx hy => hne ?_
    obtain ⟨e, he, rfl⟩ := List.mem_map.1 hx
    obtain ⟨d, hd, heq⟩ := List.mem_map.1 hy
    rw [← (mem_entries_ofPath.1 he).1, ← heq, (mem_entries_ofPath.1 hd).1]
  exact x n := by
    simp only [ofHits, List.flatMap_map, List.mem_flatMap, List.mem_eraseDups, List.mem_map,
      mem_entries_ofPath]
    exact ⟨fun ⟨_, _, _, hx⟩ => hx, fun hx => ⟨_, ⟨x, hx.1, rfl⟩, rfl, hx⟩⟩

end ModuleTally

namespace Dump
open Hit ModuleTally

/-- A number under the decimal form of another, as the entry of an object. -/
def field (entry : Int × Int) : String × Value := (intText entry.1, .int entry.2)

def branchField (branch : Int × List (Int × Int)) : String × Value :=
  (intText branch.1, .object (branch.2.map field))

def moduleField (m : ModuleTally) : String × Value :=
  (m.path, .object [(ProbeKind.statement.code, .object (m.statements.map field)),
    (ProbeKind.function.code, .object (m.functions.map field)),
    (ProbeKind.branch.code, .object (m.branches.map branchField))])

def valueOf (modules : List ModuleTally) : Value := .object (modules.map moduleField)

theorem object_map_field (entries : List (Int × Int)) :
    Value.object (entries.map field) = .mapping (entries.map numbered) := by
  rw [Value.object, List.map_map]
  rfl

theorem shows_valueOf (modules : List ModuleTally) : Shows (valueOf modules) modules := by
  refine ⟨_, rfl, ?_⟩
  rw [List.map_map, List.forall₂_map_right_iff]
  refine List.forall₂_same.2 fun m _ => ?_
  have hbranches : Value.object (m.branches.map branchField)
      = .mapping (m.branches.map fun b =>
        (.string (intText b.1), .mapping (b.2.map numbered))) := by
    rw [Value.object, List.map_map]
    simp only [← object_map_field]
    rfl
  refine ⟨_, _, rfl, .inl ?_, .inl ?_, ?_, .inl (congrArg some hbranches)⟩
  · rw [← object_map_field]
    rfl
  · rw [← object_map_field]
    rfl
  · rw [List.forall₂_map_right_iff]
    exact List.forall₂_same.2 fun b _ => .mapping b.1 b.2

open Json in
theorem plain_valueOf (hits : List Hit) : Plain (valueOf (ofHits hits)) := by
  have hdistinct : ∀ f, ((distinct hits f).map id).Nodup := fun f => by
    rw [List.map_id]
    exact nodup_distinct hits f
  have hmodule : ∀ path, Plain (moduleField (ofPath hits path)).2 := by
    intro path
    refine .object (by simp [ProbeKind.code]) ?_
    simp only [List.forall_mem_cons, ofPath, List.map_map]
    refine ⟨?_, ?_, ?_, by simp⟩
    · exact plain_object (hdistinct _) fun _ _ => .int _
    · exact plain_object (hdistinct _) fun _ _ => .int _
    · refine plain_object (hdistinct _) fun id _ => ?_
      rw [List.map_map]
      exact plain_object (hdistinct _) fun _ _ => .int _
  rw [valueOf, ofHits, List.map_map]
  refine .object ?_ fun entry he => ?_
  · rw [List.map_map]
    exact (List.map_id _).symm ▸ nodup_eraseDups _
  · obtain ⟨path, -, rfl⟩ := List.mem_map.1 he
    exact hmodule path

/-- Whether a text is JSON that tallies hits. -/
def Tells (hits : List Hit) (json : String) : Prop :=
  ∃ v modules, Json.parse json = .ok v ∧ Shows v modules ∧ Tallies modules hits

/-- The groups of hits are written as JSON that tallies them. -/
theorem tells_print (hits : List Hit) :
    Tells hits (Json.print .inline (valueOf (ofHits hits))) :=
  ⟨_, _, (plain_valueOf hits).parse_print .inline, shows_valueOf _, tallies_ofHits hits⟩

end Dump

end LuaCoverage
