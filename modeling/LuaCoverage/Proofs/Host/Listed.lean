import LuaCoverage.Host.Interpreter
import LuaCoverage.Proofs.Host.Overlay
import LuaCoverage.Proofs.Host.Watched
import Mathlib.Data.List.Sort

/-!
# Modules that are listed

Every host has its own way to keep modules. What is asked of it is that a list that it gives for a
scope holds its modules in that scope, and that neither listing them nor a probe makes one come or
go. Watching a host and making it fail keep these laws.

Results:
* `Memory.lists`, `Interpreter.lists`, `Directory.lists`: the hosts keep the laws.
* `Watched.lists`, `Flaky.lists`: so do a host that is watched and one that is made to fail.
-/

namespace LuaCoverage

/-- Texts have one order, in whatever way they are sorted. -/
theorem Text.sortTexts_eq (texts : List String) :
    sortTexts texts = texts.insertionSort (precedes · ·) := by
  have htotal : Std.Total fun a b : String => precedes a b = true :=
    ⟨fun a b => by simpa using precedes_total a b⟩
  have htrans : IsTrans String fun a b => precedes a b = true := ⟨fun _ _ _ => precedes_trans⟩
  have hantisymm : Std.Antisymm fun a b : String => precedes a b = true :=
    ⟨fun _ _ => precedes_antisymm⟩
  have hsort := List.mergeSort_eq_insertionSort (fun a b : String => precedes a b = true) texts
  simpa [sortTexts] using hsort

variable {σ : Type}

/-- The laws of listing. The modules that are listed for a scope are those that it contains; neither
listing modules nor installing a probe changes which ones there are. -/
structure Host.Lists (h : Host σ) (isModule : String → σ → Prop) : Prop where
  listed : ∀ path scope s paths, (h.listModules scope s).answer = .ok paths →
    (path ∈ paths ↔ isModule path s ∧ Scope.contains scope path = true)
  listModules : ∀ path scope s, isModule path (h.listModules scope s).state ↔ isModule path s
  installProbe : ∀ path name r s,
    isModule path (h.installProbe name r s).state ↔ isModule path s

namespace Memory

/-- The modules in memory are those that have a source. -/
theorem lists : host.Lists fun path m => path ∈ m.sources.keys where
  listed path scope m paths h := by
    cases h
    rw [modules, Text.mem_sortTexts, List.mem_filter]
  listModules _ _ _ := Iff.rfl
  installProbe _ _ _ _ := Iff.rfl

/-- The host with a way to sort that can be evaluated. -/
theorem host_eq : host = { host with
    listModules := fun scope m => .ok ((m.sources.keys.filter fun path =>
      Scope.contains scope path).insertionSort (Text.precedes · ·)) m } := by
  simp only [host, modules, Text.sortTexts_eq]

end Memory

namespace Interpreter

theorem lists : host.Lists fun path i => path ∈ i.modules.map LoadedModule.path where
  listed path scope i paths h := by
    cases h
    rw [Text.mem_sortTexts, List.mem_filter]
  listModules _ _ _ := Iff.rfl
  installProbe _ _ _ _ := Iff.rfl

/-- The host with a way to sort that can be evaluated. -/
theorem host_eq : host = { host with
    listModules := fun scope i => .ok (((i.modules.map LoadedModule.path).filter fun path =>
      Scope.contains scope path).insertionSort (Text.precedes · ·)) i } := by
  simp only [host, Text.sortTexts_eq]

end Interpreter

namespace Directory
variable {d : Directory}

/-- The prelude is no module, since it lies in the output directory. -/
theorem mem_modules_writePrelude (hd : d.Resolved) {name path scope : String}
    {files written : Files} (h : d.writePrelude name files = .ok written) :
    path ∈ d.modules scope written ↔ path ∈ d.modules scope files := by
  refine mem_modules_congr fun q hout => mem_below_writePrelude h ?_ d.source
  rintro rfl
  rw [isBelow_prelude hd] at hout
  cases hout

theorem lists (hd : d.Resolved) : d.host.Lists fun path files => path ∈ d.modules "" files where
  listed path scope files paths h := by
    cases h
    exact mem_modules_scope
  listModules _ _ _ := Iff.rfl
  installProbe path name _ files := by
    simp only [host]
    cases hwritten : d.writePrelude name files with
    | error f => rfl
    | ok written => exact mem_modules_writePrelude hd hwritten

end Directory

namespace Watched
variable {h : Host σ} {isModule : String → σ → Prop}

theorem lists (hlists : h.Lists isModule) :
    (host h).Lists fun path s => isModule path s.inner where
  listed path scope s paths hpaths := hlists.listed path scope s.inner paths hpaths
  listModules path scope s := hlists.listModules path scope s.inner
  installProbe path name r s := hlists.installProbe path name r s.inner

end Watched

namespace Flaky
variable {h : Host σ} {isModule : String → σ → Prop}

theorem lists (hlists : h.Lists isModule) :
    (host h).Lists fun path s => isModule path s.inner where
  listed path scope s paths hpaths := by
    rcases s.call_cases (.listModules scope) (h.listModules scope) with ⟨f, ha, -⟩ | ⟨ha, -⟩
    · cases ha.symm.trans hpaths
    · exact hlists.listed path scope s.inner paths (ha.symm.trans hpaths)
  listModules path scope s := by
    rcases s.call_cases (.listModules scope) (h.listModules scope) with ⟨f, -, hi⟩ | ⟨-, hi⟩
    · exact iff_of_eq (congrArg _ hi)
    · exact (iff_of_eq (congrArg _ hi)).trans (hlists.listModules path scope s.inner)
  installProbe path name r s := by
    rcases s.call_cases (.installProbe name) (h.installProbe name r) with ⟨f, -, hi⟩ | ⟨-, hi⟩
    · exact iff_of_eq (congrArg _ hi)
    · exact (iff_of_eq (congrArg _ hi)).trans (hlists.installProbe path name r s.inner)

end Flaky

end LuaCoverage
