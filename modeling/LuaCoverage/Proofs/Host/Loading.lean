import LuaCoverage.Host.Interpreter
import LuaCoverage.Host.Memory
import LuaCoverage.Proofs.Data.Table
import Mathlib.Data.List.Induction

/-!
# What hosts load

A host in memory has a table of its own for what it loads in place of modules; a host inside an
interpreter keeps it with every module. By listing, resolving, overriding, restoring and loading
modules the two cannot be told apart: what they answer follows from the sources and from the
operations so far. The last override or restore of a module decides what is loaded for it.

Results:
* `Loader.Tracks.perform`, `Loader.Tracks.shows_after`: what an operation answers, and what a state
  shows behind any operations.
* `Loader.Tracks.contract`: a host that tracks overrides keeps the contract of hosts.
* `Memory.tracks`, `Interpreter.tracks`: both hosts do so.
* `Loader.contract_agree`: both keep the contract, and answer the same.
-/

namespace LuaCoverage

/-- A host, and what it loads for a path. -/
structure Loader (σ : Type) where
  host : Host σ
  load : (path : String) → σ → Except Fault String

namespace Loader

/-- What may be asked of a host about its modules. -/
inductive Operation
  | listModules (scope : String)
  | resolve (path : String)
  | override (path text : String)
  | restore (path : String)
  | load (path : String)
  deriving DecidableEq, Repr

/-- What a host answers. -/
inductive Answer
  | paths (found : List String)
  | text (found : String)
  | done
  deriving DecidableEq, Repr

/-- The path of the module that an operation is about. -/
def Operation.path? : Operation → Option String
  | .listModules _ => none
  | .resolve path | .override path _ | .restore path | .load path => some path

variable {σ τ : Type}

def perform (l : Loader σ) (op : Operation) (s : σ) : Reply σ Answer :=
  match op with
  | .listModules scope =>
    let r := l.host.listModules scope s
    ⟨r.answer.map .paths, r.state⟩
  | .resolve path =>
    let r := l.host.resolve path s
    ⟨r.answer.map .text, r.state⟩
  | .override path text =>
    let r := l.host.override path text s
    ⟨r.answer.map fun _ => .done, r.state⟩
  | .restore path =>
    let r := l.host.restore path s
    ⟨r.answer.map fun _ => .done, r.state⟩
  | .load path => ⟨(l.load path s).map .text, s⟩

def after (l : Loader σ) (s : σ) (ops : List Operation) : σ :=
  ops.foldl (fun s op => (l.perform op s).state) s

/-- The answers to operations, one after the other. -/
def answers (l : Loader σ) (s : σ) : List Operation → List (Except Fault Answer)
  | [] => []
  | op :: rest => (l.perform op s).answer :: answers l (l.perform op s).state rest

/-! ## The contract -/

/-- What an operation sets in place of a module: a text if it overrides a module that there is,
nothing if it restores it. -/
def Operation.sets? (sources : Table String String) (path : String) :
    Operation → Option (Option String)
  | .override p text =>
    if p = path ∧ (sources.find? path).isSome then some (some text) else none
  | .restore p => if p = path then some none else none
  | _ => none

/-- The text that stands in place of a module behind operations, by the last one that sets it. -/
def standing? (sources : Table String String) (ops : List Operation) (path : String) :
    Option String :=
  (ops.reverse.findSome? (Operation.sets? sources path)).join

def sourceOf (sources : Table String String) (path : String) : Except Fault String :=
  match sources.find? path with
  | some source => .ok source
  | none => .error (.unknownModule path)

/-- What has to be answered if texts stand in place of some modules. -/
def due (sources : Table String String) (standing : String → Option String) :
    Operation → Except Fault Answer
  | .listModules scope =>
    .ok (.paths (Text.sortTexts (sources.keys.filter fun path => Scope.contains scope path)))
  | .resolve path => (sourceOf sources path).map .text
  | .override path _ => (sourceOf sources path).map fun _ => .done
  | .restore _ => .ok .done
  | .load path => (sourceOf sources path).map fun source => .text ((standing path).getD source)

/-- The contract of a host: modules are listed and resolved as they are, and what is loaded for a
module is the text of the last override that no restore follows, or else its source. An override of
no module and a restore of one that is loaded as it is have no effect, and no operation on another
module changes an answer. -/
structure Contract (l : Loader σ) (sources : Table String String) (start : σ) : Prop where
  answer : ∀ ops op, (l.perform op (l.after start ops)).answer
    = due sources (standing? sources ops) op
  override_unknown : ∀ ops path text, sources.find? path = none →
    l.perform (.override path text) (l.after start ops)
      = .fail (.unknownModule path) (l.after start ops)
  restore_unset : ∀ ops path, standing? sources ops path = none →
    l.perform (.restore path) (l.after start ops) = .ok .done (l.after start ops)
  apart : ∀ ops op path, op.path? = some path →
    (l.perform op (l.after start ops)).answer
      = (l.perform op (l.after start (ops.filter fun o => o.path? = some path))).answer

/-! ## Overrides that stand -/

variable {sources : Table String String} {path : String}

theorem standing?_concat (ops : List Operation) (op : Operation) :
    standing? sources (ops ++ [op]) path
      = (op.sets? sources path).getD (standing? sources ops path) := by
  rw [standing?, List.reverse_concat, List.findSome?_cons]
  cases op.sets? sources path <;> rfl

/-- An operation sets the text of the module that it is about. -/
theorem Operation.path?_of_sets? {op : Operation} {text? : Option String}
    (h : op.sets? sources path = some text?) : op.path? = some path := by
  cases op with
  | override p text =>
    simp only [sets?] at h
    split at h
    · next hp => exact congrArg some hp.1
    · cases h
  | restore p =>
    simp only [sets?] at h
    split at h
    · next hp => exact congrArg some hp
    · cases h
  | listModules scope => cases h
  | resolve p => cases h
  | load p => cases h

/-- An override of a module that there is sets its text, and one of no module sets nothing. -/
theorem getD_sets?_override (standing : String → Option String) (path text p : String) :
    ((Operation.override path text).sets? sources p).getD (standing p)
      = if path = p ∧ (sources.find? path).isSome then some text else standing p := by
  simp only [Operation.sets?]
  by_cases hp : path = p
  · subst hp
    split <;> rfl
  · simp [hp]

theorem getD_sets?_restore (standing : String → Option String) (path p : String) :
    ((Operation.restore path).sets? sources p).getD (standing p)
      = if path = p then none else standing p := by
  simp only [Operation.sets?]
  split <;> rfl

/-- What stands in place of a module is set by the operations on it. -/
theorem standing?_filter (ops : List Operation) :
    standing? sources (ops.filter fun op => op.path? = some path) path
      = standing? sources ops path := by
  induction ops using List.reverseRecOn with
  | nil => rfl
  | append_singleton ops op ih =>
    rw [List.filter_append, standing?_concat, ← ih]
    by_cases hpath : op.path? = some path
    · rw [List.filter_cons_of_pos (by simpa using hpath), List.filter_nil, standing?_concat]
    · have hsets : op.sets? sources path = none :=
        Option.eq_none_iff_forall_ne_some.2 fun text? h => hpath (Operation.path?_of_sets? h)
      rw [List.filter_cons_of_neg (by simpa using hpath), List.filter_nil, List.append_nil, hsets,
        Option.getD_none]

/-- What is due for an operation depends on what stands in place of its module. -/
theorem due_congr {op : Operation} {standing standing' : String → Option String}
    (hop : op.path? = some path) (h : standing path = standing' path) :
    due sources standing op = due sources standing' op := by
  cases op with
  | load p =>
    cases hop
    simp only [due, h]
  | listModules scope => rfl
  | resolve p => rfl
  | override p text => rfl
  | restore p => rfl

/-! ## Hosts that track overrides -/

/-- A host whose states show what stands in place of modules: `Shows standing s` is kept by every
call, and the answers follow from it. -/
structure Tracks (l : Loader σ) (sources : Table String String)
    (Shows : (String → Option String) → σ → Prop) : Prop where
  listModules : ∀ {standing s} scope, Shows standing s → l.host.listModules scope s
    = .ok (Text.sortTexts (sources.keys.filter fun path => Scope.contains scope path)) s
  resolve : ∀ {standing s} path, Shows standing s →
    l.host.resolve path s = ⟨sourceOf sources path, s⟩
  override_unknown : ∀ {standing s path} text, Shows standing s → sources.find? path = none →
    l.host.override path text s = .fail (.unknownModule path) s
  override : ∀ {standing s path source} text, Shows standing s →
    sources.find? path = some source → ∃ s', l.host.override path text s = .ok () s'
      ∧ Shows (fun p => if path = p then some text else standing p) s'
  restore : ∀ {standing s} path, Shows standing s → ∃ s', l.host.restore path s = .ok () s'
    ∧ Shows (fun p => if path = p then none else standing p) s'
  restore_unset : ∀ {standing s path}, Shows standing s → standing path = none →
    l.host.restore path s = .ok () s
  load : ∀ {standing s} path, Shows standing s →
    l.load path s = (sourceOf sources path).map fun source => (standing path).getD source

namespace Tracks
variable {l : Loader σ} {Shows : (String → Option String) → σ → Prop} {s start : σ}
  {standing : String → Option String}

/-- An operation answers what is due, and the state behind it shows what the operation sets. -/
theorem perform (h : l.Tracks sources Shows) (hs : Shows standing s) (op : Operation) :
    (l.perform op s).answer = due sources standing op
      ∧ Shows (fun p => (op.sets? sources p).getD (standing p)) (l.perform op s).state := by
  cases op with
  | listModules scope =>
    simp only [Loader.perform, h.listModules scope hs]
    exact ⟨rfl, hs⟩
  | resolve path =>
    simp only [Loader.perform, h.resolve path hs]
    exact ⟨rfl, hs⟩
  | override path text =>
    simp only [getD_sets?_override]
    cases hsource : sources.find? path with
    | none =>
      simp only [Loader.perform, h.override_unknown text hs hsource, due, sourceOf, hsource,
        Option.isSome_none, Bool.false_eq_true, and_false, if_false]
      exact ⟨rfl, hs⟩
    | some source =>
      obtain ⟨s', hoverride, hs'⟩ := h.override text hs hsource
      simp only [Loader.perform, hoverride, due, sourceOf, hsource, Option.isSome_some, and_true]
      exact ⟨rfl, hs'⟩
  | restore path =>
    simp only [getD_sets?_restore]
    obtain ⟨s', hrestore, hs'⟩ := h.restore path hs
    simp only [Loader.perform, hrestore]
    exact ⟨rfl, hs'⟩
  | load path =>
    simp only [Loader.perform, h.load path hs, due]
    refine ⟨?_, hs⟩
    cases sourceOf sources path <;> rfl

/-- Behind any operations a state shows the texts that stand by them. -/
theorem shows_after (h : l.Tracks sources Shows) (hstart : Shows (fun _ => none) start)
    (ops : List Operation) : Shows (standing? sources ops) (l.after start ops) := by
  induction ops using List.reverseRecOn with
  | nil => exact hstart
  | append_singleton ops op ih =>
    have hop := (h.perform ih op).2
    simp only [← standing?_concat] at hop
    rwa [after, List.foldl_append, ← after]

/-- A host that tracks overrides keeps the contract. -/
theorem contract (h : l.Tracks sources Shows) (hstart : Shows (fun _ => none) start) :
    l.Contract sources start where
  answer ops op := (h.perform (h.shows_after hstart ops) op).1
  override_unknown ops path text hunknown := by
    simp only [Loader.perform, h.override_unknown text (h.shows_after hstart ops) hunknown]
    rfl
  restore_unset ops path hunset := by
    simp only [Loader.perform, h.restore_unset (h.shows_after hstart ops) hunset]
    rfl
  apart ops op path hop := by
    rw [(h.perform (h.shows_after hstart ops) op).1, (h.perform (h.shows_after hstart _) op).1]
    exact due_congr hop (standing?_filter ops).symm

end Tracks

/-- Hosts that keep the contract for the same sources answer the same. -/
theorem Contract.answers_eq {l : Loader σ} {l' : Loader τ} {start : σ} {start' : τ}
    (h : l.Contract sources start) (h' : l'.Contract sources start') (ops : List Operation) :
    l.answers start ops = l'.answers start' ops := by
  -- The operations that are left are answered behind those already carried out.
  have hrest : ∀ front back, l.answers (l.after start front) back
      = l'.answers (l'.after start' front) back := by
    intro front back
    induction back generalizing front with
    | nil => rfl
    | cons op back ih =>
      have hnext := ih (front ++ [op])
      rw [after, after, List.foldl_append, List.foldl_append] at hnext
      rw [answers, answers, h.answer front op, h'.answer front op]
      exact congrArg _ hnext
  exact hrest [] ops

end Loader

/-! ## The two hosts -/

namespace Memory

/-- A host in memory, and what it loads. -/
def loader : Loader Memory := ⟨host, fun path m => m.load path⟩

/-- The overrides of a host are the texts that stand. -/
structure Shows (sources : Table String String) (standing : String → Option String) (m : Memory) :
    Prop where
  sources_eq : m.sources = sources
  overrides : ∀ path, m.overrides.find? path = standing path

theorem tracks (sources : Table String String) : loader.Tracks sources (Shows sources) where
  listModules scope hs := by
    rw [← hs.sources_eq]
    rfl
  resolve path hs := by
    simp only [loader, host, hs.sources_eq, Loader.sourceOf]
    cases sources.find? path <;> rfl
  override_unknown text hs hunknown := by
    simp only [loader, host, hs.sources_eq, hunknown]
  override text hs hsource := by
    simp only [loader, host, hs.sources_eq, hsource]
    refine ⟨_, rfl, hs.sources_eq, fun p => ?_⟩
    split
    · next hp => rw [← hp, overriding, Table.find?_put_self]
    · next hp => rw [overriding, Table.find?_put_of_ne _ _ (Ne.symm hp), hs.overrides]
  restore path hs := by
    refine ⟨_, rfl, hs.sources_eq, fun p => ?_⟩
    split
    · next hp => rw [← hp, restoring, Table.find?_erase_self]
    · next hp => rw [restoring, Table.find?_erase_of_ne _ (Ne.symm hp), hs.overrides]
  restore_unset {_ m path} hs hunset := by
    have hrestoring : m.restoring path = m := by
      rw [restoring, Table.erase_of_find?_none ((hs.overrides path).trans hunset)]
    exact congrArg (Reply.ok ()) hrestoring
  load path hs := by
    simp only [loader, load, hs.sources_eq, Loader.sourceOf, hs.overrides]
    cases sources.find? path <;> rfl

end Memory

namespace Interpreter

/-- A host inside an interpreter, and what it loads. -/
def loader : Loader Interpreter where
  host := host
  load path i :=
    match i.sourceOf? path with
    | some text => .ok text
    | none => .error (.unknownModule path)

/-- The modules of a host have the sources, and carry the texts that stand. -/
structure Shows (sources : Table String String) (standing : String → Option String)
    (i : Interpreter) : Prop where
  sources_eq : i.modules.map (fun m => (m.path, m.source)) = sources
  replacement : ∀ m ∈ i.modules, m.replacement = standing m.path

theorem Shows.find?_eq {sources : Table String String} {standing : String → Option String}
    {i : Interpreter} (h : Shows sources standing i) (path : String) :
    sources.find? path = (i.module? path).map LoadedModule.source := by
  rw [← h.sources_eq, Table.find?_map_mk, module?]
  congr 2

/-- What is set in place of a module stands there. -/
theorem Shows.update {sources : Table String String} {standing : String → Option String}
    {i : Interpreter} (h : Shows sources standing i) (path : String) (replacement : Option String) :
    Shows sources (fun p => if path = p then replacement else standing p)
      { i with modules := update path replacement i.modules } where
  sources_eq := by
    rw [← h.sources_eq, Interpreter.update, List.map_map]
    refine List.map_congr_left fun m _ => ?_
    simp only [Function.comp]
    split <;> rfl
  replacement := by
    intro m hm
    obtain ⟨old, hold, rfl⟩ := List.mem_map.1 hm
    by_cases hpath : old.path = path
    · simp [hpath]
    · simp [hpath, Ne.symm hpath, h.replacement old hold]

theorem tracks (sources : Table String String) : loader.Tracks sources (Shows sources) where
  listModules scope hs := by
    simp only [loader, host, ← hs.sources_eq, Table.keys, List.map_map]
    rfl
  resolve {_ i} path hs := by
    simp only [loader, host, Loader.sourceOf, hs.find?_eq]
    cases i.module? path <;> rfl
  override_unknown {_ i path} text hs hunknown := by
    rw [hs.find?_eq, Option.map_eq_none_iff] at hunknown
    simp [loader, host, hunknown]
  override {_ i path _} text hs hsource := by
    obtain ⟨m, hm, -⟩ := Option.map_eq_some_iff.1 ((hs.find?_eq path).symm.trans hsource)
    refine ⟨_, ?_, hs.update path (some text)⟩
    simp [loader, host, hm]
  restore path hs := ⟨_, rfl, hs.update path none⟩
  restore_unset {_ i path} hs hunset := by
    have hupdate : update path none i.modules = i.modules := by
      refine (List.map_congr_left fun m hm => ?_).trans (List.map_id _)
      split
      · next hpath => rw [← hunset, ← hpath, ← hs.replacement m hm, id]
      · rfl
    simp only [loader, host, hupdate]
  load {_ i} path hs := by
    simp only [loader, Loader.sourceOf, hs.find?_eq, sourceOf?]
    cases hm : i.module? path with
    | none => rfl
    | some m =>
      have hpath : m.path = path := by simpa using List.find?_some hm
      have hmem : m ∈ i.modules := List.mem_of_find?_eq_some hm
      simp only [Option.map_some, LoadedModule.text, hs.replacement m hmem, hpath]
      rfl

end Interpreter

namespace Loader

/-- A host in memory and one inside an interpreter with the same modules give the same answers and
the same faults to any operations, and both keep the contract of hosts. -/
theorem contract_agree (sources : Table String String) :
    (∀ ops, Memory.loader.answers (Memory.ofSources sources) ops
      = Interpreter.loader.answers (Interpreter.ofSources sources) ops)
    ∧ Memory.loader.Contract sources (Memory.ofSources sources)
    ∧ Interpreter.loader.Contract sources (Interpreter.ofSources sources) := by
  have hmemory : Memory.loader.Contract sources (Memory.ofSources sources) :=
    (Memory.tracks sources).contract ⟨rfl, fun _ => rfl⟩
  have hinterpreter : Interpreter.loader.Contract sources (Interpreter.ofSources sources) := by
    refine (Interpreter.tracks sources).contract ⟨?_, ?_⟩
    · rw [Interpreter.ofSources, List.map_map]
      exact List.map_id _
    · intro m hm
      obtain ⟨entry, -, rfl⟩ := List.mem_map.1 hm
      rfl
  exact ⟨hmemory.answers_eq hinterpreter, hmemory, hinterpreter⟩

/-- An empty text stands in place of a module like any other. -/
example : Interpreter.loader.answers (Interpreter.ofSources [("a.lua", "return 1")])
    [.override "a.lua" "", .load "a.lua", .override "b.lua" "", .load "b.lua", .restore "a.lua",
      .load "a.lua"]
    = [.ok .done, .ok (.text ""), .error (.unknownModule "b.lua"), .error (.unknownModule "b.lua"),
      .ok .done, .ok (.text "return 1")] := by
  decide +kernel

end Loader

end LuaCoverage
