import LuaCoverage.Proofs.Engine.Finished
import LuaCoverage.Proofs.Engine.Instrumented
import LuaCoverage.Proofs.Engine.TakenBack
import LuaCoverage.Proofs.Engine.View
import LuaCoverage.Proofs.Host.Listed

/-!
# Every selected module is accounted for

The modules that a selection allows are looked for below one scope after the other, and the scopes
may overlap. An instrumentation that goes through finds each of them once. It has a map of the
module or a diagnostic about it, never both, and it overrides the modules with a map only.

Results:
* `Workshop.mem_select`: the modules that are found below some scopes.
* `Workshop.accounted_of_all`: maps and diagnostics account for the modules that were handled.
* `Engine.accounted_of_instrument`: the modules that an engine accounts for.
-/

namespace LuaCoverage
open LuaCoverage.Text

variable {σ : Type} {h : Host σ} {isModule : String → σ → Prop}

namespace Workshop

/-- The modules that are found are those that are allowed, below one of the scopes. -/
theorem mem_select (hlists : h.Lists isModule) (s : Selection) {roots found paths : List String}
    {host : σ} (hpaths : (select h s roots found host).answer = .ok paths) (path : String) :
    path ∈ paths ↔ path ∈ found
      ∨ isModule path host ∧ s.allows path = true
        ∧ ∃ root ∈ roots, Scope.contains root path = true := by
  induction roots generalizing found host with
  | nil =>
    cases hpaths
    simp
  | cons root rest ih =>
    simp only [select] at hpaths
    split at hpaths
    · next listed hlisted =>
      rw [ih hpaths, List.mem_eraseDups, List.mem_append, List.mem_filter,
        hlists.listed path root host listed hlisted, hlists.listModules path root host]
      constructor
      · rintro ((hfound | ⟨⟨hmodule, hroot⟩, hallowed⟩) | ⟨hmodule, hallowed, other, hother, hin⟩)
        · exact .inl hfound
        · exact .inr ⟨hmodule, hallowed, root, by simp, hroot⟩
        · exact .inr ⟨hmodule, hallowed, other, List.mem_cons_of_mem _ hother, hin⟩
      · rintro (hfound | ⟨hmodule, hallowed, other, hother, hin⟩)
        · exact .inl (.inl hfound)
        · rcases List.mem_cons.1 hother with rfl | hother
          · exact .inl (.inr ⟨⟨hmodule, hin⟩, hallowed⟩)
          · exact .inr ⟨hmodule, hallowed, other, hother, hin⟩
    · cases hpaths

/-- Below the scopes that it includes, a selection finds every module that it allows. -/
theorem mem_selected (hlists : h.Lists isModule) {s : Selection} {paths : List String} {host : σ}
    (hpaths : (select h s s.included [] host).answer = .ok paths) (path : String) :
    path ∈ paths ↔ isModule path host ∧ s.allows path = true := by
  have hincluded : s.allows path = true →
      ∃ scope ∈ s.included, Scope.contains scope path = true := fun hallowed =>
    List.any_eq_true.1 (Bool.and_eq_true_iff.1 hallowed).2
  rw [mem_select hlists s hpaths]
  simp only [List.not_mem_nil, false_or]
  exact and_congr_right fun _ => and_iff_left_of_imp hincluded

end Workshop

/-! ## Overriding -/

namespace Watched
variable {α : Type} {past : List Event} {overridden : List String} {s : Watched σ}

/-- Behind a moment of the past these modules were overridden, in this order. -/
def Overrode (past : List Event) (overridden : List String) (s : Watched σ) : Prop :=
  ∃ work, s.events = past ++ work ∧ work.filterMap Event.overridden? = overridden

theorem Overrode.call (hs : s.Overrode past overridden) (c : HostCall) (run : σ → Reply σ α) :
    (s.call c run).state.Overrode past
      (overridden ++ (Event.ofReply c (run s.inner)).overridden?.toList) := by
  obtain ⟨work, hevents, rfl⟩ := hs
  refine ⟨work ++ [.ofReply c (run s.inner)], ?_, ?_⟩
  · simp only [Watched.call, Reply.lift, hevents, List.append_assoc]
  · rw [List.filterMap_append]
    cases hcall : (Event.ofReply c (run s.inner)).overridden? <;> simp [hcall]

/-- Only a call that overrides a module overrides one. -/
theorem Overrode.call_of_none (hs : s.Overrode past overridden) {c : HostCall} (run : σ → Reply σ α)
    (hc : ∀ fault?, Event.overridden? ⟨c, fault?⟩ = none) :
    (s.call c run).state.Overrode past overridden := by
  have hnone : (Event.ofReply c (run s.inner)).overridden? = none := by
    unfold Event.ofReply
    split <;> exact hc _
  simpa [hnone] using hs.call c run

theorem Overrode.override (hs : s.Overrode past overridden) {path text : String}
    (hok : ((host h).override path text s).answer = .ok ()) :
    ((host h).override path text s).state.Overrode past (overridden ++ [path]) := by
  have hsome : (Event.ofReply (.override path) (h.override path text s.inner)).overridden?
      = some path := by
    have hanswer : (h.override path text s.inner).answer = .ok () := hok
    simp only [Event.ofReply, hanswer, Event.overridden?]
  have hcall := hs.call (.override path) (h.override path text)
  rw [hsome] at hcall
  exact hcall

end Watched

/-! ## Accounting -/

namespace Workshop
variable {analyzer : Analyzer} {instrumenter : Instrumenter} {past : List Event}
  {front : List String} {p p' : Progress (Watched σ)}

/-- The modules that were handled, each in a map or in a diagnostic, and overridden if in a map. -/
structure Accounted (past : List Event) (front : List String) (p : Progress (Watched σ)) :
    Prop where
  perm : (p.maps.map (fun m => Scalar.string m.path) ++ p.diagnostics.map Diagnostic.path).Perm
    (front.map .string)
  fresh : p.store.stale = []
  overrode : p.host.Overrode past (p.maps.map ProbeMap.path)

theorem accounted_of_handled (hp : Accounted past front p) {path : String}
    (hhandled : Handled ⟨Watched.host h, analyzer, instrumenter⟩ path p p') :
    Accounted past (front ++ [path]) p' := by
  have hresolved : ((Watched.host h).resolve path p.host).state.Overrode past
      (p.maps.map ProbeMap.path) :=
    hp.overrode.call_of_none (h.resolve path) fun _ => rfl
  cases hhandled with
  | skipped kind message =>
    refine ⟨?_, hp.fresh, hresolved⟩
    simp only [Progress.skip, List.map_append, List.map_cons, List.map_nil, ← List.append_assoc]
    exact hp.perm.append_right _
  | taken hsource hanalysis htext hoverride =>
    obtain rfl := Analyzer.path_of_analyze hanalysis
    refine ⟨?_, hp.fresh, ?_⟩
    · simp only [Progress.add, List.map_append, List.map_cons, List.map_nil, List.append_assoc]
      -- The new map stands between the other maps and the diagnostics.
      refine (List.perm_append_comm.append_left _).trans ?_
      rw [← List.append_assoc]
      exact hp.perm.append_right _
    · simp only [Progress.add, List.map_append, List.map_cons, List.map_nil]
      exact hresolved.override hoverride

theorem accounted_of_all {paths : List String} (hnodup : paths.Nodup) {host : Watched σ}
    (hhost : host.Overrode past [])
    (hall : all ⟨Watched.host h, analyzer, instrumenter⟩ paths ⟨host, Store.empty, [], [], []⟩
      = (none, p)) : Accounted past paths p := by
  have hstart : Accounted past [] ⟨host, Store.empty, [], [], []⟩ := ⟨.refl _, rfl, hhost⟩
  exact all_keeps hnodup (fun _ _ _ _ _ _ hp hhandled => accounted_of_handled hp hhandled)
    hstart hall

end Workshop

/-! ## Engines -/

namespace Engine
variable {e : Engine}

/-- The modules that an engine tells something about, by its maps and by its diagnostics. -/
def accounted (e : Engine) : List Scalar :=
  e.maps.map (fun m => .string m.path) ++ e.allDiagnostics.map Diagnostic.path

theorem accounted_of_watched (hlists : h.Lists isModule) (hidle : e.session = none)
    (included excluded : Option (List String)) (s : σ) (past : List Event)
    (hok : (e.instrument (Watched.host h) included excluded ⟨s, past⟩).error? = none) :
    let o := e.instrument (Watched.host h) included excluded ⟨s, past⟩
    o.engine.accounted.Nodup
      ∧ (∀ path, path ∈ o.engine.accounted ↔ ∃ text, path = .string text ∧ isModule text s
        ∧ (e.selection included excluded).allows text = true)
      ∧ ∃ work, o.host.events = past ++ work
        ∧ work.filterMap Event.overridden? = o.engine.maps.map ProbeMap.path := by
  obtain ⟨name, paths, p, hfinished, heq⟩ := finished_of_ok hidle hok
  intro o
  have hnodup : paths.Nodup := Workshop.nodup_select .nil hfinished.listed
  have hinstalled : ((Watched.host h).installProbe name.text ⟨e.sessions⟩ ⟨s, past⟩).state.Overrode
      past [] :=
    Watched.Overrode.call_of_none ⟨[], by simp, rfl⟩ _ fun _ => rfl
  have hselected : (Workshop.select (Watched.host h) (e.selection included excluded)
      (e.selection included excluded).included [] ((Watched.host h).installProbe name.text
        ⟨e.sessions⟩ ⟨s, past⟩).state).state.Overrode past [] :=
    Workshop.select_keeps (P := Watched.Overrode past [])
      (fun scope t ht => ht.call_of_none (h.listModules scope) fun _ => rfl) hinstalled
  have hp := Workshop.accounted_of_all hnodup hselected hfinished.worked
  have haccounted : o.engine.accounted.Perm (paths.map .string) := by
    have hstale : o.engine.allDiagnostics = p.diagnostics := by
      simp [o, heq, allDiagnostics, counts, begun, hp.fresh]
    rw [accounted, hstale]
    simpa [o, heq, maps, begun] using hp.perm
  refine ⟨haccounted.nodup_iff.2 (hnodup.map fun _ _ => Scalar.string.inj), fun path => ?_, ?_⟩
  · rw [haccounted.mem_iff, List.mem_map]
    refine exists_congr fun text => ?_
    have hinner : isModule text ((Watched.host h).installProbe name.text ⟨e.sessions⟩
        ⟨s, past⟩).state.inner ↔ isModule text s := hlists.installProbe text name.text _ s
    rw [Workshop.mem_selected (Watched.lists hlists) hfinished.listed text, hinner, and_comm,
      eq_comm]
  · rw [show o = _ from heq]
    exact hp.overrode

/-- An instrumentation that goes through accounts for every module of the host that its selection
allows, once, and for no others. If the host is watched, one sees that it overrides the modules with
a map, each once, and no others. -/
theorem accounted_of_instrument (hlists : h.Lists isModule) (hidle : e.session = none)
    (included excluded : Option (List String)) (s : σ) (past : List Event)
    (hok : (e.instrument h included excluded s).error? = none) :
    let o := e.instrument h included excluded s
    o.engine.accounted.Nodup
      ∧ (∀ path, path ∈ o.engine.accounted ↔ ∃ text, path = .string text ∧ isModule text s
        ∧ (e.selection included excluded).allows text = true)
      ∧ ∃ work,
        (e.instrument (Watched.host h) included excluded ⟨s, past⟩).host.events = past ++ work
        ∧ work.filterMap Event.overridden? = o.engine.maps.map ProbeMap.path := by
  have hseen := instrument_seen (Watched.seen h) included excluded e ⟨s, past⟩
  rw [← hseen] at hok ⊢
  exact accounted_of_watched hlists hidle included excluded s past hok

/-- Three modules in memory, of which one cannot be parsed and one cannot be read. -/
def sampleMemory : Flaky Memory where
  inner := Memory.ofSources [("o.lua", "return 3"), ("n.lua", "return ("), ("m.lua", "return 1")]
  calls := 0
  plan
    | _, .resolve path => if path = "o.lua" then some (.io "offline") else none
    | _, _ => none

def sampleInterpreter : Interpreter :=
  Interpreter.ofSources [("n.lua", "return 2"), ("m.lua", "return 1")]

/-- The directories of a source tree and of the output beside it. -/
def sampleDirectory : Directory := ⟨⟨"/", ["src"]⟩, ⟨"/", ["out"]⟩⟩

def sampleTree : Files := ⟨[(⟨"/", ["src", "m.lua"]⟩, .file (Utf8.ofString "return 1"))]⟩

theorem accounted_of_instrument_samples :
    let e := ofOptions .ofGrammar .standard
    let inMemory := e.instrument (Flaky.host Memory.host) none (some []) sampleMemory
    let inInterpreter := e.instrument Interpreter.host none (some []) sampleInterpreter
    let inDirectory := e.instrument sampleDirectory.host none (some []) sampleTree
    inMemory.engine.accounted.Perm (["o.lua", "n.lua", "m.lua"].map .string)
      ∧ inInterpreter.engine.accounted.Perm (["n.lua", "m.lua"].map .string)
      ∧ .string "m.lua" ∈ inDirectory.engine.accounted := by
  intro e inMemory inInterpreter inDirectory
  have hidle : e.session = none := rfl
  have hallows : ∀ path ∈ ["o.lua", "n.lua", "m.lua"],
      (e.selection none (some [])).allows path = true := by decide +kernel
  have hall {accounted : List Scalar} {modules : List String} (hnodup : accounted.Nodup)
      (hdistinct : (modules.map Scalar.string).Nodup)
      (hmodules : modules ⊆ ["o.lua", "n.lua", "m.lua"])
      (hmem : ∀ path, path ∈ accounted ↔ ∃ text, path = .string text ∧ text ∈ modules
        ∧ (e.selection none (some [])).allows text = true) :
      accounted.Perm (modules.map .string) := by
    refine (List.perm_ext_iff_of_nodup hnodup hdistinct).2 fun path => ?_
    rw [hmem, List.mem_map]
    exact ⟨fun ⟨text, hpath, htext, _⟩ => ⟨text, htext, hpath.symm⟩,
      fun ⟨text, htext, hpath⟩ => ⟨text, hpath.symm, htext, hallows text (hmodules htext)⟩⟩
  have hmake : Directory.make ⟨"/", []⟩ ⟨"", ["src"]⟩ ⟨"", ["out"]⟩ = .ok sampleDirectory := rfl
  have hresolved := Directory.resolved_of_make rfl hmake
  have hmemory : inMemory.error? = none := by
    unfold inMemory
    rw [Memory.host_eq]
    decide +kernel
  have hinterpreter : inInterpreter.error? = none := by
    unfold inInterpreter
    rw [Interpreter.host_eq]
    decide +kernel
  obtain ⟨hnodup, hmem, -⟩ := accounted_of_instrument (Flaky.lists Memory.lists) hidle none
    (some []) sampleMemory [] hmemory
  obtain ⟨hnodup', hmem', -⟩ := accounted_of_instrument Interpreter.lists hidle none (some [])
    sampleInterpreter [] hinterpreter
  have hwritten := (accounted_of_instrument (Directory.lists hresolved) hidle none (some [])
    sampleTree [] (by decide +kernel)).2.1
  exact ⟨hall hnodup (by decide) (by decide) hmem, hall hnodup' (by decide) (by decide) hmem',
    (hwritten _).2 ⟨_, rfl, by decide +kernel, hallows _ (by decide)⟩⟩

end Engine

end LuaCoverage
