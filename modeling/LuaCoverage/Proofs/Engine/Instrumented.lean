import LuaCoverage.Engine.Session
import LuaCoverage.Proofs.Analysis.Branching
import LuaCoverage.Proofs.Counter.Shape
import LuaCoverage.Proofs.Distinct
import LuaCoverage.Proofs.Host.Faults
import Mathlib.Data.List.Nodup

/-!
# What instrumenting keeps

While modules are instrumented one after the other, the host, the store and the list of maps stay
in step: the modules that are overridden, those that are registered and those with a map are the
same, each of them once, and each is overridden by what the instrumenter made of its source. This
holds wherever the host fails, since a module is only taken up behind an override that succeeded.

Results:
* `Instrumented.add`: an overridden module may be taken up.
* `Workshop.one_sound`: what one module does to an instrumentation.
* `Workshop.run_sound`: an instrumentation stays in step up to its end or its error.
-/

namespace LuaCoverage
open LuaCoverage.Text

/-- The host that keeps modules in memory and fails as its plan says. -/
abbrev flakyMemory : Host (Flaky Memory) := Flaky.host Memory.host

/-- A host, a store, maps and overridden paths are in step. -/
structure Instrumented (analyzer : Analyzer) (instrumenter : Instrumenter) (host : Memory)
    (store : Store) (maps : List ProbeMap) (overridden : List String) : Prop where
  overrides : host.overrides.keys = maps.map ProbeMap.path
  registered : store.paths = maps.map ProbeMap.path
  restorable : overridden.reverse = maps.map ProbeMap.path
  distinct : (maps.map ProbeMap.path).Nodup
  output : ∀ m ∈ maps, ∃ source a text, host.sources.find? m.path = some source
    ∧ analyzer.analyze (Utf8.ofString source) m.path = .ok a ∧ a.map = m
    ∧ instrumenter.instrument a = .ok text ∧ host.overrides.find? m.path = some text
  counted : ∀ m ∈ maps, store.Holds m

namespace Analyzer

/-- An analysis that succeeds is that of the tree of the source. -/
theorem exists_ofTree {analyzer : Analyzer} {source : Bytes} {path : String} {a : Analysis}
    (h : analyzer.analyze source path = .ok a) :
    ∃ root, analyzer.parse (analyzer.languageOf path) source = .ok root
      ∧ ofTree analyzer.idBase path (analyzer.languageOf path) source root = .ok a := by
  unfold analyze at h
  exact Except.bind_ok (Except.mapError_eq_ok_iff.1 h)

theorem path_of_analyze {analyzer : Analyzer} {source : Bytes} {path : String} {a : Analysis}
    (h : analyzer.analyze source path = .ok a) : a.map.path = path := by
  obtain ⟨root, -, htree⟩ := exists_ofTree h
  obtain ⟨found, _, rfl⟩ := ofTree_cases htree
  rfl

end Analyzer

namespace Instrumented
variable {analyzer : Analyzer} {instrumenter : Instrumenter} {host : Memory} {store : Store}
  {maps : List ProbeMap} {overridden : List String}

/-- Nothing has been instrumented yet. -/
theorem empty (h : host.overrides = []) :
    Instrumented analyzer instrumenter host Store.empty [] [] where
  overrides := by rw [h]; rfl
  registered := rfl
  restorable := rfl
  distinct := .nil
  output := by simp
  counted := by simp

/-- An overridden module may be taken up. -/
theorem add (h : Instrumented analyzer instrumenter host store maps overridden)
    {source text : String} {a : Analysis} (hnew : a.map.path ∉ maps.map ProbeMap.path)
    (hsource : host.sources.find? a.map.path = some source)
    (hanalysis : analyzer.analyze (Utf8.ofString source) a.map.path = .ok a)
    (htext : instrumenter.instrument a = .ok text) :
    Instrumented analyzer instrumenter (host.overriding a.map.path text) (store.register a.map)
      (maps ++ [a.map]) (a.map.path :: overridden) where
  overrides := by
    have hkeys : a.map.path ∉ host.overrides.keys := h.overrides ▸ hnew
    rw [Memory.overriding, Table.keys_put_of_not_mem text hkeys, h.overrides, List.map_append]
    rfl
  registered := by
    have hpaths : a.map.path ∉ store.paths := h.registered ▸ hnew
    rw [Store.paths_register hpaths, h.registered, List.map_append]
    rfl
  restorable := by
    rw [List.reverse_cons, h.restorable, List.map_append]
    rfl
  distinct := by
    rw [List.map_append, List.nodup_append]
    refine ⟨h.distinct, List.nodup_singleton _, ?_⟩
    intro x hx y hy hxy
    rw [hxy, List.mem_singleton.1 hy] at hx
    exact hnew hx
  output m hm := by
    rcases List.mem_append.1 hm with hm | hm
    · obtain ⟨source', a', text', hsource', hanalysis', hmap, htext', hfind⟩ := h.output m hm
      have hne : m.path ≠ a.map.path := by
        intro heq
        exact hnew (heq ▸ List.mem_map_of_mem hm)
      refine ⟨source', a', text', hsource', hanalysis', hmap, htext', ?_⟩
      rw [Memory.overriding, Table.find?_put_of_ne _ _ hne, hfind]
    · obtain rfl := List.mem_singleton.1 hm
      exact ⟨source, a, text, hsource, hanalysis, rfl, htext, Table.find?_put_self ..⟩
  counted m hm := by
    rcases List.mem_append.1 hm with hm | hm
    · have hne : a.map.path ≠ m.path := by
        intro heq
        exact hnew (heq ▸ List.mem_map_of_mem hm)
      exact (h.counted m hm).register hne
    · obtain rfl := List.mem_singleton.1 hm
      exact store.holds_register a.map

/-- A store that continues is in step, too. -/
theorem continues (h : Instrumented analyzer instrumenter host store maps overridden)
    {store' : Store} (hs : store.Continues store') :
    Instrumented analyzer instrumenter host store' maps overridden :=
  { h with
    registered := hs.paths.trans h.registered
    counted := fun m hm => hs.holds m (h.counted m hm) }

end Instrumented

/-! ## One module after the other -/

/-- An instrumentation of a host that started in a state is in step so far. -/
structure Progress.Sound (analyzer : Analyzer) (instrumenter : Instrumenter)
    (start : Flaky Memory) (p : Progress (Flaky Memory)) : Prop where
  plan : p.host.plan = start.plan
  sources : p.host.inner.sources = start.inner.sources
  probes : p.host.inner.probes = start.inner.probes
  instrumented : Instrumented analyzer instrumenter p.host.inner p.store p.maps p.overridden

/-- The paths of the modules taken up so far. -/
def Progress.taken {σ : Type} (p : Progress σ) : List String := p.maps.map ProbeMap.path

namespace Workshop
variable {analyzer : Analyzer} {instrumenter : Instrumenter} {start : Flaky Memory}
  {p : Progress (Flaky Memory)} {path : String}

/-- A step on a module keeps an instrumentation in step, and takes up that module at most. -/
structure Step (analyzer : Analyzer) (instrumenter : Instrumenter) (start : Flaky Memory)
    (path : String) (p p' : Progress (Flaky Memory)) : Prop where
  sound : p'.Sound analyzer instrumenter start
  taken : ∀ other ∈ p'.taken, other ∈ p.taken ∨ other = path

/-- A call that leaves the modules of the host as they are, and notes on what happened. -/
theorem step_of_inner (h : p.Sound analyzer instrumenter start) {host : Flaky Memory}
    (hinner : host.inner = p.host.inner) (hplan : host.plan = p.host.plan)
    (diagnostics : List Diagnostic) :
    Step analyzer instrumenter start path p { p with host, diagnostics } where
  sound :=
    { plan := hplan.trans h.plan
      sources := hinner ▸ h.sources
      probes := hinner ▸ h.probes
      instrumented := hinner ▸ h.instrumented }
  taken _ hother := .inl hother

theorem override_step (h : p.Sound analyzer instrumenter start) {source text : String}
    {a : Analysis} (hnew : a.map.path ∉ p.taken)
    (hsource : p.host.inner.sources.find? a.map.path = some source)
    (hanalysis : analyzer.analyze (Utf8.ofString source) a.map.path = .ok a)
    (htext : instrumenter.instrument a = .ok text) :
    Step analyzer instrumenter start a.map.path p
      (override ⟨flakyMemory, analyzer, instrumenter⟩ a.map.path text a.map p).2 := by
  have hplan : (flakyMemory.override a.map.path text p.host).state.plan = p.host.plan :=
    p.host.plan_call ..
  rcases p.host.call_cases (.override a.map.path) (Memory.host.override a.map.path text) with
    ⟨f, hanswer, hinner⟩ | ⟨hanswer, hinner⟩
  · -- The call is made to fail.
    have hfail : (flakyMemory.override a.map.path text p.host).answer = .error f := hanswer
    simp only [override, hfail]
    exact step_of_inner h hinner hplan p.diagnostics
  · rcases Memory.override_cases p.host.inner a.map.path text with
      ⟨f, hrun, hstate⟩ | ⟨hrun, hstate⟩
    · have hfail : (flakyMemory.override a.map.path text p.host).answer = .error f :=
        hanswer.trans hrun
      simp only [override, hfail]
      exact step_of_inner h (hinner.trans hstate) hplan p.diagnostics
    · have hok : (flakyMemory.override a.map.path text p.host).answer = .ok () :=
        hanswer.trans hrun
      have hover : (flakyMemory.override a.map.path text p.host).state.inner
          = p.host.inner.overriding a.map.path text := hinner.trans hstate
      simp only [override, hok, Progress.add]
      refine ⟨⟨hplan.trans h.plan, ?_, ?_, ?_⟩, ?_⟩
      · rw [hover]
        exact h.sources
      · rw [hover]
        exact h.probes
      · rw [hover]
        exact h.instrumented.add hnew hsource hanalysis htext
      · intro other hother
        simpa [Progress.taken] using hother

theorem process_step (h : p.Sound analyzer instrumenter start) (hnew : path ∉ p.taken)
    {source : String} (hsource : p.host.inner.sources.find? path = some source) :
    Step analyzer instrumenter start path p
      (process ⟨flakyMemory, analyzer, instrumenter⟩ path source p).2 := by
  unfold process
  split
  · exact step_of_inner h rfl rfl _
  · next a hanalysis =>
    split
    · exact step_of_inner h rfl rfl _
    · next text htext =>
      obtain rfl := Analyzer.path_of_analyze hanalysis
      exact override_step h hnew hsource hanalysis htext

/-- What one module does to an instrumentation, wherever the host fails. -/
theorem one_step (h : p.Sound analyzer instrumenter start) (hnew : path ∉ p.taken) :
    Step analyzer instrumenter start path p
      (one ⟨flakyMemory, analyzer, instrumenter⟩ path p).2 := by
  have hplan : (flakyMemory.resolve path p.host).state.plan = p.host.plan := p.host.plan_call ..
  have hinner : (flakyMemory.resolve path p.host).state.inner = p.host.inner :=
    p.host.inner_call_of_pure _ (Memory.state_resolve p.host.inner path)
  have hbase : ∀ diagnostics, Step analyzer instrumenter start path p
      { p with host := (flakyMemory.resolve path p.host).state, diagnostics } :=
    fun diagnostics => step_of_inner h hinner hplan diagnostics
  simp only [one]
  split
  · next source hanswer =>
    have hsource : p.host.inner.sources.find? path = some source := by
      rcases p.host.call_cases (.resolve path) (Memory.host.resolve path) with
        ⟨f, hfail, -⟩ | ⟨hrun, -⟩
      · have herror : (flakyMemory.resolve path p.host).answer = .error f := hfail
        rw [herror] at hanswer
        cases hanswer
      · exact Memory.find?_of_resolve (hrun.symm.trans hanswer)
    have hnext := process_step (hbase p.diagnostics).sound hnew (hinner ▸ hsource)
    exact ⟨hnext.sound, hnext.taken⟩
  · split
    · exact hbase _
    · exact hbase p.diagnostics

/-- An instrumentation of modules that differ stays in step. -/
theorem all_sound {paths : List String} (h : p.Sound analyzer instrumenter start)
    (hnodup : paths.Nodup) (hnew : ∀ path ∈ paths, path ∉ p.taken) :
    (all ⟨flakyMemory, analyzer, instrumenter⟩ paths p).2.Sound analyzer instrumenter start := by
  induction paths generalizing p with
  | nil => exact h
  | cons path rest ih =>
    obtain ⟨hpath, hrest⟩ := List.nodup_cons.1 hnodup
    have hstep := one_step h (hnew path (by simp))
    simp only [all]
    split
    · next p' hone =>
      rw [hone] at hstep
      refine ih hstep.sound hrest ?_
      intro other hother htaken
      rcases hstep.taken other htaken with hold | rfl
      · exact hnew other (by simp [hother]) hold
      · exact hpath hother
    · next e p' hone =>
      rw [hone] at hstep
      exact hstep.sound

/-- A selection looks at a host only, and finds every module once. -/
theorem select_spec (s : Selection) (roots : List String) {found : List String}
    (hfound : found.Nodup) (host : Flaky Memory) :
    (select flakyMemory s roots found host).state.inner = host.inner
      ∧ (select flakyMemory s roots found host).state.plan = host.plan
      ∧ ∀ paths, (select flakyMemory s roots found host).answer = .ok paths → paths.Nodup := by
  induction roots generalizing found host with
  | nil =>
    refine ⟨rfl, rfl, ?_⟩
    rintro paths ⟨⟩
    exact hfound
  | cons root rest ih =>
    have hplan : (flakyMemory.listModules root host).state.plan = host.plan := host.plan_call ..
    have hinner : (flakyMemory.listModules root host).state.inner = host.inner :=
      host.inner_call_of_pure _ rfl
    simp only [select]
    split
    · next paths _ =>
      obtain ⟨hi, hp, hn⟩ := ih (nodup_eraseDups (found ++ paths.filter s.allows))
        (flakyMemory.listModules root host).state
      exact ⟨hi.trans hinner, hp.trans hplan, hn⟩
    · refine ⟨hinner, hplan, ?_⟩
      rintro paths ⟨⟩

/-- An instrumentation stays in step up to its end or its error. -/
theorem run_sound (analyzer : Analyzer) (instrumenter : Instrumenter) (s : Selection)
    (h : start.inner.overrides = []) :
    (run ⟨flakyMemory, analyzer, instrumenter⟩ s ⟨start, Store.empty, [], [], []⟩).2.Sound
      analyzer instrumenter start := by
  obtain ⟨hinner, hplan, hnodup⟩ := select_spec s s.included .nil start
  have hstart : ∀ diagnostics, Progress.Sound analyzer instrumenter start
      ⟨(select flakyMemory s s.included [] start).state, Store.empty, [], [], diagnostics⟩ := by
    intro diagnostics
    refine ⟨hplan, ?_, ?_, Instrumented.empty ?_⟩
    · rw [hinner]
    · rw [hinner]
    · rw [hinner, h]
  simp only [run]
  split
  · next paths hpaths =>
    exact all_sound (hstart []) (hnodup paths hpaths) (by simp [Progress.taken])
  · exact hstart []

end Workshop

end LuaCoverage
