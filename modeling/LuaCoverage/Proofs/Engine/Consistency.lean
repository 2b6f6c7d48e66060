import LuaCoverage.Engine.Results
import LuaCoverage.Proofs.Engine.Instrumented
import LuaCoverage.Proofs.Report.Fitting

/-!
# Engines stay consistent

A *setup* is an engine with a host in memory that may fail. Whatever operations are made one after
the other, and wherever listing, reading, overriding and installing fail, the setup is *consistent*:
without a session nothing of the host is changed, and with a session the host, the store and the
maps are in step. Since the counts fit the maps then, all results can be made at any time.

Results:
* `Setup.Consistent.perform`: every operation keeps a setup consistent.
* `Setup.run_consistent`: so does every run, and its results can be made.
-/

namespace LuaCoverage
open LuaCoverage.Text

/-- An engine and its host. -/
structure Setup where
  engine : Engine
  host : Flaky Memory

/-- What may be done with an engine. -/
inductive Operation
  | instrument (included excluded : Option (List String))
  | hit (r : Recorder) (args : List Value)
  | load (d : Dump)
  | report
  | statistics (o : StatsOptions)
  | finalize
  | cleanUp

namespace Operation

/-- The setup behind an operation, whether the operation succeeds or not. -/
def perform (s : Setup) : Operation → Setup
  | .instrument included excluded =>
    let o := s.engine.instrument flakyMemory included excluded s.host
    ⟨o.engine, o.host⟩
  | .hit r args =>
    match s.engine.recordHit r args with
    | .ok e => ⟨e, s.host⟩
    | .error _ => s
  | .load d => ⟨s.engine.updateStore fun store => (d.load store).2, s.host⟩
  | .report => s
  | .statistics _ => s
  | .finalize =>
    match s.engine.finalize flakyMemory s.host with
    | .ok (_, o) => ⟨o.engine, o.host⟩
    | .error _ => s
  | .cleanUp =>
    let o := s.engine.cleanUp flakyMemory s.host
    ⟨o.engine, o.host⟩

end Operation

namespace Flaky

/-- A host in memory does not fail to install a recorder, so it was made to fail, and is as it
was. -/
theorem inner_installProbe_of_error {host : Flaky Memory} {name : String} {r : Recorder}
    {f : Fault} (h : (flakyMemory.installProbe name r host).answer = .error f) :
    (flakyMemory.installProbe name r host).state.inner = host.inner := by
  rcases host.call_cases (.installProbe name) (Memory.host.installProbe name r) with
    ⟨_, -, hinner⟩ | ⟨hok, -⟩
  · exact hinner
  · cases hok.symm.trans h

theorem inner_installProbe_of_ok {host : Flaky Memory} {name : String} {r : Recorder} {u : Unit}
    (h : (flakyMemory.installProbe name r host).answer = .ok u) :
    (flakyMemory.installProbe name r host).state.inner
      = { host.inner with probes := host.inner.probes.put name r } := by
  rcases host.call_cases (.installProbe name) (Memory.host.installProbe name r) with
    ⟨f, hfail, -⟩ | ⟨-, hinner⟩
  · cases hfail.symm.trans h
  · exact hinner

end Flaky

namespace Setup

/-- An engine that has done nothing yet, and a host of modules that are loaded as they are. -/
def initial (parser : Lua.Parser) (options : InstrumentOptions) (sources : Table String String)
    (plan : Nat → HostCall → Option Fault) : Setup :=
  ⟨Engine.ofOptions parser options, ⟨Memory.ofSources sources, 0, plan⟩⟩

/-- The setup behind a run of operations. -/
def run (s : Setup) (operations : List Operation) : Setup := operations.foldl Operation.perform s

/-- A session and a host in memory are in step, and the recorder of the session is installed. -/
structure Running (parser : Lua.Parser) (options : InstrumentOptions) (host : Memory)
    (s : Session) : Prop where
  probe : host.probe? options.probeName = some s.recorder
  instrumented : ∃ name : ProbeName, name.text = options.probeName
    ∧ Instrumented ⟨parser, options.language, options.idBase⟩ ⟨parser, name, true⟩ host s.store
      s.maps s.overridden

/-- Nothing of a host in memory is changed. -/
structure Untouched (options : InstrumentOptions) (host : Memory) : Prop where
  overrides : host.overrides = []
  probe : host.probe? options.probeName = none

/-- An engine and its host fit together. -/
structure Consistent (parser : Lua.Parser) (options : InstrumentOptions)
    (sources : Table String String) (plan : Nat → HostCall → Option Fault) (s : Setup) : Prop where
  sameParser : s.engine.parser = parser
  sameOptions : s.engine.options = options
  samePlan : s.host.plan = plan
  sameSources : s.host.inner.sources = sources
  idle : s.engine.session = none → s.engine.maps = [] ∧ Untouched options s.host.inner
  active : ∀ session, s.engine.session = some session →
    Running parser options s.host.inner session

/-- All results of an engine can be made: no counts fail to fit the map of their module. -/
structure Answers (s : Setup) : Prop where
  report : ∃ report, s.engine.report = .ok report
  statistics : ∀ o, ∃ stats, s.engine.statistics o = .ok stats
  finalize : ∃ result, s.engine.finalize flakyMemory s.host = .ok result

namespace Consistent
variable {parser : Lua.Parser} {options : InstrumentOptions} {sources : Table String String}
  {plan : Nat → HostCall → Option Fault} {s : Setup}

theorem initial (parser : Lua.Parser) (options : InstrumentOptions)
    (sources : Table String String) (plan : Nat → HostCall → Option Fault) :
    (Setup.initial parser options sources plan).Consistent parser options sources plan where
  sameParser := rfl
  sameOptions := rfl
  samePlan := rfl
  sameSources := rfl
  idle _ := ⟨rfl, rfl, rfl⟩
  active := by
    rintro session ⟨⟩

/-- A setup without a session whose host is untouched. -/
theorem of_idle {e : Engine} {host : Flaky Memory} (hparser : e.parser = parser)
    (hoptions : e.options = options) (hplan : host.plan = plan)
    (hsources : host.inner.sources = sources)
    (hsession : e.session = none) (h : Untouched options host.inner) :
    Consistent parser options sources plan ⟨e, host⟩ where
  sameParser := hparser
  sameOptions := hoptions
  samePlan := hplan
  sameSources := hsources
  idle _ := ⟨by simp [Engine.maps, hsession], h⟩
  active session hs := by
    rw [hsession] at hs
    cases hs

/-- Behind a roll back of all that was overridden the host is untouched. -/
theorem of_rollback (hplan : Flaky.Reliable plan) {e : Engine} {host : Flaky Memory}
    {analyzer : Analyzer} {instrumenter : Instrumenter} {store : Store} {maps : List ProbeMap}
    {overridden : List String} (hparser : e.parser = parser)
    (hoptions : e.options = options) (hp : host.plan = plan) (hsources : host.inner.sources = sources) (hsession : e.session = none)
    (h : Instrumented analyzer instrumenter host.inner store maps overridden) :
    Consistent parser options sources plan
      ⟨e, (Rollback.run flakyMemory options.probeName overridden host).host⟩ := by
  have hall : ∀ path ∈ host.inner.overrides.keys, path ∈ overridden := by
    intro path hpath
    rw [h.overrides, ← h.restorable] at hpath
    exact List.mem_reverse.1 hpath
  obtain ⟨-, hplan', hsources', hoverrides, hprobe⟩ :=
    Rollback.run_reliable (hp ▸ hplan) options.probeName hall
  exact of_idle hparser hoptions (hplan'.trans hp) (hsources'.trans hsources) hsession
    ⟨hoverrides, hprobe⟩

theorem start (hplan : Flaky.Reliable plan) (h : s.Consistent parser options sources plan)
    (hidle : s.engine.session = none) (selection : Selection) {name : ProbeName}
    (hname : name.text = options.probeName) :
    Consistent parser options sources plan
      ⟨(Engine.start flakyMemory selection name s.engine s.host).engine,
        (Engine.start flakyMemory selection name s.engine s.host).host⟩ := by
  obtain ⟨-, huntouched⟩ := h.idle hidle
  have hp : (flakyMemory.installProbe name.text ⟨s.engine.sessions⟩ s.host).state.plan = plan :=
    (s.host.plan_call ..).trans h.samePlan
  simp only [Engine.start]
  split
  · next f hanswer =>
    have hinner := Flaky.inner_installProbe_of_error hanswer
    refine of_idle h.sameParser h.sameOptions hp ?_ rfl ?_
    · rw [hinner]
      exact h.sameSources
    · rw [hinner]
      exact huntouched
  · next hanswer =>
    have hinner := Flaky.inner_installProbe_of_ok hanswer
    generalize hinstalled :
      (flakyMemory.installProbe name.text ⟨s.engine.sessions⟩ s.host).state = installed at *
    have hoverrides : installed.inner.overrides = [] := by
      rw [hinner]
      exact huntouched.overrides
    have hsound := Workshop.run_sound
      ⟨s.engine.parser, s.engine.options.language, s.engine.options.idBase⟩
      ⟨s.engine.parser, name, true⟩ selection hoverrides
    have hsources : installed.inner.sources = sources := by
      rw [hinner]
      exact h.sameSources
    split
    · next p hrun =>
      rw [hrun] at hsound
      refine ⟨h.sameParser, h.sameOptions, hsound.plan.trans hp, hsound.sources.trans hsources, ?_, ?_⟩
      · rintro ⟨⟩
      · rintro session ⟨⟩
        refine ⟨?_, name, hname, ?_⟩
        · rw [Memory.probe?, hsound.probes, hinner, ← hname]
          exact Table.find?_put_self ..
        · rw [← h.sameParser, ← h.sameOptions]
          exact hsound.instrumented
    · next error p hrun =>
      rw [hrun] at hsound
      rw [hname]
      exact of_rollback hplan h.sameParser h.sameOptions (hsound.plan.trans hp)
        (hsound.sources.trans hsources) rfl hsound.instrumented

theorem instrument (hplan : Flaky.Reliable plan) (h : s.Consistent parser options sources plan)
    (included excluded : Option (List String)) :
    (Operation.perform s (.instrument included excluded)).Consistent parser options sources plan := by
  simp only [Operation.perform, Engine.instrument]
  split
  · exact h
  · next hidle =>
    split
    · exact h
    · next name hname =>
      have htext : name.text = options.probeName := by
        rw [← h.sameOptions]
        unfold ProbeName.ofString? at hname
        split at hname
        · cases hname
          rfl
        · cases hname
      exact h.start hplan hidle _ htext

theorem cleanUp (hplan : Flaky.Reliable plan) (h : s.Consistent parser options sources plan) :
    Consistent parser options sources plan
      ⟨(s.engine.cleanUp flakyMemory s.host).engine,
        (s.engine.cleanUp flakyMemory s.host).host⟩ := by
  simp only [Engine.cleanUp]
  split
  · exact h
  · next session hsession =>
    obtain ⟨name, -, hin⟩ := (h.active session hsession).instrumented
    have hrolled := of_rollback (e := { s.engine with session := none }) hplan h.sameParser
      h.sameOptions h.samePlan h.sameSources rfl hin
    rwa [← h.sameOptions] at hrolled ⊢

/-- What continues the store of a session keeps a setup consistent. -/
theorem updateStore (h : s.Consistent parser options sources plan) {f : Store → Store}
    (hf : ∀ store : Store, store.Continues (f store)) :
    Consistent parser options sources plan ⟨s.engine.updateStore f, s.host⟩ where
  sameParser := h.sameParser
  sameOptions := h.sameOptions
  samePlan := h.samePlan
  sameSources := h.sameSources
  idle hnone := by
    have hidle : s.engine.session = none := by simpa [Engine.updateStore] using hnone
    exact ⟨by simp [Engine.maps, Engine.updateStore, hidle], (h.idle hidle).2⟩
  active session hsome := by
    simp only [Engine.updateStore, Option.map_eq_some_iff] at hsome
    obtain ⟨old, hold, rfl⟩ := hsome
    have hrun := h.active old hold
    obtain ⟨name, hname, hin⟩ := hrun.instrumented
    exact ⟨hrun.probe, name, hname, hin.continues (hf old.store)⟩

theorem hit (h : s.Consistent parser options sources plan) (r : Recorder) (args : List Value) :
    (Operation.perform s (.hit r args)).Consistent parser options sources plan := by
  simp only [Operation.perform]
  split
  · next e he =>
    obtain ⟨_, _, he⟩ := Except.bind_ok he
    split at he
    · cases he
      apply h.updateStore
      intro store
      cases hrec : store.recordAll args with
      | ok store' => exact Store.Continues.recordAll hrec
      | error e => exact .refl store
    · cases he
      exact h
  · exact h

/-- The counts of a consistent setup fit its maps. -/
theorem holds (h : s.Consistent parser options sources plan) :
    ∀ m ∈ s.engine.maps, s.engine.counts.Holds m := by
  cases hs : s.engine.session with
  | none => simp [(h.idle hs).1]
  | some session =>
    obtain ⟨name, -, hin⟩ := (h.active session hs).instrumented
    simpa [Engine.maps, Engine.counts, hs] using hin.counted

theorem finalize (hplan : Flaky.Reliable plan) (h : s.Consistent parser options sources plan) :
    (Operation.perform s .finalize).Consistent parser options sources plan := by
  simp only [Operation.perform]
  split
  · next flat o ho =>
    obtain ⟨_, _, ho⟩ := Except.bind_ok ho
    cases ho
    exact h.cleanUp hplan
  · exact h

/-- Every operation keeps a setup consistent. -/
theorem perform (hplan : Flaky.Reliable plan) (h : s.Consistent parser options sources plan)
    (op : Operation) : (op.perform s).Consistent parser options sources plan := by
  cases op with
  | instrument included excluded => exact h.instrument hplan included excluded
  | hit r args => exact h.hit r args
  | load d => exact h.updateStore fun store => Store.Continues.load d store
  | report => exact h
  | statistics o => exact h
  | finalize => exact h.finalize hplan
  | cleanUp => exact h.cleanUp hplan

theorem run (hplan : Flaky.Reliable plan) (h : s.Consistent parser options sources plan)
    (operations : List Operation) : (s.run operations).Consistent parser options sources plan := by
  induction operations generalizing s with
  | nil => exact h
  | cons op rest ih => exact ih (h.perform hplan op)

/-- The results of a consistent setup can be made. -/
theorem answers (h : s.Consistent parser options sources plan) : s.Answers where
  report := Report.exists_build h.holds
  statistics o := Stats.exists_build (fun m hm => (h.holds m hm).pairs) o
  finalize := by
    obtain ⟨flat, hflat⟩ := Flat.exists_build fun m hm => (h.holds m hm).pairs
    exact ⟨_, by rw [Engine.finalize, hflat]; rfl⟩

end Consistent

/-- Every run of operations leaves a consistent setup, whose results can be made. -/
theorem run_consistent (parser : Lua.Parser) (options : InstrumentOptions)
    (sources : Table String String) {plan : Nat → HostCall → Option Fault}
    (hplan : Flaky.Reliable plan) (operations : List Operation) :
    ((initial parser options sources plan).run operations).Consistent parser options sources plan
      ∧ ((initial parser options sources plan).run operations).Answers := by
  have h := (Consistent.initial parser options sources plan).run hplan operations
  exact ⟨h, h.answers⟩

/-- A plan by which the probe cannot be installed at first, and no module can be overridden up to
call 4. -/
def samplePlan (n : Nat) : HostCall → Option Fault
  | .installProbe _ => if n = 0 then some (.failed "no globals") else none
  | .override _ => if n ≤ 4 then some (.failed "read only") else none
  | _ => none

/-- What a probe of a statement gives to its recorder. -/
def sampleArgs (id : Int) : List Value :=
  [.scalar (.string "m.lua"), .scalar (.string "s"), .scalar (.int id)]

/-- Two instrumentations that fail and one that does not, two hits, a hit of no probe, a hit of the
recorder of a session that failed, and a report. -/
def sampleOperations : List Operation :=
  let instrument := Operation.instrument none (some [])
  [instrument, instrument, instrument, .hit ⟨2⟩ (sampleArgs 0), .hit ⟨2⟩ (sampleArgs 0),
    .hit ⟨2⟩ (sampleArgs 9), .hit ⟨1⟩ (sampleArgs 0), .report]

theorem run_consistent_sample :
    let sources := [("m.lua", "return 1")]
    let s := (initial .ofGrammar .standard sources samplePlan).run sampleOperations
    (∃ session, s.engine.session = some session ∧ session.overridden = ["m.lua"]
        ∧ session.store
          = ⟨[⟨"m.lua", 0, [2], [], []⟩], [⟨⟨.string "m.lua", "s", 9, none⟩, 1⟩]⟩
        ∧ Running .ofGrammar .standard s.host.inner session)
      ∧ (∃ report, s.engine.report = .ok report)
      ∧ (Operation.finalize.perform s).Consistent .ofGrammar .standard sources samplePlan
      ∧ Untouched .standard (Operation.finalize.perform s).host.inner := by
  intro sources s
  have hplan : Flaky.Reliable samplePlan := ⟨fun _ _ => rfl, fun _ _ => rfl⟩
  obtain ⟨hconsistent, hanswers⟩ :=
    run_consistent .ofGrammar .standard sources hplan sampleOperations
  have hended := (run_consistent .ofGrammar .standard sources hplan
    (sampleOperations ++ [.finalize])).1
  rw [run, List.foldl_append] at hended
  have hactive : s.engine.session.map (fun session => (session.overridden, session.store))
      = some (["m.lua"],
        ⟨[⟨"m.lua", 0, [2], [], []⟩], [⟨⟨.string "m.lua", "s", 9, none⟩, 1⟩]⟩) := by
    decide +kernel
  obtain ⟨session, hsession, hfields⟩ := Option.map_eq_some_iff.1 hactive
  obtain ⟨hoverridden, hstore⟩ := Prod.mk.inj hfields
  have hidle : (Operation.finalize.perform s).engine.session = none := by decide +kernel
  exact ⟨⟨session, hsession, hoverridden, hstore, hconsistent.active session hsession⟩,
    hanswers.report, hended, (hended.idle hidle).2⟩

end Setup

end LuaCoverage
