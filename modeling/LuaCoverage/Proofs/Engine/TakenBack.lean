import LuaCoverage.Engine.Session
import LuaCoverage.Proofs.Counter.Shape
import LuaCoverage.Proofs.Distinct
import LuaCoverage.Proofs.Host.Watched

/-!
# Sessions are taken back

An instrumentation that failed behind its probe and a clean-up take back what the session did. The
host is watched, so all of this can be told from its calls: which modules the session overrode,
which call the instrumentation gave up at, and what could not be taken back. Which calls fail is up
to the host.

Results:
* `Workshop.run_working`: what the calls of an instrumentation tell about it.
* `Rollback.run_restoring`: what a roll back calls, and what it leaves behind.
* `Engine.session_takenBack`: a session is taken back as a whole.
-/

namespace LuaCoverage
open LuaCoverage.Text

namespace Event

def overridden? : Event → Option String
  | ⟨.override path, none⟩ => some path
  | _ => none

def isTakingBack (event : Event) : Bool :=
  match event.call with
  | .restore _ | .removeProbe _ => true
  | _ => false

/-- What a call failed to take back. -/
def leftover? : Event → Option (Leftover × Fault)
  | ⟨.restore path, some f⟩ => some (.module path, f)
  | ⟨.removeProbe name, some f⟩ => some (.probe name, f)
  | _ => none

/-- The error for a call at which an instrumentation gives up. It goes on behind a source that
cannot be read. -/
def error? (hostName : String) : Event → Option EngineError
  | ⟨.listModules _, some f⟩ => some (.host f)
  | ⟨.resolve _, some f⟩ => if f.isUnreadable then none else some (.host f)
  | ⟨.override path, some f⟩ => some (.hook hostName (.override path f))
  | _ => none

end Event

variable {σ : Type} {h : Host σ} {isOverridden : String → σ → Bool}

/-! ## Working -/

/-- What the calls behind a moment of the past tell about an instrumentation. -/
structure Progress.Working (isOverridden : String → σ → Bool) (past work : List Event)
    (p : Progress (Watched σ)) : Prop where
  events : p.host.events = past ++ work
  overridden : p.overridden = (work.filterMap Event.overridden?).reverse
  nodup : p.overridden.Nodup
  inPlace : ∀ path ∈ p.overridden, isOverridden path p.host.inner = true
  forward : ∀ event ∈ work, event.isTakingBack = false

namespace Workshop
variable (analyzer : Analyzer) (instrumenter : Instrumenter) {past work : List Event}
  {p p' : Progress (Watched σ)} {path : String}

/-- What a part of an instrumentation calls: it has an error if one of the calls gives it, and it
overrides no other than a module that is given. -/
structure Part (h : Host σ) (isOverridden : String → σ → Bool) (past work : List Event)
    (mayOverride : String → Prop) (p : Progress (Watched σ))
    (result : Option EngineError × Progress (Watched σ)) (events : List Event) : Prop where
  working : result.2.Working isOverridden past (work ++ events)
  error : events.findSome? (Event.error? h.name) = result.1
  taken : ∀ other ∈ result.2.overridden, other ∈ p.overridden ∨ mayOverride other

/-- A call that overrides nothing and keeps what is overridden. -/
theorem working_call (hwork : p.Working isOverridden past work) {host : Watched σ} {event : Event}
    (hevents : host.events = p.host.events ++ [event]) (hnone : event.overridden? = none)
    (hforward : event.isTakingBack = false)
    (hkeep : ∀ path ∈ p.overridden, isOverridden path host.inner = isOverridden path p.host.inner)
    (diagnostics : List Diagnostic) :
    Progress.Working isOverridden past (work ++ [event]) { p with host, diagnostics } where
  events := by rw [hevents, hwork.events, List.append_assoc]
  overridden := by
    rw [List.filterMap_append, List.filterMap_cons, hnone, List.filterMap_nil, List.append_nil,
      hwork.overridden]
  nodup := hwork.nodup
  inPlace path hpath := (hkeep path hpath).trans (hwork.inPlace path hpath)
  forward event hevent := by
    rcases List.mem_append.1 hevent with hold | hnew
    · exact hwork.forward event hold
    · rw [List.mem_singleton.1 hnew]
      exact hforward

theorem override_part (hlaws : h.Lawful isOverridden) (hwork : p.Working isOverridden past work)
    (hnew : path ∉ p.overridden) (text : String) (m : ProbeMap) :
    ∃ event, Part h isOverridden past work (· = path) p
      (override ⟨Watched.host h, analyzer, instrumenter⟩ path text m p) [event] := by
  have hother : ∀ other ∈ p.overridden,
      isOverridden other ((Watched.host h).override path text p.host).state.inner
        = isOverridden other p.host.inner := by
    intro other hmem
    refine hlaws.override_ne other path text p.host.inner ?_
    rintro rfl
    exact hnew hmem
  cases hanswer : ((Watched.host h).override path text p.host).answer with
  | error f =>
    refine ⟨⟨.override path, some f⟩, ?_⟩
    have hevents := Watched.events_call_of_error hanswer
    simp only [override, hanswer]
    exact ⟨working_call hwork hevents rfl rfl hother p.diagnostics, rfl, fun _ h => .inl h⟩
  | ok _ =>
    refine ⟨⟨.override path, none⟩, ?_⟩
    have hevents := Watched.events_call_of_ok hanswer
    simp only [override, hanswer]
    refine ⟨⟨?_, ?_, ?_, ?_, ?_⟩, rfl, ?_⟩
    · exact hevents.trans (by rw [hwork.events, List.append_assoc])
    · simp [Progress.add, hwork.overridden, Event.overridden?]
    · exact List.nodup_cons.2 ⟨hnew, hwork.nodup⟩
    · intro other hmem
      rcases List.mem_cons.1 hmem with rfl | hmem
      · exact hlaws.override_ok other text p.host.inner hanswer
      · exact (hother other hmem).trans (hwork.inPlace other hmem)
    · intro event hevent
      rcases List.mem_append.1 hevent with hold | hlast
      · exact hwork.forward event hold
      · rw [List.mem_singleton.1 hlast]
        rfl
    · intro other hmem
      exact (List.mem_cons.1 hmem).symm

theorem process_part (hlaws : h.Lawful isOverridden) (hwork : p.Working isOverridden past work)
    (hnew : path ∉ p.overridden) (source : String) :
    ∃ events, Part h isOverridden past work (· = path) p
      (process ⟨Watched.host h, analyzer, instrumenter⟩ path source p) events := by
  have hskip : ∀ kind text, Part h isOverridden past work (· = path) p
      (none, p.skip kind path text) [] := by
    intro kind text
    refine ⟨?_, rfl, fun _ h => .inl h⟩
    rw [List.append_nil]
    exact ⟨hwork.events, hwork.overridden, hwork.nodup, hwork.inPlace, hwork.forward⟩
  cases ha : analyzer.analyze (Utf8.ofString source) path with
  | error e =>
    unfold process
    simp only [ha]
    exact ⟨[], hskip _ _⟩
  | ok a =>
    cases ht : instrumenter.instrument a with
    | error e =>
      unfold process
      simp only [ha, ht]
      exact ⟨[], hskip _ _⟩
    | ok text =>
      unfold process
      simp only [ha, ht]
      obtain ⟨event, hpart⟩ := override_part analyzer instrumenter hlaws hwork hnew text a.map
      exact ⟨[event], hpart⟩

theorem one_part (hlaws : h.Lawful isOverridden) (hwork : p.Working isOverridden past work)
    (hnew : path ∉ p.overridden) :
    ∃ events, Part h isOverridden past work (· = path) p
      (one ⟨Watched.host h, analyzer, instrumenter⟩ path p) events := by
  have hkeep : ∀ other ∈ p.overridden,
      isOverridden other ((Watched.host h).resolve path p.host).state.inner
        = isOverridden other p.host.inner :=
    fun other _ => hlaws.resolve other path p.host.inner
  cases hanswer : ((Watched.host h).resolve path p.host).answer with
  | ok source =>
    unfold one
    simp only [hanswer]
    have hevents : ((Watched.host h).resolve path p.host).state.events
        = p.host.events ++ [⟨.resolve path, none⟩] := Watched.events_call_of_ok hanswer
    have hcall := working_call hwork hevents rfl rfl hkeep p.diagnostics
    obtain ⟨events, hpart⟩ := process_part analyzer instrumenter hlaws hcall hnew source
    have hworking := hpart.working
    rw [List.append_assoc] at hworking
    refine ⟨⟨.resolve path, none⟩ :: events, hworking, ?_, hpart.taken⟩
    rw [List.findSome?_cons]
    exact hpart.error
  | error f =>
    unfold one
    simp only [hanswer]
    have hevents : ((Watched.host h).resolve path p.host).state.events
        = p.host.events ++ [⟨.resolve path, some f⟩] := Watched.events_call_of_error hanswer
    have hcall := working_call hwork hevents rfl rfl hkeep
    split
    · next hread =>
      exact ⟨[⟨.resolve path, some f⟩], hcall _, by simp [Event.error?, hread], fun _ h => .inl h⟩
    · next hread =>
      exact ⟨[⟨.resolve path, some f⟩], hcall p.diagnostics, by simp [Event.error?, hread],
        fun _ h => .inl h⟩

theorem all_part (hlaws : h.Lawful isOverridden) {paths : List String}
    (hwork : p.Working isOverridden past work) (hnodup : paths.Nodup)
    (hnew : ∀ path ∈ paths, path ∉ p.overridden) :
    ∃ events, Part h isOverridden past work (· ∈ paths) p
      (all ⟨Watched.host h, analyzer, instrumenter⟩ paths p) events := by
  induction paths generalizing p work with
  | nil => exact ⟨[], by rwa [List.append_nil], rfl, fun _ h => .inl h⟩
  | cons path rest ih =>
    obtain ⟨hpath, hrest⟩ := List.nodup_cons.1 hnodup
    obtain ⟨front, hone⟩ :=
      one_part analyzer instrumenter hlaws hwork (hnew path (by simp))
    simp only [all]
    split
    · next p' hp' =>
      rw [hp'] at hone
      have hleft : ∀ other ∈ rest, other ∉ p'.overridden := by
        intro other hmem htaken
        rcases hone.taken other htaken with hold | rfl
        · exact hnew other (by simp [hmem]) hold
        · exact hpath hmem
      obtain ⟨back, hall⟩ := ih hone.working hrest hleft
      refine ⟨front ++ back, ?_, ?_, ?_⟩
      · rw [← List.append_assoc]
        exact hall.working
      · rw [List.findSome?_append, hone.error, Option.none_or]
        exact hall.error
      · intro other htaken
        rcases hall.taken other htaken with hmid | hmem
        · exact (hone.taken other hmid).imp_right fun he => by simp [he]
        · exact .inr (List.mem_cons_of_mem _ hmem)
    · next e p' hp' =>
      rw [hp'] at hone
      exact ⟨front, hone.working, hone.error,
        fun other htaken => (hone.taken other htaken).imp_right fun he => by simp [he]⟩

/-- A selection only lists modules. It fails at the first list that cannot be made. -/
theorem select_part (hlaws : h.Lawful isOverridden) (s : Selection) (roots : List String)
    {found : List String} (hfound : found.Nodup) (host : Watched σ) :
    ∃ events : List Event,
      (select (Watched.host h) s roots found host).state.events = host.events ++ events
      ∧ (∀ event ∈ events, event.overridden? = none ∧ event.isTakingBack = false)
      ∧ (∀ path, isOverridden path (select (Watched.host h) s roots found host).state.inner
        = isOverridden path host.inner)
      ∧ match (select (Watched.host h) s roots found host).answer with
        | .ok paths => paths.Nodup ∧ events.findSome? (Event.error? h.name) = none
        | .error f => events.findSome? (Event.error? h.name) = some (.host f) := by
  induction roots generalizing found host with
  | nil => exact ⟨[], by simp [select], by simp, fun _ => rfl, hfound, rfl⟩
  | cons root rest ih =>
    simp only [select]
    have hkeep := fun path => hlaws.listModules path root host.inner
    split
    · next paths hanswer =>
      have hevents := Watched.events_call_of_ok hanswer
      obtain ⟨events, hrest, hplain, hsame, hend⟩ :=
        ih (nodup_eraseDups (found ++ paths.filter s.allows))
          ((Watched.host h).listModules root host).state
      refine ⟨⟨.listModules root, none⟩ :: events, ?_, ?_, ?_, hend⟩
      · rw [hrest, show ((Watched.host h).listModules root host).state.events = _ from hevents,
          List.append_assoc]
        rfl
      · intro event hevent
        rcases List.mem_cons.1 hevent with rfl | hevent
        · exact ⟨rfl, rfl⟩
        · exact hplain event hevent
      · exact fun path => (hsame path).trans (hkeep path)
    · next f hanswer =>
      have hevents := Watched.events_call_of_error hanswer
      refine ⟨[⟨.listModules root, some f⟩], hevents, ?_, hkeep, rfl⟩
      intro event hevent
      rw [List.mem_singleton.1 hevent]
      exact ⟨rfl, rfl⟩

/-- What the calls of an instrumentation tell about it: it gives up at the first call that has an
error, and the modules that it overrode are in place. -/
theorem run_working (hlaws : h.Lawful isOverridden) (s : Selection) (host : Watched σ) :
    ∃ work : List Event,
      (run ⟨Watched.host h, analyzer, instrumenter⟩ s ⟨host, Store.empty, [], [], []⟩).2.Working
        isOverridden host.events work
      ∧ work.findSome? (Event.error? h.name)
        = (run ⟨Watched.host h, analyzer, instrumenter⟩ s ⟨host, Store.empty, [], [], []⟩).1 := by
  obtain ⟨listed, hevents, hplain, -, hend⟩ :=
    select_part hlaws s s.included .nil host
  have hstart : Progress.Working isOverridden host.events listed
      ⟨(select (Watched.host h) s s.included [] host).state, Store.empty, [], [], []⟩ := by
    refine ⟨hevents, ?_, .nil, by simp, fun event hevent => (hplain event hevent).2⟩
    have hnone : listed.filterMap Event.overridden? = [] :=
      List.filterMap_eq_nil_iff.2 fun event hevent => (hplain event hevent).1
    simp [hnone]
  simp only [run]
  split
  · next paths hpaths =>
    rw [hpaths] at hend
    obtain ⟨events, hall⟩ :=
      all_part analyzer instrumenter hlaws hstart hend.1 (by simp)
    refine ⟨listed ++ events, hall.working, ?_⟩
    rw [List.findSome?_append, hend.2, Option.none_or]
    exact hall.error
  · next f hf =>
    rw [hf] at hend
    exact ⟨listed, hstart, hend⟩

end Workshop

/-! ## Taking back -/

namespace Rollback

/-- What is seen of restoring modules: every one is restored once, in order, whatever fails, and
those are left that failed. -/
structure Restoring (isOverridden : String → σ → Bool) (paths : List String) (before : Watched σ)
    (r : Rollback (Watched σ)) (events : List Event) : Prop where
  seen : r.host.events = before.events ++ events
  calls : events.map Event.call = paths.map HostCall.restore
  leftovers : r.leftovers = events.filterMap Event.leftover?
  left : ∀ path ∈ paths, isOverridden path r.host.inner = true
    ↔ isOverridden path before.inner = true ∧ ∃ f, ⟨.restore path, some f⟩ ∈ events
  kept : ∀ path, path ∉ paths → isOverridden path r.host.inner = isOverridden path before.inner

/-- What a call failed to take back is told by its event. -/
theorem leftover_module (path : String) (r : Reply σ Unit) :
    leftover (.module path) r = [Event.ofReply (.restore path) r].filterMap Event.leftover? := by
  cases hanswer : r.answer <;> simp [leftover, Event.ofReply, Event.leftover?, hanswer]

theorem leftover_probe (name : String) (r : Reply σ Unit) :
    leftover (.probe name) r = [Event.ofReply (.removeProbe name) r].filterMap Event.leftover? := by
  cases hanswer : r.answer <;> simp [leftover, Event.ofReply, Event.leftover?, hanswer]

theorem restoreAll_restoring (hlaws : h.Lawful isOverridden) {paths : List String}
    (hnodup : paths.Nodup) (s : Watched σ) :
    ∃ events, Restoring isOverridden paths s (restoreAll (Watched.host h) paths s) events := by
  induction paths generalizing s with
  | nil => exact ⟨[], by simp [restoreAll], rfl, rfl, by simp, fun _ _ => rfl⟩
  | cons path rest ih =>
    obtain ⟨hnot, hrest⟩ := List.nodup_cons.1 hnodup
    obtain ⟨events, hr⟩ := ih hrest ((Watched.host h).restore path s).state
    -- No later event is about this module.
    have hlater : ∀ fault?, ⟨.restore path, fault?⟩ ∉ events := by
      intro fault? hmem
      have hcall : HostCall.restore path ∈ rest.map HostCall.restore :=
        hr.calls ▸ List.mem_map_of_mem (f := Event.call) hmem
      obtain ⟨other, hother, he⟩ := List.mem_map.1 hcall
      cases he
      exact hnot hother
    have hothers : ∀ other, other ≠ path →
        isOverridden other ((Watched.host h).restore path s).state.inner
          = isOverridden other s.inner :=
      fun other hne => hlaws.restore_ne other path s.inner hne
    refine ⟨.ofReply (.restore path) (h.restore path s.inner) :: events, ?_, ?_, ?_, ?_, ?_⟩
    · exact hr.seen.trans (List.append_assoc _ _ _)
    · simp [hr.calls]
    · rw [restoreAll, hr.leftovers, leftover_module, ← List.filterMap_append]
      rfl
    · intro other hother
      simp only [restoreAll, List.mem_cons]
      by_cases he : other = path
      · subst he
        rw [hr.kept other hnot]
        simp only [hlater, or_false]
        exact hlaws.restore_iff other s.inner
      · rw [hr.left other ((List.mem_cons.1 hother).resolve_left he), hothers other he]
        simp [Event.ne_ofReply (d := .restore other) (c := .restore path) (by simpa using he)]
    · intro other hother
      simp only [List.mem_cons, not_or] at hother
      exact (hr.kept other hother.2).trans (hothers other hother.1)

/-- What is seen of a roll back: every module is restored once, in order, and then the probe is
removed. -/
theorem run_restoring (hlaws : h.Lawful isOverridden) (name : String) {paths : List String}
    (hnodup : paths.Nodup) (s : Watched σ) :
    ∃ events : List Event,
      (run (Watched.host h) name paths s).host.events = s.events ++ events
      ∧ events.map Event.call = paths.map HostCall.restore ++ [.removeProbe name]
      ∧ (run (Watched.host h) name paths s).leftovers = events.filterMap Event.leftover?
      ∧ ∀ path ∈ paths, isOverridden path (run (Watched.host h) name paths s).host.inner = true
        ↔ isOverridden path s.inner = true ∧ ∃ f, ⟨.restore path, some f⟩ ∈ events := by
  obtain ⟨events, hr⟩ := restoreAll_restoring hlaws hnodup s
  simp only [run]
  generalize restoreAll (Watched.host h) paths s = r at hr ⊢
  refine ⟨events ++ [.ofReply (.removeProbe name) (h.removeProbe name r.host.inner)],
    ?_, ?_, ?_, ?_⟩
  · rw [← List.append_assoc, ← hr.seen]
    rfl
  · simp [hr.calls]
  · rw [hr.leftovers, leftover_probe, ← List.filterMap_append]
    rfl
  · intro path hpath
    have hkeep : isOverridden path ((Watched.host h).removeProbe name r.host).state.inner
        = isOverridden path r.host.inner := hlaws.removeProbe path name r.host.inner
    rw [hkeep, hr.left path hpath]
    simp [Event.ne_ofReply (d := .restore path) (c := .removeProbe name) (by simp)]

end Rollback

/-- What is seen of a session being taken back, of which these are the modules that it overrode. All
of them are restored, the last one first, and the probe is removed. What failed is named in the
error, and is all that is left; if nothing failed, another error stands as it was. Behind it all
there is no session. -/
structure TakenBack (hostName probeName : String) (isOverridden : String → σ → Bool)
    (paths : List String) (original? : Option EngineError) (before : Watched σ)
    (o : Outcome (Watched σ)) (events : List Event) : Prop where
  seen : o.host.events = before.events ++ events
  calls : events.map Event.call = paths.reverse.map HostCall.restore ++ [.removeProbe probeName]
  error : o.error? = if events.filterMap Event.leftover? = [] then original?
    else some (.hook hostName (.restore (events.filterMap Event.leftover?)))
  left : ∀ path ∈ paths, isOverridden path o.host.inner = true
    ↔ isOverridden path before.inner = true ∧ ∃ f, ⟨.restore path, some f⟩ ∈ events
  idle : o.engine.session = none ∧ o.engine.maps = [] ∧ o.engine.counts = Store.empty

theorem takenBack_of_run (hlaws : h.Lawful isOverridden) (name : String) {paths : List String}
    (hnodup : paths.Nodup) (original? : Option EngineError) (before : Watched σ) {e : Engine}
    (hidle : e.session = none) :
    ∃ events, TakenBack h.name name isOverridden paths original? before
      ⟨((Rollback.run (Watched.host h) name paths.reverse before).error? h.name).or original?, e,
        (Rollback.run (Watched.host h) name paths.reverse before).host⟩ events := by
  obtain ⟨events, hseen, hcalls, hleftovers, hleft⟩ :=
    Rollback.run_restoring hlaws name (List.nodup_reverse.2 hnodup) before
  refine ⟨events, hseen, hcalls, ?_, fun path hpath => hleft path (List.mem_reverse.2 hpath),
    hidle, by simp [Engine.maps, hidle], Engine.counts_of_idle hidle⟩
  rw [Rollback.error?, hleftovers]
  cases events.filterMap Event.leftover? <;> rfl

namespace Engine

/-- An engine without a session instruments a host under a probe, which is installed. From then on
the calls say which modules the session overrode, and at which call the instrumentation gave up. If
it did, the session is taken back, and the error is the one of that call. If it did not, the
session is taken back by a clean-up, whatever was counted and was done with the host meanwhile. -/
theorem session_takenBack (hlaws : h.Lawful isOverridden) {e : Engine} (hidle : e.session = none)
    {name : ProbeName} (hname : ProbeName.ofString? e.options.probeName = .ok name) {s : σ}
    (hinstalled : (h.installProbe name.text ⟨e.sessions⟩ s).answer = .ok ())
    (included excluded : Option (List String)) (past : List Event) :
    ∃ (work : List Event) (before : Watched σ),
      before.events = past ++ ⟨.installProbe name.text, none⟩ :: work
      ∧ (∀ event ∈ work, event.isTakingBack = false)
      ∧ (work.filterMap Event.overridden?).Nodup
      ∧ (∀ path ∈ work.filterMap Event.overridden?, isOverridden path before.inner = true)
      ∧ match work.findSome? (Event.error? h.name) with
        | some original =>
          ∃ events, TakenBack h.name name.text isOverridden (work.filterMap Event.overridden?)
            (some original) before
            (e.instrument (Watched.host h) included excluded ⟨s, past⟩) events
        | none =>
          (e.instrument (Watched.host h) included excluded ⟨s, past⟩).error? = none
          ∧ (e.instrument (Watched.host h) included excluded ⟨s, past⟩).host = before
          ∧ ∀ (count : Store → Store) (between : Watched σ), ∃ events,
            TakenBack h.name name.text isOverridden (work.filterMap Event.overridden?) none between
              (((e.instrument (Watched.host h) included excluded ⟨s, past⟩).engine.updateStore
                count).cleanUp (Watched.host h) between) events := by
  have hanswer : ((Watched.host h).installProbe name.text ⟨e.sessions⟩ ⟨s, past⟩).answer = .ok () :=
    hinstalled
  have hstart : e.instrument (Watched.host h) included excluded ⟨s, past⟩
      = start (Watched.host h) (e.selection included excluded) name e ⟨s, past⟩ := by
    unfold instrument
    simp only [hidle, hname]
  have htext : name.text = e.options.probeName := ProbeName.text_of_ofString? hname
  obtain ⟨work, hwork, herror⟩ := Workshop.run_working
    ⟨e.parser, e.options.language, e.options.idBase⟩ ⟨e.parser, name, true⟩ hlaws (e.selection included excluded)
    ((Watched.host h).installProbe name.text ⟨e.sessions⟩ ⟨s, past⟩).state
  rw [hstart]
  unfold start
  simp only [hanswer]
  generalize hrun : Workshop.run _ (e.selection included excluded) _ = result at hwork herror ⊢
  obtain ⟨error?, p⟩ := result
  have hpaths : p.overridden = (work.filterMap Event.overridden?).reverse := hwork.overridden
  have hnodup : (work.filterMap Event.overridden?).Nodup := by
    rw [← List.nodup_reverse, ← hpaths]
    exact hwork.nodup
  refine ⟨work, p.host, ?_, hwork.forward, hnodup, ?_, ?_⟩
  · have hevents : ((Watched.host h).installProbe name.text ⟨e.sessions⟩ ⟨s, past⟩).state.events
        = past ++ [⟨.installProbe name.text, none⟩] := Watched.events_call_of_ok hanswer
    rw [hwork.events, hevents, List.append_assoc]
    rfl
  · intro path hpath
    exact hwork.inPlace path (hpaths ▸ List.mem_reverse.2 hpath)
  · rw [herror]
    cases error? with
    | some original =>
      have hback := takenBack_of_run hlaws name.text hnodup (some original) p.host
        (e := e.abandoned p.diagnostics) rfl
      rwa [← hpaths, Option.or_some] at hback
    | none =>
      refine ⟨rfl, rfl, fun count between => ?_⟩
      have hback := takenBack_of_run hlaws name.text hnodup none between
        (e := { (e.begun p).updateStore count with session := none }) rfl
      rw [← hpaths, Option.or_none, htext] at hback
      rw [htext]
      exact hback

/-- A host in memory that lists its modules as they come. -/
def unsorted : Host Memory := { Memory.host with listModules := fun _ m => .ok m.sources.keys m }

theorem unsorted_lawful : unsorted.Lawful fun path m => m.isOverridden path :=
  { Memory.lawful with listModules := fun _ _ _ => rfl }

/-- Modules of which `n.lua` cannot be restored and some cannot be overridden. -/
def stuckMemory (refused : List String) : Flaky Memory where
  inner := Memory.ofSources [("m.lua", "return 1"), ("n.lua", "return 2"), ("o.lua", "return 3")]
  calls := 0
  plan
    | _, .override path => if path ∈ refused then some (.failed "read only") else none
    | _, .restore path => if path = "n.lua" then some (.failed "in use") else none
    | _, _ => none

def stuck (refused : List String) : Outcome (Watched (Flaky Memory)) :=
  (ofOptions .ofGrammar .standard).instrument (Watched.host (Flaky.host unsorted)) none (some [])
    ⟨stuckMemory refused, []⟩

/-- Three modules are overridden, and taken back by a clean-up. In the other run one module is not
overridden, and the two before it are taken back at once. -/
theorem session_takenBack_sample :
    let error := EngineError.hook "memory" (.restore [(.module "n.lua", .failed "in use")])
    let ended := ((stuck []).engine.updateStore id).cleanUp (Watched.host (Flaky.host unsorted))
      (stuck []).host
    ((stuck []).error? = none ∧ ended.error? = some error
      ∧ ∃ events, events.map Event.call
          = [.restore "o.lua", .restore "n.lua", .restore "m.lua", .removeProbe "__covpatch"]
        ∧ TakenBack "memory" "__covpatch" (fun path s => s.inner.isOverridden path)
          ["m.lua", "n.lua", "o.lua"] none (stuck []).host ended events)
    ∧ (stuck ["o.lua"]).error? = some error
      ∧ ∃ before events, events.map Event.call
          = [.restore "n.lua", .restore "m.lua", .removeProbe "__covpatch"]
        ∧ TakenBack "memory" "__covpatch" (fun path s => s.inner.isOverridden path)
          ["m.lua", "n.lua"] (some (.hook "memory" (.override "o.lua" (.failed "read only"))))
          before (stuck ["o.lua"]) events := by
  intro error ended
  have hname : ProbeName.ofString? (ofOptions .ofGrammar .standard).options.probeName
      = .ok ProbeName.standard := rfl
  have hfirst : (stuck []).error? = none := by decide +kernel
  refine ⟨⟨hfirst, by decide +kernel, ?_⟩, by decide +kernel, ?_⟩
  · obtain ⟨work, before, hevents, -, -, -, hback⟩ := session_takenBack
      (Flaky.lawful unsorted_lawful) rfl hname (s := stuckMemory []) rfl none (some []) []
    split at hback
    · obtain ⟨events, hback⟩ := hback
      have hnone := hfirst.symm.trans hback.error
      split at hnone <;> cases hnone
    · obtain ⟨-, rfl, hended⟩ := hback
      obtain ⟨events, hended⟩ := hended id (stuck []).host
      have hmade : (stuck []).host.events.tail.filterMap Event.overridden?
          = ["m.lua", "n.lua", "o.lua"] := by decide +kernel
      rw [show (stuck []).host.events = _ from hevents, List.nil_append, List.tail_cons] at hmade
      rw [hmade] at hended
      exact ⟨events, hended.calls, hended⟩
  · obtain ⟨work, before, hevents, hforward, -, -, hback⟩ := session_takenBack
      (Flaky.lawful unsorted_lawful) rfl hname (s := stuckMemory ["o.lua"]) rfl none (some []) []
    split at hback
    · next original horiginal =>
      obtain ⟨events, hback⟩ := hback
      have htaking : ∀ event ∈ events, event.isTakingBack = true := by
        intro event hevent
        have hcall : event.call ∈ events.map Event.call := List.mem_map_of_mem hevent
        rw [hback.calls, List.mem_append, List.mem_map, List.mem_singleton] at hcall
        obtain ⟨path, -, hcall⟩ | hcall := hcall
        · simp [Event.isTakingBack, ← hcall]
        · simp [Event.isTakingBack, hcall]
      have hseen : (stuck ["o.lua"]).host.events.tail = work ++ events := by
        rw [show (stuck ["o.lua"]).host.events = _ from hback.seen, hevents]
        rfl
      have hwork : (stuck ["o.lua"]).host.events.tail.filter (fun event => !event.isTakingBack)
          = work := by
        rw [hseen, List.filter_append, List.filter_eq_self.2 (by simpa using hforward),
          List.filter_eq_nil_iff.2 (by simpa using htaking), List.append_nil]
      obtain rfl : original = .hook "memory" (.override "o.lua" (.failed "read only")) := by
        rw [← hwork] at horiginal
        refine Option.some.inj (horiginal.symm.trans ?_)
        decide +kernel
      have hmade : work.filterMap Event.overridden? = ["m.lua", "n.lua"] := by
        rw [← hwork]
        decide +kernel
      rw [hmade] at hback
      exact ⟨before, events, hback.calls, hback⟩
    · next hnone =>
      have hsome : (stuck ["o.lua"]).error?.isSome = true := by decide +kernel
      rw [show (stuck ["o.lua"]).error? = _ from hback.1] at hsome
      cases hsome

end Engine

end LuaCoverage
