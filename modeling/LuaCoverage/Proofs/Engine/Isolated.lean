import LuaCoverage.Proofs.Engine.Consistency
import LuaCoverage.Proofs.Engine.View

/-!
# Sessions do not see one another

An engine that has had sessions, and has none now, is as good as a new one: whatever is done with it
from the next instrumentation on, it answers and shows what a new engine on a new host with the same
modules does. What tells the two apart are the numbers of the sessions, the calls that were made of
the host, and the diagnostics of the last instrumentation, which the next one forgets. The numbers
are in no answer, so an engine *follows* another one if it does the same with higher numbers.

A recorder of an earlier session may still be called. Nothing comes of it.

Results:
* `Setup.Follows.perform`: every operation does the same with an engine that follows another one.
* `Setup.follows_of_instrument`: behind its next instrumentation an engine follows a new one.
* `Setup.hit_of_earlier`: what an earlier recorder notes is lost.
* `Setup.isolated`: earlier sessions show in nothing.
-/

namespace LuaCoverage

/-! ## Higher numbers -/

/-- The recorder of a session with a higher number. -/
def Recorder.later (k : Nat) (r : Recorder) : Recorder := ⟨r.number + k⟩

theorem Recorder.later_beq (k : Nat) (r q : Recorder) : (r.later k == q.later k) = (r == q) := by
  cases r
  cases q
  rw [Bool.eq_iff_iff]
  simp [later]

def Session.later (k : Nat) (s : Session) : Session := { s with recorder := s.recorder.later k }

namespace Engine
variable {k : Nat} {e f : Engine}

/-- An engine that has had more sessions. -/
def later (k : Nat) (e : Engine) : Engine :=
  { e with sessions := e.sessions + k, session := e.session.map (Session.later k) }

@[simp] theorem maps_later (k : Nat) (e : Engine) : (e.later k).maps = e.maps := by
  cases hs : e.session <;> simp [maps, later, hs, Session.later]

@[simp] theorem counts_later (k : Nat) (e : Engine) : (e.later k).counts = e.counts := by
  cases hs : e.session <;> simp [counts, later, hs, Session.later]

@[simp] theorem isActive_later (k : Nat) (e : Engine) : (e.later k).isActive = e.isActive := by
  simp [isActive, later]

@[simp] theorem allDiagnostics_later (k : Nat) (e : Engine) :
    (e.later k).allDiagnostics = e.allDiagnostics := by
  rw [allDiagnostics, allDiagnostics, counts_later]
  rfl

@[simp] theorem isRecording_later (k : Nat) (e : Engine) (r : Recorder) :
    (e.later k).isRecording (r.later k) = e.isRecording r := by
  cases hs : e.session with
  | none => simp [isRecording, later, hs]
  | some s => simp [isRecording, later, hs, Session.later, Recorder.later_beq]

theorem updateStore_later (k : Nat) (e : Engine) (f : Store → Store) :
    (e.later k).updateStore f = (e.updateStore f).later k := by
  cases hs : e.session <;> simp [updateStore, later, hs, Session.later]

theorem recordHit_later (k : Nat) (e : Engine) (r : Recorder) (args : List Value) :
    (e.later k).recordHit (r.later k) args = (e.recordHit r args).map (later k) := by
  simp only [recordHit, counts_later, isRecording_later, updateStore_later]
  cases e.counts.recordAll args with
  | error a => rfl
  | ok s => cases e.isRecording r <;> rfl

end Engine

/-! ## Hosts without probes -/

/-- Modules in memory, as they are seen by one who does not look for probe functions. -/
def Memory.unprobed (m : Memory) : Memory := { m with probes := [] }

/-- The host in memory for which probe functions are nothing. -/
def Memory.bareHost : Host Memory :=
  { Memory.host with
    installProbe := fun _ _ m => .ok () m
    removeProbe := fun _ m => .ok () m }

theorem Memory.seen : Memory.host.Seen Memory.bareHost Memory.unprobed where
  name := rfl
  listModules _ _ := rfl
  resolve path m := by
    simp only [host, bareHost, unprobed]
    cases m.sources.find? path <;> rfl
  override path text m := by
    simp only [host, bareHost, unprobed]
    cases m.sources.find? path <;> rfl
  restore _ _ := rfl
  installProbe _ _ _ := rfl
  removeProbe _ _ := rfl

namespace Flaky
variable {σ τ α : Type} {g : Host τ} {h : Host σ} {view : τ → σ}

/-- A state as it is seen by one who knows of calls before the first one. -/
def since (view : τ → σ) (n : Nat) (s : Flaky τ) : Flaky σ :=
  ⟨view s.inner, s.calls + n, fun call => s.plan (call - n)⟩

theorem call_since (n : Nat) (s : Flaky τ) (c : HostCall) {run : τ → Reply τ α} {run' : σ → Reply σ α}
    (hrun : ∀ t, (run t).lift view = run' (view t)) :
    (s.call c run).lift (since view n) = (s.since view n).call c run' := by
  have hplan : (s.since view n).plan (s.since view n).calls c = s.plan s.calls c := by
    simp [since]
  have hcalls : s.calls + n + 1 = s.calls + 1 + n := by omega
  unfold call
  rw [hplan]
  cases s.plan s.calls c with
  | some f => simp only [Reply.lift, Reply.fail, since, hcalls]
  | none =>
    have hinner : (s.since view n).inner = view s.inner := rfl
    rw [hinner, ← hrun]
    simp only [Reply.lift, since, hcalls]

/-- A host that may fail is seen as its host is. -/
theorem seen (hseen : g.Seen h view) (n : Nat) : (host g).Seen (host h) (since view n) where
  name := hseen.name
  listModules scope s := call_since n s _ (hseen.listModules scope)
  resolve path s := call_since n s _ (hseen.resolve path)
  override path text s := call_since n s _ (hseen.override path text)
  restore path s := call_since n s _ (hseen.restore path)
  installProbe name r s := call_since n s _ (hseen.installProbe name r)
  removeProbe name s := call_since n s _ (hseen.removeProbe name)

end Flaky

/-- The host in memory that may fail, and for which probe functions are nothing. -/
abbrev bareMemory : Host (Flaky Memory) := Flaky.host Memory.bareHost

/-- An outcome of an engine that has had more sessions. -/
def Outcome.later {σ : Type} (k : Nat) (o : Outcome σ) : Outcome σ :=
  ⟨o.error?, o.engine.later k, o.host⟩

namespace Engine
variable {k : Nat} {e f : Engine}

/-- Without probe functions a session starts in the same way whatever its number is, and whatever
the diagnostics were. -/
theorem start_later (hparser : e.parser = f.parser) (hoptions : e.options = f.options)
    (hsessions : e.sessions = f.sessions + k) (s : Selection) (name : ProbeName) (host : Flaky Memory) :
    start bareMemory s name e host = (start bareMemory s name f host).later k := by
  have hinstall : bareMemory.installProbe name.text ⟨e.sessions⟩ host
      = bareMemory.installProbe name.text ⟨f.sessions⟩ host := rfl
  have hnext : f.sessions + k + 1 = f.sessions + 1 + k := by omega
  simp only [start, hinstall, hparser, hoptions]
  split
  · simp only [Outcome.later, abandoned, later, hparser, hoptions, hsessions, hnext, Option.map_none]
  · split
    · simp only [Outcome.later, begun, later, hparser, hoptions, hsessions, hnext, Option.map_some,
        Session.later, Recorder.later]
    · simp only [Outcome.later, abandoned, later, hparser, hoptions, hsessions, hnext, Option.map_none]

theorem instrument_later (k : Nat) (included excluded : Option (List String)) (e : Engine)
    (host : Flaky Memory) :
    (e.later k).instrument bareMemory included excluded host
      = (e.instrument bareMemory included excluded host).later k := by
  cases hs : e.session with
  | some s => simp only [instrument, later, hs, Option.map_some, Outcome.later]
  | none =>
    have hlater : (e.later k).session = none := by simp [later, hs]
    have hoptions : (e.later k).options = e.options := rfl
    simp only [instrument, hs, hlater, hoptions]
    split
    · rfl
    · exact start_later (e := e.later k) (f := e) rfl rfl rfl ..

theorem cleanUp_later (k : Nat) (e : Engine) (host : Flaky Memory) :
    (e.later k).cleanUp bareMemory host = (e.cleanUp bareMemory host).later k := by
  cases hs : e.session with
  | none => simp only [cleanUp, later, hs, Option.map_none, Outcome.later]
  | some s => simp only [cleanUp, later, hs, Option.map_some, Session.later, Outcome.later,
      Option.map_none]

end Engine

/-! ## What is answered and shown -/

/-- What an operation answers. -/
inductive Answer
  | done (error? : Option EngineError)
  | hit (result : Except ArityError Unit)
  | loaded (result : Option (Except LoadError Int))
  | report (result : Except ShapeError Report)
  | statistics (result : Except LengthError Stats)
  | flat (result : Except LengthError (Flat × Option EngineError))

namespace Operation

/-- What an operation answers. A dump is loaded into a session only. -/
def answer (s : Setup) : Operation → Answer
  | .instrument included excluded =>
    .done (s.engine.instrument flakyMemory included excluded s.host).error?
  | .hit r args => .hit ((s.engine.recordHit r args).map fun _ => ())
  | .load d => .loaded (s.engine.session.map fun session => (d.load session.store).1)
  | .report => .report s.engine.report
  | .statistics o => .statistics (s.engine.statistics o)
  | .finalize =>
    .flat ((s.engine.finalize flakyMemory s.host).map fun (flat, o) => (flat, o.error?))
  | .cleanUp => .done (s.engine.cleanUp flakyMemory s.host).error?

/-- An operation on an engine that has had more sessions: a recorder is that of a session with a
higher number. -/
def later (k : Nat) : Operation → Operation
  | .hit r args => .hit (r.later k) args
  | op => op

end Operation

/-- What an engine and its host show between operations. -/
structure Shown where
  isActive : Bool
  maps : List ProbeMap
  diagnostics : List Diagnostic
  counts : Store
  overrides : Table String String
  loaded : String → Except Fault String

namespace Setup
variable {k n : Nat} {s t : Setup}

def shown (s : Setup) : Shown where
  isActive := s.engine.isActive
  maps := s.engine.maps
  diagnostics := s.engine.allDiagnostics
  counts := s.engine.counts
  overrides := s.host.inner.overrides
  loaded := s.host.inner.load

/-- What operations answer one after another, with what is shown behind each of them. -/
def trace : Setup → List Operation → List (Answer × Shown)
  | _, [] => []
  | s, op :: rest => (op.answer s, (op.perform s).shown) :: trace (op.perform s) rest

/-- An engine that has had more sessions on a host of which more calls were made, and a host that
is the same but for its probe functions. -/
structure Follows (k n : Nat) (s t : Setup) : Prop where
  engine : s.engine = t.engine.later k
  host : s.host.since Memory.unprobed 0 = t.host.since Memory.unprobed n

/-- Outcomes that are seen as the same, but for the number of sessions. -/
theorem Follows.of_outcomes {o u : Outcome (Flaky Memory)}
    (h : o.seen (Flaky.since Memory.unprobed 0)
      = (u.seen (Flaky.since Memory.unprobed n)).later k) :
    o.error? = u.error? ∧ Follows k n ⟨o.engine, o.host⟩ ⟨u.engine, u.host⟩ := by
  obtain ⟨herror, hengine, hhost⟩ := Outcome.mk.inj h
  exact ⟨herror, hengine, hhost⟩

theorem Follows.shown (h : Follows k n s t) : s.shown = t.shown := by
  have hinner : s.host.inner.unprobed = t.host.inner.unprobed := congrArg Flaky.inner h.host
  obtain ⟨hsources, hoverrides, -⟩ := Memory.mk.inj hinner
  have hload : s.host.inner.load = t.host.inner.load := by
    funext path
    rw [Memory.load, Memory.load, hsources, hoverrides]
  simp only [Setup.shown, h.engine, Engine.isActive_later, Engine.maps_later,
    Engine.allDiagnostics_later, Engine.counts_later, hoverrides, hload]

theorem Follows.instrument (h : Follows k n s t) (included excluded : Option (List String)) :
    (s.engine.instrument flakyMemory included excluded s.host).error?
        = (t.engine.instrument flakyMemory included excluded t.host).error?
      ∧ Follows k n ((Operation.instrument included excluded).perform s)
        ((Operation.instrument included excluded).perform t) := by
  apply Follows.of_outcomes
  rw [Engine.instrument_seen (Flaky.seen Memory.seen 0),
    Engine.instrument_seen (Flaky.seen Memory.seen n), h.engine, h.host, Engine.instrument_later]

theorem Follows.cleanUp (h : Follows k n s t) :
    (s.engine.cleanUp flakyMemory s.host).error? = (t.engine.cleanUp flakyMemory t.host).error?
      ∧ Follows k n (Operation.cleanUp.perform s) (Operation.cleanUp.perform t) := by
  apply Follows.of_outcomes
  rw [Engine.cleanUp_seen (Flaky.seen Memory.seen 0),
    Engine.cleanUp_seen (Flaky.seen Memory.seen n), h.engine, h.host, Engine.cleanUp_later]

theorem Follows.finalize (h : Follows k n s t) :
    Operation.finalize.answer s = Operation.finalize.answer t
      ∧ Follows k n (Operation.finalize.perform s) (Operation.finalize.perform t) := by
  obtain ⟨herror, hcleaned⟩ := h.cleanUp
  simp only [Operation.answer, Operation.perform, Engine.finalize]
  have hbuild : Flat.build s.engine.counts s.engine.maps
      = Flat.build t.engine.counts t.engine.maps := by
    rw [h.engine, Engine.counts_later, Engine.maps_later]
  rw [hbuild]
  cases Flat.build t.engine.counts t.engine.maps with
  | error e => exact ⟨rfl, h⟩
  | ok flat => exact ⟨congrArg (fun error? => Answer.flat (.ok (flat, error?))) herror, hcleaned⟩

theorem Follows.hit (h : Follows k n s t) (r : Recorder) (args : List Value) :
    ((Operation.hit r args).later k).answer s = (Operation.hit r args).answer t
      ∧ Follows k n (((Operation.hit r args).later k).perform s)
        ((Operation.hit r args).perform t) := by
  simp only [Operation.later, Operation.answer, Operation.perform, h.engine,
    Engine.recordHit_later]
  cases t.engine.recordHit r args with
  | error e => exact ⟨rfl, h⟩
  | ok e => exact ⟨rfl, rfl, h.host⟩

theorem Follows.load (h : Follows k n s t) (d : Dump) :
    (Operation.load d).answer s = (Operation.load d).answer t
      ∧ Follows k n ((Operation.load d).perform s) ((Operation.load d).perform t) := by
  simp only [Operation.answer, Operation.perform, h.engine, Engine.updateStore_later]
  refine ⟨?_, rfl, h.host⟩
  cases hs : t.engine.session <;> simp [Engine.later, hs, Session.later]

/-- Every operation does the same with an engine that follows another one. -/
theorem Follows.perform (h : Follows k n s t) (op : Operation) :
    (op.later k).answer s = op.answer t ∧ Follows k n ((op.later k).perform s) (op.perform t) := by
  cases op with
  | instrument included excluded =>
    obtain ⟨herror, hnext⟩ := h.instrument included excluded
    exact ⟨congrArg Answer.done herror, hnext⟩
  | hit r args => exact h.hit r args
  | load d => exact h.load d
  | report =>
    refine ⟨?_, h⟩
    simp only [Operation.later, Operation.answer, Engine.report, h.engine, Engine.counts_later,
      Engine.maps_later]
  | statistics o =>
    refine ⟨?_, h⟩
    simp only [Operation.later, Operation.answer, Engine.statistics, h.engine,
      Engine.counts_later, Engine.maps_later]
  | finalize => exact h.finalize
  | cleanUp =>
    obtain ⟨herror, hnext⟩ := h.cleanUp
    exact ⟨congrArg Answer.done herror, hnext⟩

/-- So does every run of operations. -/
theorem Follows.trace (h : Follows k n s t) (ops : List Operation) :
    s.trace (ops.map (.later k)) = t.trace ops := by
  induction ops generalizing s t with
  | nil => rfl
  | cons op rest ih =>
    obtain ⟨hanswer, hnext⟩ := h.perform op
    rw [List.map_cons, Setup.trace, Setup.trace, hanswer, hnext.shown, ih hnext]

/-! ## The next session -/

variable {parser : Lua.Parser} {options : InstrumentOptions} {sources : Table String String}

def faultless : Nat → HostCall → Option Fault := fun _ _ => none

theorem reliable_faultless : Flaky.Reliable faultless := ⟨fun _ _ => rfl, fun _ _ => rfl⟩

/-- Behind its next instrumentation an engine without a session follows a new one. -/
theorem follows_of_instrument {name : ProbeName}
    (hname : ProbeName.ofString? options.probeName = .ok name)
    (hs : s.Consistent parser options sources faultless) (hidle : s.engine.session = none)
    (included excluded : Option (List String)) :
    let fresh := initial parser options sources faultless
    let op := Operation.instrument included excluded
    op.answer s = op.answer fresh
      ∧ Follows s.engine.sessions s.host.calls (op.perform s) (op.perform fresh) := by
  have hhost : s.host.since Memory.unprobed 0
      = (initial parser options sources faultless).host.since Memory.unprobed s.host.calls := by
    have hinner : s.host.inner.unprobed = (Memory.ofSources sources).unprobed := by
      simp [Memory.unprobed, Memory.ofSources, hs.sameSources, (hs.idle hidle).2.overrides]
    simp only [Flaky.since, initial, hinner, hs.samePlan, Nat.zero_add, Nat.add_zero]
    rfl
  have hstart : ∀ (e : Engine) (host : Flaky Memory), e.session = none → e.options = options →
      e.instrument bareMemory included excluded host
        = Engine.start bareMemory (e.selection included excluded) name e host := by
    intro e host hnone hoptions
    simp only [Engine.instrument, hnone, hoptions, hname]
  have hselection : s.engine.selection included excluded
      = (Engine.ofOptions parser options).selection included excluded := by
    rw [Engine.selection, Engine.selection, hs.sameOptions]
    rfl
  have hsame : (s.engine.instrument flakyMemory included excluded s.host).seen
        (Flaky.since Memory.unprobed 0)
      = (((Engine.ofOptions parser options).instrument flakyMemory included excluded
          (initial parser options sources faultless).host).seen
        (Flaky.since Memory.unprobed s.host.calls)).later s.engine.sessions := by
    rw [Engine.instrument_seen (Flaky.seen Memory.seen 0),
      Engine.instrument_seen (Flaky.seen Memory.seen s.host.calls), hhost,
      hstart s.engine _ hidle hs.sameOptions, hstart (Engine.ofOptions parser options) _ rfl rfl,
      hselection]
    exact Engine.start_later hs.sameParser hs.sameOptions (Nat.zero_add _).symm ..
  obtain ⟨herror, hfollows⟩ := Follows.of_outcomes hsame
  exact ⟨congrArg Answer.done herror, hfollows⟩

/-- What a recorder notes that is not the one of the session is lost. -/
theorem perform_hit_of_not_recording {r : Recorder} (hnot : s.engine.isRecording r = false)
    (args : List Value) : (Operation.hit r args).perform s = s := by
  simp only [Operation.perform]
  split
  · next e he => rw [Engine.recordHit_of_ne hnot he]
  · rfl

/-- A flat result that can be made ends the session as a clean-up does. -/
theorem perform_finalize_cases (s : Setup) : Operation.finalize.perform s = s
    ∨ Operation.finalize.perform s = Operation.cleanUp.perform s := by
  simp only [Operation.perform]
  split
  · next flat o ho =>
    obtain ⟨_, _, ho⟩ := Except.bind_ok ho
    cases ho
    exact .inr rfl
  · exact .inl rfl

/-- An engine whose probe name is no name does nothing. -/
theorem run_of_invalid {error : InvalidName}
    (hname : ProbeName.ofString? options.probeName = .error error)
    (plan : Nat → HostCall → Option Fault) (ops : List Operation) :
    (initial parser options sources plan).run ops = initial parser options sources plan := by
  have hperform : ∀ op : Operation,
      op.perform (initial parser options sources plan) = initial parser options sources plan := by
    intro op
    cases op with
    | instrument included excluded =>
      simp [Operation.perform, Engine.instrument, initial, Engine.ofOptions, hname]
    | hit r args => exact perform_hit_of_not_recording rfl args
    | load d => rfl
    | report => rfl
    | statistics o => rfl
    | finalize => rcases perform_finalize_cases (initial parser options sources plan) with h | h <;> exact h
    | cleanUp => rfl
  induction ops with
  | nil => rfl
  | cons op rest ih =>
    rw [run, List.foldl_cons, hperform]
    exact ih

end Setup

/-! ## Earlier recorders -/

/-- The sessions of an engine, now and from now on, have numbers from a certain one on. -/
structure Engine.NumberedFrom (k : Nat) (e : Engine) : Prop where
  sessions : k ≤ e.sessions
  recorder : ∀ session, e.session = some session → k ≤ session.recorder.number

namespace Engine.NumberedFrom
variable {k : Nat} {e : Engine}

/-- An engine without a session, which starts with the next number. -/
theorem of_idle (hsessions : k ≤ e.sessions) (hidle : e.session = none) : e.NumberedFrom k := by
  refine ⟨hsessions, fun session hsession => ?_⟩
  rw [hidle] at hsession
  cases hsession

theorem updateStore (he : e.NumberedFrom k) (f : Store → Store) :
    (e.updateStore f).NumberedFrom k := by
  refine ⟨he.sessions, fun session hsession => ?_⟩
  obtain ⟨old, hold, rfl⟩ := Option.map_eq_some_iff.1 hsession
  exact he.recorder old hold

theorem recordHit (he : e.NumberedFrom k) {f : Engine} {r : Recorder} {args : List Value}
    (hf : e.recordHit r args = .ok f) : f.NumberedFrom k := by
  obtain ⟨_, _, hf⟩ := Except.bind_ok hf
  split at hf
  · cases hf
    exact he.updateStore _
  · cases hf
    exact he

variable {σ : Type}

theorem start (he : k ≤ e.sessions) (h : Host σ) (s : Selection) (name : ProbeName) (host : σ) :
    (Engine.start h s name e host).engine.NumberedFrom k := by
  simp only [Engine.start]
  split
  · exact of_idle (Nat.le_succ_of_le he) rfl
  · split
    · refine ⟨Nat.le_succ_of_le he, ?_⟩
      rintro session ⟨⟩
      exact he
    · exact of_idle (Nat.le_succ_of_le he) rfl

theorem instrument (he : e.NumberedFrom k) (h : Host σ) (included excluded : Option (List String))
    (host : σ) : (e.instrument h included excluded host).engine.NumberedFrom k := by
  unfold Engine.instrument
  split
  · exact he
  · split
    · exact he
    · exact start he.sessions ..

theorem cleanUp (he : e.NumberedFrom k) (h : Host σ) (host : σ) :
    (e.cleanUp h host).engine.NumberedFrom k := by
  refine of_idle ?_ (Engine.cleanUp_session h e host)
  unfold Engine.cleanUp
  split <;> exact he.sessions

end Engine.NumberedFrom

namespace Setup
variable {k : Nat} {s : Setup}

theorem numberedFrom_perform (hs : s.engine.NumberedFrom k) (op : Operation) :
    (op.perform s).engine.NumberedFrom k := by
  cases op with
  | instrument included excluded => exact hs.instrument ..
  | hit r args =>
    simp only [Operation.perform]
    split
    · next e he => exact hs.recordHit he
    · exact hs
  | load d => exact hs.updateStore fun store => (d.load store).2
  | report => exact hs
  | statistics o => exact hs
  | finalize =>
    rcases perform_finalize_cases s with h | h
    · rw [h]
      exact hs
    · rw [h]
      exact hs.cleanUp ..
  | cleanUp => exact hs.cleanUp ..

theorem numberedFrom_run (hs : s.engine.NumberedFrom k) (ops : List Operation) :
    (s.run ops).engine.NumberedFrom k := by
  induction ops generalizing s with
  | nil => exact hs
  | cons op rest ih => exact ih (numberedFrom_perform hs op)

/-- What an earlier recorder notes is lost. -/
theorem hit_of_earlier (hs : s.engine.NumberedFrom k) {r : Recorder} (hr : r.number < k)
    (args : List Value) : (Operation.hit r args).perform s = s := by
  refine perform_hit_of_not_recording ?_ args
  unfold Engine.isRecording
  split
  · next session hsession =>
    have hnumber := hs.recorder session hsession
    rw [beq_eq_false_iff_ne]
    rintro rfl
    omega
  · rfl

/-- Whatever an engine has been used for, if it has no session now: the next instrumentation, and
all that comes behind it, is answered and shown as by a new engine on a new host with the same
modules. The recorders of the sessions before change nothing any more, and none of them is ever
installed again. -/
theorem isolated (parser : Lua.Parser) (options : InstrumentOptions)
    (sources : Table String String) (history : List Operation)
    (hidle : ((initial parser options sources faultless).run history).engine.session = none) :
    let fresh := initial parser options sources faultless
    let past := fresh.run history
    let k := past.engine.sessions
    (∀ included excluded ops,
      past.trace (.instrument included excluded :: ops.map (.later k))
        = fresh.trace (.instrument included excluded :: ops))
    ∧ (∀ ops r args, r.number < k → (Operation.hit r args).perform (past.run ops) = past.run ops)
    ∧ ∀ ops r, (past.run ops).host.inner.probe? options.probeName = some r → k ≤ r.number := by
  intro fresh past k
  have hnumbered : ∀ ops, (past.run ops).engine.NumberedFrom k := fun ops =>
    numberedFrom_run (.of_idle (Nat.le_refl _) hidle) ops
  have hpast : past.Consistent parser options sources faultless :=
    (Consistent.initial parser options sources faultless).run reliable_faultless history
  refine ⟨fun included excluded ops => ?_, fun ops r args hr => hit_of_earlier (hnumbered ops) hr _,
    fun ops r hr => ?_⟩
  · cases hname : ProbeName.ofString? options.probeName with
    | error error =>
      -- Such an instrumentation does not even forget the diagnostics, but there are none.
      have hsame : past = fresh := run_of_invalid hname faultless history
      have hlater : Operation.later k = id := by
        funext op
        have hk : k = 0 := congrArg (fun s : Setup => s.engine.sessions) hsame
        cases op <;> simp [Operation.later, hk, Recorder.later]
      rw [hlater, List.map_id, hsame]
    | ok name =>
      obtain ⟨hanswer, hfollows⟩ := follows_of_instrument hname hpast hidle included excluded
      rw [trace, trace, hanswer, hfollows.shown, hfollows.trace ops]
  · have hconsistent := hpast.run reliable_faultless ops
    cases hsession : (past.run ops).engine.session with
    | none =>
      rw [(hconsistent.idle hsession).2.probe] at hr
      cases hr
    | some session =>
      rw [(hconsistent.active session hsession).probe] at hr
      cases hr
      exact (hnumbered ops).recorder session hsession

def sampleOptions : InstrumentOptions := { InstrumentOptions.standard with excluded := [] }

/-- A session with a hit that is counted and one that is not. -/
def sampleHistory : List Operation :=
  [.instrument none none, .hit ⟨0⟩ (sampleArgs 0), .hit ⟨0⟩ (sampleArgs 9), .cleanUp]

theorem isolated_sample :
    let fresh := initial .ofGrammar sampleOptions [("m.lua", "return 1")] faultless
    let past := fresh.run sampleHistory
    past.engine.session = none ∧ past.engine.sessions = 1
      ∧ (fresh.run (sampleHistory.take 3)).engine.counts
        = ⟨[⟨"m.lua", 0, [1], [], []⟩], [⟨⟨.string "m.lua", "s", 9, none⟩, 1⟩]⟩
      ∧ past.trace [.instrument none none, .hit ⟨1⟩ (sampleArgs 0), .finalize]
        = fresh.trace [.instrument none none, .hit ⟨0⟩ (sampleArgs 0), .finalize]
      ∧ (Operation.hit ⟨0⟩ (sampleArgs 0)).perform (past.run [.instrument none none])
        = past.run [.instrument none none] := by
  intro fresh past
  have hidle : past.engine.session = none := by decide +kernel
  have hsessions : past.engine.sessions = 1 := by decide +kernel
  obtain ⟨htrace, hearlier, -⟩ := isolated .ofGrammar sampleOptions [("m.lua", "return 1")] sampleHistory hidle
  refine ⟨hidle, hsessions, by decide +kernel, ?_, ?_⟩
  · have hlater : List.map (Operation.later past.engine.sessions)
        [.hit ⟨0⟩ (sampleArgs 0), .finalize] = [.hit ⟨1⟩ (sampleArgs 0), .finalize] := by
      rw [hsessions]
      rfl
    rw [← hlater]
    exact htrace none none [.hit ⟨0⟩ (sampleArgs 0), .finalize]
  · exact hearlier [.instrument none none] ⟨0⟩ (sampleArgs 0) (by decide +kernel)

end Setup

end LuaCoverage
