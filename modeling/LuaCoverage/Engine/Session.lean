import LuaCoverage.Engine.Basic
import LuaCoverage.Instrument.Basic

/-!
# Instrumenting and cleaning up

The modules of a host that a selection allows are analysed, instrumented and overridden, one after
the other. A module whose source cannot be read, analysed or instrumented is left as it is, and
there is a diagnostic about it. If the host refuses anything else, everything is taken back.

Results:
* `Engine.instrument_of_active`: an engine with a session does not start another one.
* `Engine.cleanUp_session`: behind a clean-up there is no session, whatever the host answered.
-/

namespace LuaCoverage
open LuaCoverage.Text

/-- What an instrumentation has done so far: the state of the host, and of the session to be. -/
structure Progress (σ : Type) where
  host : σ
  store : Store
  maps : List ProbeMap
  overridden : List String
  diagnostics : List Diagnostic

namespace Progress
variable {σ : Type}

/-- Notes why a module is left as it is. -/
def skip (p : Progress σ) (kind : DiagnosticKind) (path message : String) : Progress σ :=
  { p with diagnostics := p.diagnostics ++ [⟨kind, .string path, message⟩] }

/-- Takes a module up that was overridden. -/
def add (p : Progress σ) (path : String) (m : ProbeMap) : Progress σ :=
  { p with
    store := p.store.register m
    maps := p.maps ++ [m]
    overridden := path :: p.overridden }

end Progress

/-- What is needed to instrument the modules of a host. -/
structure Workshop (σ : Type) where
  host : Host σ
  analyzer : Analyzer
  instrumenter : Instrumenter

namespace Workshop
variable {σ : Type}

def override (w : Workshop σ) (path text : String) (m : ProbeMap) (p : Progress σ) :
    Option EngineError × Progress σ :=
  let r := w.host.override path text p.host
  let p := { p with host := r.state }
  match r.answer with
  | .ok _ => (none, p.add path m)
  | .error f => (some (.hook w.host.name (.override path f)), p)

/-- Analyses, instruments and overrides a module with a source. -/
def process (w : Workshop σ) (path source : String) (p : Progress σ) :
    Option EngineError × Progress σ :=
  match w.analyzer.analyze (Utf8.ofString source) path with
  | .error e => (none, p.skip .analysis path e.message)
  | .ok a =>
    match w.instrumenter.instrument a with
    | .error e => (none, p.skip .instrumentation path e.message)
    | .ok text => w.override path text a.map p

def one (w : Workshop σ) (path : String) (p : Progress σ) : Option EngineError × Progress σ :=
  let r := w.host.resolve path p.host
  let p := { p with host := r.state }
  match r.answer with
  | .ok source => w.process path source p
  | .error f =>
    if f.isUnreadable then
      (none, p.skip .analysis path ("could not read source (" ++ f.message ++ ")"))
    else (some (.host f), p)

/-- Instruments modules until there is an error. -/
def all (w : Workshop σ) : List String → Progress σ → Option EngineError × Progress σ
  | [], p => (none, p)
  | path :: rest, p =>
    match w.one path p with
    | (none, p) => w.all rest p
    | (some e, p) => (some e, p)

/-- The modules below the roots that a selection allows, each once, behind those found before. -/
def select (h : Host σ) (s : Selection) : (roots found : List String) → σ → Reply σ (List String)
  | [], found, state => .ok found state
  | root :: rest, found, state =>
    let r := h.listModules root state
    match r.answer with
    | .ok paths => select h s rest (found ++ paths.filter s.allows).eraseDups r.state
    | .error f => .fail f r.state

/-- Instruments the modules that a selection allows. -/
def run (w : Workshop σ) (s : Selection) (p : Progress σ) : Option EngineError × Progress σ :=
  let r := select w.host s s.included [] p.host
  let p := { p with host := r.state }
  match r.answer with
  | .ok paths => w.all paths p
  | .error f => (some (.host f), p)

end Workshop

/-- The error of an operation if it failed, and the engine and the host behind it. -/
structure Outcome (σ : Type) where
  error? : Option EngineError
  engine : Engine
  host : σ

namespace Engine
variable {σ : Type}

/-- The selection of an instrumentation: scopes that are not given are those of the options. -/
def selection (e : Engine) (included excluded : Option (List String)) : Selection :=
  Selection.ofScopes (included.getD e.options.included) (excluded.getD e.options.excluded)

/-- An engine behind an instrumentation that failed. -/
def abandoned (e : Engine) (diagnostics : List Diagnostic) : Engine :=
  { e with sessions := e.sessions + 1, session := none, diagnostics }

def begun (e : Engine) (p : Progress σ) : Engine :=
  { e with
    sessions := e.sessions + 1
    session := some ⟨⟨e.sessions⟩, p.store, p.maps, p.overridden⟩
    diagnostics := p.diagnostics }

/-- Instruments the modules of a host under a probe name. -/
def start (h : Host σ) (s : Selection) (name : ProbeName) (e : Engine) (host : σ) : Outcome σ :=
  let installed := h.installProbe name.text ⟨e.sessions⟩ host
  match installed.answer with
  | .error f => ⟨some (.hook h.name (.install name.text f)), e.abandoned [], installed.state⟩
  | .ok _ =>
    let w : Workshop σ :=
      ⟨h, ⟨e.parser, e.options.language, e.options.idBase⟩, ⟨e.parser, name, true⟩⟩
    match w.run s ⟨installed.state, Store.empty, [], [], []⟩ with
    | (none, p) => ⟨none, e.begun p, p.host⟩
    | (some error, p) =>
      let r := Rollback.run h name.text p.overridden p.host
      ⟨some ((r.error? h.name).getD error), e.abandoned p.diagnostics, r.host⟩

/-- Instruments the modules of a host. With a session nothing is done. -/
def instrument (h : Host σ) (included excluded : Option (List String)) (e : Engine) (host : σ) :
    Outcome σ :=
  match e.session with
  | some _ => ⟨none, e, host⟩
  | none =>
    match ProbeName.ofString? e.options.probeName with
    | .error error => ⟨some (.probeName error), e, host⟩
    | .ok name => start h (e.selection included excluded) name e host

/-- Ends a session: everything is taken back, and the counts are gone. -/
def cleanUp (h : Host σ) (e : Engine) (host : σ) : Outcome σ :=
  match e.session with
  | none => ⟨none, e, host⟩
  | some s =>
    let r := Rollback.run h e.options.probeName s.overridden host
    ⟨r.error? h.name, { e with session := none }, r.host⟩

theorem instrument_of_active (h : Host σ) (included excluded : Option (List String)) {e : Engine}
    (he : e.isActive = true) (host : σ) :
    instrument h included excluded e host = ⟨none, e, host⟩ := by
  unfold instrument
  cases hs : e.session with
  | none => simp [isActive, hs] at he
  | some s => rfl

theorem cleanUp_session (h : Host σ) (e : Engine) (host : σ) :
    (cleanUp h e host).engine.session = none := by
  unfold cleanUp
  cases hs : e.session with
  | none => exact hs
  | some s => rfl

end Engine

end LuaCoverage
