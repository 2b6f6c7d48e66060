import LuaCoverage.Config.Basic
import LuaCoverage.Counter.Store
import LuaCoverage.Diagnostic
import LuaCoverage.Host.Basic
import LuaCoverage.Lua.Chunk

/-!
# The coverage engine

An engine instruments the modules of a host and counts their hits. From the one to the clean-up
there is a session, which has a store, the maps of the instrumented modules, and the paths that it
overrode. The recorder of a session writes to the store of that session only, so the hits of a
recorder that was left behind are lost.

Everything a session did to a host is taken back: the overridden modules are restored, the last one
first, and then the probe is removed. A call that fails does not keep the others from being made;
what it left behind is collected.

Results:
* `Engine.recordHit_of_ne`: a recorder of another session changes nothing.
* `Engine.counts_of_idle`: without a session there are no counts.
* `Rollback.restoreAll_append`: modules are restored one after the other.
-/

namespace LuaCoverage
open LuaCoverage.Text

/-- What could not be taken back. -/
inductive Leftover
  | module (path : String)
  | probe (name : String)
  deriving DecidableEq, Repr

/-- The wording for something that could not be taken back. -/
def Leftover.text : Leftover → String
  | .module path => path
  | .probe name => "probe " ++ name

/-- What a host refused to do. -/
inductive HookCause
  | install (name : String) (f : Fault)
  | override (path : String) (f : Fault)
  | restore (leftovers : List (Leftover × Fault))
  deriving DecidableEq, Repr

def HookCause.message : HookCause → String
  | .install name f => "could not install probe " ++ literal name ++ " (" ++ f.message ++ ")"
  | .override path f => "could not override " ++ path ++ " (" ++ f.message ++ ")"
  | .restore leftovers =>
    "could not restore " ++ ", ".intercalate
      (leftovers.map fun (leftover, f) => leftover.text ++ " (" ++ f.message ++ ")")

/-- Why an operation of an engine fails. -/
inductive EngineError
  | probeName (e : InvalidName)
  | hook (hostName : String) (cause : HookCause)
  | host (f : Fault)
  deriving DecidableEq, Repr

def EngineError.message : EngineError → String
  | .probeName e => e.message
  | .hook hostName cause => hostName ++ ": " ++ cause.message
  | .host f => f.message

/-- A session: its recorder, the counts, the maps of the instrumented modules, and the paths that
were overridden, the last one first. -/
structure Session where
  recorder : Recorder
  store : Store
  maps : List ProbeMap
  overridden : List String
  deriving Repr

/-- An engine. The diagnostics are those of the last instrumentation. -/
structure Engine where
  parser : Lua.Parser
  options : InstrumentOptions
  sessions : Nat
  session : Option Session
  diagnostics : List Diagnostic

namespace Engine

/-- An engine that has not done anything yet. -/
def ofOptions (parser : Lua.Parser) (options : InstrumentOptions) : Engine :=
  ⟨parser, options, 0, none, []⟩

def isActive (e : Engine) : Bool := e.session.isSome

def maps (e : Engine) : List ProbeMap := (e.session.map Session.maps).getD []

def counts (e : Engine) : Store := (e.session.map Session.store).getD Store.empty

theorem counts_of_idle {e : Engine} (h : e.session = none) : e.counts = Store.empty := by
  simp [counts, h]

/-- The diagnostic for hits that were dropped. -/
def staleDiagnostic (s : StaleHits) : Diagnostic := ⟨.staleProbe, s.reference.path, s.message⟩

/-- The diagnostics of the last instrumentation, and those for dropped hits. -/
def allDiagnostics (e : Engine) : List Diagnostic :=
  e.diagnostics ++ e.counts.stale.map staleDiagnostic

/-- Changes the store, if there is a session. -/
def updateStore (e : Engine) (f : Store → Store) : Engine :=
  { e with session := e.session.map fun s => { s with store := f s.store } }

/-- Whether a recorder is the one of the session. -/
def isRecording (e : Engine) (r : Recorder) : Bool :=
  match e.session with
  | some s => s.recorder == r
  | none => false

/-- Calls a recorder with a list of arguments. -/
def recordHit (e : Engine) (r : Recorder) (args : List Value) : Except ArityError Engine := do
  let _ ← e.counts.recordAll args
  if e.isRecording r then
    .ok (e.updateStore fun s => (s.recordAll args).toOption.getD s)
  else .ok e

theorem recordHit_of_ne {e f : Engine} {r : Recorder} {args : List Value}
    (h : e.isRecording r = false) (hf : e.recordHit r args = .ok f) : f = e := by
  unfold recordHit at hf
  cases hr : e.counts.recordAll args with
  | error a => simp [hr, bind, Except.bind] at hf
  | ok s =>
    simp only [hr, bind, Except.bind, h] at hf
    exact (Except.ok.inj hf).symm

end Engine

/-! ## Taking back -/

/-- What could not be taken back, and the host afterwards. -/
structure Rollback (σ : Type) where
  leftovers : List (Leftover × Fault)
  host : σ

namespace Rollback
variable {σ : Type}

/-- The leftover of a call that failed. -/
def leftover (item : Leftover) (r : Reply σ Unit) : List (Leftover × Fault) :=
  match r.answer with
  | .ok _ => []
  | .error f => [(item, f)]

def restoreAll (h : Host σ) : List String → σ → Rollback σ
  | [], s => ⟨[], s⟩
  | path :: rest, s =>
    let r := h.restore path s
    let later := restoreAll h rest r.state
    ⟨leftover (.module path) r ++ later.leftovers, later.host⟩

theorem restoreAll_append (h : Host σ) (front back : List String) (s : σ) :
    restoreAll h (front ++ back) s =
      ⟨(restoreAll h front s).leftovers
          ++ (restoreAll h back (restoreAll h front s).host).leftovers,
        (restoreAll h back (restoreAll h front s).host).host⟩ := by
  induction front generalizing s with
  | nil => simp [restoreAll]
  | cons path rest ih => simp [restoreAll, ih, List.append_assoc]

/-- Restores modules in order, and removes the probe. -/
def run (h : Host σ) (probeName : String) (overridden : List String) (s : σ) : Rollback σ :=
  let restored := restoreAll h overridden s
  let r := h.removeProbe probeName restored.host
  ⟨restored.leftovers ++ leftover (.probe probeName) r, r.state⟩

/-- The error about leftovers, if there are any. -/
def error? (r : Rollback σ) (hostName : String) : Option EngineError :=
  if r.leftovers.isEmpty then none else some (.hook hostName (.restore r.leftovers))

end Rollback

end LuaCoverage
