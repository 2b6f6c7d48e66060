import LuaCoverage.Files

/-!
# Hosts

A host is what loads modules: it lists them, gives their sources, and may be told to load another
text in place of a source. A recorder stands for the probe function while it is installed.

A call of a host answers or fails, and leaves the host in some state either way.

Results:
* `Reply.ok_state`, `Reply.fail_state`: what a plain answer or a plain failure leaves behind.
-/

namespace LuaCoverage

/-- Why a call of a host fails. -/
inductive Fault
  | unknownModule (path : String)
  | file (e : FileError)
  | io (text : String)
  | invalid (text : String)
  | failed (text : String)
  deriving DecidableEq, Repr

namespace Fault

/-- The wording of a fault. A module that is not there is named as a literal. -/
def message : Fault → String
  | .unknownModule path => Text.literal path
  | .file e => e.message
  | .io text => text
  | .invalid text => text
  | .failed text => text

/-- Whether the fault says that a source cannot be read, which concerns one module only. -/
def isUnreadable : Fault → Bool
  | .unknownModule _ => true
  | .file _ => true
  | .io _ => true
  | .invalid _ => false
  | .failed _ => false

end Fault

/-- A recorder, by the number of the session that made it. -/
structure Recorder where
  number : Nat
  deriving DecidableEq, Repr

/-- What a call answers, and the state in which it leaves the host. -/
structure Reply (σ α : Type) where
  answer : Except Fault α
  state : σ

namespace Reply

/-- An answer that leaves a state behind. -/
def ok {σ α : Type} (value : α) (s : σ) : Reply σ α := ⟨.ok value, s⟩

def fail {σ α : Type} (f : Fault) (s : σ) : Reply σ α := ⟨.error f, s⟩

/-- A reply of a part of a state, as one of the whole. -/
def lift {σ τ α : Type} (r : Reply σ α) (whole : σ → τ) : Reply τ α := ⟨r.answer, whole r.state⟩

@[simp] theorem ok_state {σ α : Type} (value : α) (s : σ) : (ok value s).state = s := rfl

@[simp] theorem fail_state {σ α : Type} (f : Fault) (s : σ) :
    (fail f s : Reply σ α).state = s := rfl

end Reply

/-- A host with states of a type. -/
structure Host (σ : Type) where
  name : String
  /-- The paths of the modules at or below a scope, in a fixed order. -/
  listModules : (scope : String) → σ → Reply σ (List String)
  /-- The source of a module, never what is loaded in its place. -/
  resolve : (path : String) → σ → Reply σ String
  /-- Loads a text in place of a module. -/
  override : (path text : String) → σ → Reply σ Unit
  /-- Loads a module as it is again. -/
  restore : (path : String) → σ → Reply σ Unit
  /-- Makes a recorder the probe function. -/
  installProbe : (name : String) → Recorder → σ → Reply σ Unit
  /-- Takes the probe function away. -/
  removeProbe : (name : String) → σ → Reply σ Unit

end LuaCoverage
