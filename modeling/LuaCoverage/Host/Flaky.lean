import LuaCoverage.Host.Basic

/-!
# Hosts that fail

Any host may be made to fail at any of its calls. A call that is made to fail has no effect but
that it is counted.

Results:
* `Flaky.call_of_plan_none`: a call that is not made to fail is the call of the host.
-/

namespace LuaCoverage

/-- A call of a host. -/
inductive HostCall
  | listModules (scope : String)
  | resolve (path : String)
  | override (path : String)
  | restore (path : String)
  | installProbe (name : String)
  | removeProbe (name : String)
  deriving DecidableEq, Repr

/-- The state of a host, with the number of calls so far, and a plan that says which calls fail by
their numbers. -/
structure Flaky (σ : Type) where
  inner : σ
  calls : Nat
  plan : Nat → HostCall → Option Fault

namespace Flaky
variable {σ α : Type}

/-- Makes a call, or fails as the plan says. -/
def call (s : Flaky σ) (c : HostCall) (run : σ → Reply σ α) : Reply (Flaky σ) α :=
  let counted := { s with calls := s.calls + 1 }
  match s.plan s.calls c with
  | some f => .fail f counted
  | none => (run s.inner).lift fun inner => { counted with inner }

theorem call_of_plan_none {s : Flaky σ} {c : HostCall} (run : σ → Reply σ α)
    (h : s.plan s.calls c = none) : (s.call c run).answer = (run s.inner).answer := by
  simp [call, h, Reply.lift]

/-- A host that fails as the plan in its state says. -/
def host (h : Host σ) : Host (Flaky σ) where
  name := h.name
  listModules scope s := s.call (.listModules scope) (h.listModules scope)
  resolve path s := s.call (.resolve path) (h.resolve path)
  override path text s := s.call (.override path) (h.override path text)
  restore path s := s.call (.restore path) (h.restore path)
  installProbe name recorder s := s.call (.installProbe name) (h.installProbe name recorder)
  removeProbe name s := s.call (.removeProbe name) (h.removeProbe name)

end Flaky

end LuaCoverage
