import LuaCoverage.Engine.Basic
import LuaCoverage.Host.Flaky
import LuaCoverage.Host.Memory

/-!
# Calls that fail, and taking back

A call of a host that may fail either fails without effect, or is the call of the host itself. When
the plan is *reliable*, so that restoring and removing never fail, taking back leaves nothing
behind: no module of the host is overridden any more, and the probe is gone.

Results:
* `Flaky.call_cases`: the two outcomes of a call.
* `Rollback.run_reliable`: what a host is behind a roll back.
-/

namespace LuaCoverage

namespace Flaky
variable {σ α : Type}

/-- A plan by which restoring modules and removing the probe never fail. -/
structure Reliable (plan : Nat → HostCall → Option Fault) : Prop where
  restore : ∀ n path, plan n (.restore path) = none
  removeProbe : ∀ n name, plan n (.removeProbe name) = none

theorem plan_call (s : Flaky σ) (c : HostCall) (run : σ → Reply σ α) :
    (s.call c run).state.plan = s.plan := by
  unfold call
  split <;> rfl

/-- A call fails without effect, or it is the call of the host. -/
theorem call_cases (s : Flaky σ) (c : HostCall) (run : σ → Reply σ α) :
    (∃ f, (s.call c run).answer = .error f ∧ (s.call c run).state.inner = s.inner)
      ∨ ((s.call c run).answer = (run s.inner).answer
        ∧ (s.call c run).state.inner = (run s.inner).state) := by
  unfold call
  split
  · next f _ => exact .inl ⟨f, rfl, rfl⟩
  · exact .inr ⟨rfl, rfl⟩

theorem inner_call_of_none {s : Flaky σ} {c : HostCall} (run : σ → Reply σ α)
    (h : s.plan s.calls c = none) : (s.call c run).state.inner = (run s.inner).state := by
  simp [call, h, Reply.lift]

/-- A call that leaves the host as it is leaves it so if it fails, too. -/
theorem inner_call_of_pure (s : Flaky σ) (c : HostCall) {run : σ → Reply σ α}
    (h : (run s.inner).state = s.inner) : (s.call c run).state.inner = s.inner := by
  rcases s.call_cases c run with ⟨f, -, hinner⟩ | ⟨-, hinner⟩
  · exact hinner
  · rw [hinner, h]

end Flaky

namespace Memory

theorem state_resolve (m : Memory) (path : String) : (host.resolve path m).state = m := by
  simp only [host]
  split <;> rfl

theorem find?_of_resolve {m : Memory} {path source : String}
    (h : (host.resolve path m).answer = .ok source) : m.sources.find? path = some source := by
  simp only [host] at h
  split at h
  · next found hfound =>
    cases h
    exact hfound
  · cases h

/-- Overriding fails without effect, or the text is loaded from now on. -/
theorem override_cases (m : Memory) (path text : String) :
    (∃ f, (host.override path text m).answer = .error f
        ∧ (host.override path text m).state = m)
      ∨ ((host.override path text m).answer = .ok ()
        ∧ (host.override path text m).state = m.overriding path text) := by
  simp only [host]
  split
  · exact .inr ⟨rfl, rfl⟩
  · exact .inl ⟨_, rfl, rfl⟩

end Memory

namespace Rollback
variable {s : Flaky Memory}

/-- Restoring takes away the overrides of the modules that are restored, and nothing else. -/
theorem restoreAll_reliable (h : Flaky.Reliable s.plan) (paths : List String) :
    (restoreAll (Flaky.host Memory.host) paths s).leftovers = []
      ∧ (restoreAll (Flaky.host Memory.host) paths s).host.plan = s.plan
      ∧ (restoreAll (Flaky.host Memory.host) paths s).host.inner
        = { s.inner with overrides := s.inner.overrides.filter fun entry => entry.1 ∉ paths } := by
  induction paths generalizing s with
  | nil =>
    have hkept : (s.inner.overrides.filter fun entry => entry.1 ∉ ([] : List String))
        = s.inner.overrides := List.filter_eq_self.2 (by simp)
    refine ⟨rfl, rfl, ?_⟩
    rw [hkept]
    rfl
  | cons path rest ih =>
    have hnone := h.restore s.calls path
    have hplan : ((Flaky.host Memory.host).restore path s).state.plan = s.plan :=
      s.plan_call ..
    have hinner : ((Flaky.host Memory.host).restore path s).state.inner = s.inner.restoring path :=
      Flaky.inner_call_of_none _ hnone
    have hanswer : ((Flaky.host Memory.host).restore path s).answer = .ok () :=
      Flaky.call_of_plan_none _ hnone
    obtain ⟨hleft, hplan', hrest⟩ := ih (hplan ▸ h)
    refine ⟨?_, hplan'.trans hplan, ?_⟩
    · simp only [restoreAll, leftover, hanswer, hleft, List.append_nil]
    · simp only [restoreAll, hrest, hinner, Memory.restoring, Table.erase, List.filter_filter]
      congr 2
      funext entry
      by_cases hentry : entry.1 = path <;> simp [hentry]

/-- What a host is behind a roll back of all that was overridden. -/
theorem run_reliable (h : Flaky.Reliable s.plan) (name : String) {overridden : List String}
    (hall : ∀ path ∈ s.inner.overrides.keys, path ∈ overridden) :
    (run (Flaky.host Memory.host) name overridden s).leftovers = []
      ∧ (run (Flaky.host Memory.host) name overridden s).host.plan = s.plan
      ∧ (run (Flaky.host Memory.host) name overridden s).host.inner.sources = s.inner.sources
      ∧ (run (Flaky.host Memory.host) name overridden s).host.inner.overrides = []
      ∧ (run (Flaky.host Memory.host) name overridden s).host.inner.probe? name = none := by
  obtain ⟨hleft, hplan, hinner⟩ := restoreAll_reliable h overridden
  have hempty : (s.inner.overrides.filter fun entry => entry.1 ∉ overridden) = [] := by
    rw [List.filter_eq_nil_iff]
    intro entry hentry
    simpa using hall entry.1 (List.mem_map_of_mem hentry)
  rw [hempty] at hinner
  generalize hr : restoreAll (Flaky.host Memory.host) overridden s = r at hleft hplan hinner
  have hnone : r.host.plan r.host.calls (.removeProbe name) = none :=
    hplan ▸ h.removeProbe r.host.calls name
  have hanswer : ((Flaky.host Memory.host).removeProbe name r.host).answer = .ok () :=
    Flaky.call_of_plan_none _ hnone
  have hlast : ((Flaky.host Memory.host).removeProbe name r.host).state.inner
      = { r.host.inner with probes := r.host.inner.probes.erase name } :=
    Flaky.inner_call_of_none _ hnone
  have hplan' : ((Flaky.host Memory.host).removeProbe name r.host).state.plan = r.host.plan :=
    r.host.plan_call ..
  simp only [run, hr]
  refine ⟨?_, hplan'.trans hplan, ?_, ?_, ?_⟩
  · simp only [hleft, leftover, hanswer, List.append_nil]
  · rw [hlast, hinner]
  · rw [hlast, hinner]
  · rw [hlast]
    exact Table.find?_erase_self ..

end Rollback

end LuaCoverage
