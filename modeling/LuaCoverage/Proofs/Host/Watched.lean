import LuaCoverage.Proofs.Host.Faults

/-!
# Watching a host

A host is *watched* by noting every call that is made of it, and why the call failed if it did. A
watched host answers as the host itself.

What a host loads in place of its modules is a matter of the host. All that is asked of it is a few
laws on when a module is overridden, which a host in memory keeps, and which no fault breaks: a
call that fails has no effect.

Results:
* `Memory.lawful`: a host in memory keeps the laws.
* `Flaky.lawful`: a host that is made to fail keeps them if the host itself does.
-/

namespace LuaCoverage

/-- A call that was made, and why it failed if it did. -/
structure Event where
  call : HostCall
  fault? : Option Fault
  deriving DecidableEq, Repr

def Event.ofReply {σ α : Type} (c : HostCall) (r : Reply σ α) : Event :=
  match r.answer with
  | .ok _ => ⟨c, none⟩
  | .error f => ⟨c, some f⟩

@[simp] theorem Event.call_ofReply {σ α : Type} (c : HostCall) (r : Reply σ α) :
    (Event.ofReply c r).call = c := by
  unfold Event.ofReply
  split <;> rfl

theorem Event.ne_ofReply {σ α : Type} {c d : HostCall} (hne : d ≠ c) (r : Reply σ α)
    (fault? : Option Fault) : ⟨d, fault?⟩ ≠ Event.ofReply c r :=
  fun he => hne ((congrArg Event.call he).trans (Event.call_ofReply c r))

/-- The state of a host, and the calls that were made so far, the first one first. -/
structure Watched (σ : Type) where
  inner : σ
  events : List Event

namespace Watched
variable {σ α : Type}

def call (s : Watched σ) (c : HostCall) (run : σ → Reply σ α) : Reply (Watched σ) α :=
  (run s.inner).lift fun inner => ⟨inner, s.events ++ [.ofReply c (run s.inner)]⟩

/-- A host whose state tells the calls that were made of it. -/
def host (h : Host σ) : Host (Watched σ) where
  name := h.name
  listModules scope s := s.call (.listModules scope) (h.listModules scope)
  resolve path s := s.call (.resolve path) (h.resolve path)
  override path text s := s.call (.override path) (h.override path text)
  restore path s := s.call (.restore path) (h.restore path)
  installProbe name recorder s := s.call (.installProbe name) (h.installProbe name recorder)
  removeProbe name s := s.call (.removeProbe name) (h.removeProbe name)

@[simp] theorem answer_call (s : Watched σ) (c : HostCall) (run : σ → Reply σ α) :
    (s.call c run).answer = (run s.inner).answer := rfl

@[simp] theorem inner_call (s : Watched σ) (c : HostCall) (run : σ → Reply σ α) :
    (s.call c run).state.inner = (run s.inner).state := rfl

theorem events_call_of_ok {s : Watched σ} {c : HostCall} {run : σ → Reply σ α} {a : α}
    (h : (s.call c run).answer = .ok a) : (s.call c run).state.events = s.events ++ [⟨c, none⟩] := by
  have hrun : (run s.inner).answer = .ok a := h
  simp only [call, Reply.lift, Event.ofReply, hrun]

theorem events_call_of_error {s : Watched σ} {c : HostCall} {run : σ → Reply σ α} {f : Fault}
    (h : (s.call c run).answer = .error f) :
    (s.call c run).state.events = s.events ++ [⟨c, some f⟩] := by
  have hrun : (run s.inner).answer = .error f := h
  simp only [call, Reply.lift, Event.ofReply, hrun]

end Watched

/-- The laws of overriding. Only overriding and restoring a module change whether it is overridden,
and no other module is by them. A module is overridden behind an override that did not fail, and is
not behind a restore that did not fail. A restore that failed has no effect. -/
structure Host.Lawful {σ : Type} (h : Host σ) (isOverridden : String → σ → Bool) : Prop where
  listModules : ∀ path scope s,
    isOverridden path (h.listModules scope s).state = isOverridden path s
  resolve : ∀ path other s, isOverridden path (h.resolve other s).state = isOverridden path s
  installProbe : ∀ path name r s,
    isOverridden path (h.installProbe name r s).state = isOverridden path s
  removeProbe : ∀ path name s,
    isOverridden path (h.removeProbe name s).state = isOverridden path s
  override_ok : ∀ path text s, (h.override path text s).answer = .ok () →
    isOverridden path (h.override path text s).state = true
  override_ne : ∀ path other text s, path ≠ other →
    isOverridden path (h.override other text s).state = isOverridden path s
  restore_ok : ∀ path s, (h.restore path s).answer = .ok () →
    isOverridden path (h.restore path s).state = false
  restore_error : ∀ path s f, (h.restore path s).answer = .error f →
    isOverridden path (h.restore path s).state = isOverridden path s
  restore_ne : ∀ path other s, path ≠ other →
    isOverridden path (h.restore other s).state = isOverridden path s

/-- A module is overridden behind a restore if it was so before it and the restore failed. -/
theorem Host.Lawful.restore_iff {σ : Type} {h : Host σ} {isOverridden : String → σ → Bool}
    (hlaws : h.Lawful isOverridden) (path : String) (s : σ) :
    isOverridden path (h.restore path s).state = true ↔ isOverridden path s = true
      ∧ ∃ f, ⟨.restore path, some f⟩ = Event.ofReply (.restore path) (h.restore path s) := by
  cases hanswer : (h.restore path s).answer with
  | ok _ => simp [hlaws.restore_ok path s hanswer, Event.ofReply, hanswer]
  | error f => simp [hlaws.restore_error path s f hanswer, Event.ofReply, hanswer]

namespace Memory

theorem lawful : host.Lawful fun path m => m.isOverridden path where
  listModules _ _ _ := rfl
  resolve _ other m := by rw [state_resolve]
  installProbe _ _ _ _ := rfl
  removeProbe _ _ _ := rfl
  override_ok path text m h := by
    rcases override_cases m path text with ⟨f, hfail, -⟩ | ⟨-, hstate⟩
    · rw [hfail] at h
      cases h
    · simp [hstate, isOverridden, Memory.overriding, Table.find?_put_self]
  override_ne path other text m hne := by
    rcases override_cases m other text with ⟨_, -, hstate⟩ | ⟨-, hstate⟩
    · rw [hstate]
    · simp [hstate, isOverridden, Memory.overriding, Table.find?_put_of_ne _ _ hne]
  restore_ok path m _ := by simp [host, isOverridden, restoring, Table.find?_erase_self]
  restore_error _ _ _ h := by cases h
  restore_ne path other m hne := by
    simp [host, isOverridden, restoring, Table.find?_erase_of_ne _ hne]

end Memory

namespace Flaky
variable {σ α : Type} {h : Host σ} {isOverridden : String → σ → Bool}

/-- What a call keeps is kept if the call is made to fail, too. -/
theorem keeps_call {P : σ → Bool} (s : Flaky σ) (c : HostCall) {run : σ → Reply σ α}
    (hrun : P (run s.inner).state = P s.inner) : P (s.call c run).state.inner = P s.inner := by
  rcases s.call_cases c run with ⟨_, -, hinner⟩ | ⟨-, hinner⟩
  · rw [hinner]
  · rw [hinner, hrun]

theorem lawful (hlaws : h.Lawful isOverridden) :
    (host h).Lawful fun path s => isOverridden path s.inner where
  listModules path scope s := keeps_call s _ (hlaws.listModules path scope s.inner)
  resolve path other s := keeps_call s _ (hlaws.resolve path other s.inner)
  installProbe path name r s := keeps_call s _ (hlaws.installProbe path name r s.inner)
  removeProbe path name s := keeps_call s _ (hlaws.removeProbe path name s.inner)
  override_ok path text s hok := by
    rcases s.call_cases (.override path) (h.override path text) with ⟨f, ha, -⟩ | ⟨ha, hi⟩
    · cases ha.symm.trans hok
    · exact (congrArg _ hi).trans (hlaws.override_ok path text s.inner (ha.symm.trans hok))
  override_ne path other text s hne :=
    keeps_call s _ (hlaws.override_ne path other text s.inner hne)
  restore_ok path s hok := by
    rcases s.call_cases (.restore path) (h.restore path) with ⟨f, ha, -⟩ | ⟨ha, hi⟩
    · cases ha.symm.trans hok
    · exact (congrArg _ hi).trans (hlaws.restore_ok path s.inner (ha.symm.trans hok))
  restore_error path s f herror := by
    rcases s.call_cases (.restore path) (h.restore path) with ⟨_, -, hi⟩ | ⟨ha, hi⟩
    · exact congrArg _ hi
    · exact (congrArg _ hi).trans (hlaws.restore_error path s.inner f (ha.symm.trans herror))
  restore_ne path other s hne := keeps_call s _ (hlaws.restore_ne path other s.inner hne)

end Flaky

end LuaCoverage
