import LuaCoverage.Engine.Session
import LuaCoverage.Proofs.Host.Watched

/-!
# Views of hosts

A host is *seen* as another one if every call answers the same on both and leaves states behind that
are seen as one another. An engine cannot tell them apart: it does the same with both, and ends in
the same state. A watched host is seen as the host that is watched, so what is told from its calls
is about the host itself.

Results:
* `Watched.seen`: watching a host adds nothing but the events.
* `Engine.instrument_seen`, `Engine.cleanUp_seen`: an engine does the same with both hosts.
-/

namespace LuaCoverage

variable {σ τ α : Type} {g : Host τ} {h : Host σ} {view : τ → σ}

/-- A host is seen as another one, by a view of its states. -/
structure Host.Seen (g : Host τ) (h : Host σ) (view : τ → σ) : Prop where
  name : g.name = h.name
  listModules : ∀ scope s, (g.listModules scope s).lift view = h.listModules scope (view s)
  resolve : ∀ path s, (g.resolve path s).lift view = h.resolve path (view s)
  override : ∀ path text s, (g.override path text s).lift view = h.override path text (view s)
  restore : ∀ path s, (g.restore path s).lift view = h.restore path (view s)
  installProbe : ∀ name r s,
    (g.installProbe name r s).lift view = h.installProbe name r (view s)
  removeProbe : ∀ name s, (g.removeProbe name s).lift view = h.removeProbe name (view s)

theorem Watched.seen (h : Host σ) : (Watched.host h).Seen h Watched.inner where
  name := rfl
  listModules _ _ := rfl
  resolve _ _ := rfl
  override _ _ _ := rfl
  restore _ _ := rfl
  installProbe _ _ _ := rfl
  removeProbe _ _ := rfl

@[simp] theorem Reply.answer_lift (r : Reply τ α) (view : τ → σ) :
    (r.lift view).answer = r.answer := rfl

@[simp] theorem Reply.state_lift (r : Reply τ α) (view : τ → σ) :
    (r.lift view).state = view r.state := rfl

def Progress.seen (view : τ → σ) (p : Progress τ) : Progress σ :=
  ⟨view p.host, p.store, p.maps, p.overridden, p.diagnostics⟩

namespace Workshop
variable {analyzer : Analyzer} {instrumenter : Instrumenter}

/-- What a part of an instrumentation answers, as it is seen. -/
def seenPart (view : τ → σ) (result : Option EngineError × Progress τ) :
    Option EngineError × Progress σ := (result.1, result.2.seen view)

theorem override_seen (hseen : g.Seen h view) (path text : String) (m : ProbeMap)
    (p : Progress τ) : seenPart view (override ⟨g, analyzer, instrumenter⟩ path text m p)
      = override ⟨h, analyzer, instrumenter⟩ path text m (p.seen view) := by
  simp only [override, Progress.seen, ← hseen.override, Reply.answer_lift, Reply.state_lift,
    hseen.name]
  split <;> rfl

theorem process_seen (hseen : g.Seen h view) (path source : String) (p : Progress τ) :
    seenPart view (process ⟨g, analyzer, instrumenter⟩ path source p)
      = process ⟨h, analyzer, instrumenter⟩ path source (p.seen view) := by
  unfold process
  cases analyzer.analyze (Text.Utf8.ofString source) path with
  | error e => rfl
  | ok a =>
    cases htext : instrumenter.instrument a with
    | error e =>
      simp only [htext]
      rfl
    | ok text =>
      simp only [htext]
      exact override_seen hseen ..

theorem one_seen (hseen : g.Seen h view) (path : String) (p : Progress τ) :
    seenPart view (one ⟨g, analyzer, instrumenter⟩ path p)
      = one ⟨h, analyzer, instrumenter⟩ path (p.seen view) := by
  simp only [one, Progress.seen, ← hseen.resolve, Reply.answer_lift, Reply.state_lift]
  split
  · exact process_seen hseen ..
  · split <;> rfl

theorem all_seen (hseen : g.Seen h view) (paths : List String) (p : Progress τ) :
    seenPart view (all ⟨g, analyzer, instrumenter⟩ paths p)
      = all ⟨h, analyzer, instrumenter⟩ paths (p.seen view) := by
  induction paths generalizing p with
  | nil => rfl
  | cons path rest ih =>
    simp only [all, ← one_seen hseen]
    cases hone : one ⟨g, analyzer, instrumenter⟩ path p with
    | mk error? next =>
      cases error? with
      | none => exact ih next
      | some error => rfl

theorem select_seen (hseen : g.Seen h view) (s : Selection) (roots found : List String) (t : τ) :
    (select g s roots found t).lift view = select h s roots found (view t) := by
  induction roots generalizing found t with
  | nil => rfl
  | cons root rest ih =>
    simp only [select, ← hseen.listModules, Reply.answer_lift, Reply.state_lift]
    split
    · exact ih ..
    · rfl

theorem run_seen (hseen : g.Seen h view) (s : Selection) (p : Progress τ) :
    seenPart view (run ⟨g, analyzer, instrumenter⟩ s p)
      = run ⟨h, analyzer, instrumenter⟩ s (p.seen view) := by
  simp only [run, Progress.seen, ← select_seen hseen, Reply.answer_lift, Reply.state_lift]
  split
  · exact all_seen hseen ..
  · rfl

end Workshop

/-! ## Taking back -/

namespace Rollback

/-- A roll back as it is seen. -/
def seen (view : τ → σ) (r : Rollback τ) : Rollback σ := ⟨r.leftovers, view r.host⟩

theorem restoreAll_seen (hseen : g.Seen h view) (paths : List String) (t : τ) :
    (restoreAll g paths t).seen view = restoreAll h paths (view t) := by
  induction paths generalizing t with
  | nil => rfl
  | cons path rest ih =>
    simp only [restoreAll, ← hseen.restore, Reply.state_lift, ← ih]
    rfl

theorem run_seen (hseen : g.Seen h view) (name : String) (paths : List String) (t : τ) :
    (run g name paths t).seen view = run h name paths (view t) := by
  simp only [run, ← restoreAll_seen hseen, seen, ← hseen.removeProbe]
  rfl

end Rollback

def Outcome.seen (view : τ → σ) (o : Outcome τ) : Outcome σ := ⟨o.error?, o.engine, view o.host⟩

namespace Engine

theorem start_seen (hseen : g.Seen h view) (s : Selection) (name : ProbeName) (e : Engine) (t : τ) :
    (start g s name e t).seen view = start h s name e (view t) := by
  simp only [start, ← hseen.installProbe, Reply.answer_lift, Reply.state_lift, hseen.name]
  split
  · rfl
  · have hstart : (⟨view (g.installProbe name.text ⟨e.sessions⟩ t).state, Store.empty, [], [], []⟩ :
        Progress σ) = Progress.seen view
          ⟨(g.installProbe name.text ⟨e.sessions⟩ t).state, Store.empty, [], [], []⟩ := rfl
    rw [hstart, ← Workshop.run_seen hseen]
    generalize Workshop.run _ s _ = result
    obtain ⟨error?, p⟩ := result
    cases error? with
    | none => rfl
    | some error =>
      have hback := Rollback.run_seen hseen name.text p.overridden p.host
      simp only [Workshop.seenPart, Progress.seen, ← hback]
      rfl

theorem instrument_seen (hseen : g.Seen h view) (included excluded : Option (List String))
    (e : Engine) (t : τ) :
    (e.instrument g included excluded t).seen view = e.instrument h included excluded (view t) := by
  unfold instrument
  split
  · rfl
  · split
    · rfl
    · exact start_seen hseen ..

theorem cleanUp_seen (hseen : g.Seen h view) (e : Engine) (t : τ) :
    (e.cleanUp g t).seen view = e.cleanUp h (view t) := by
  unfold cleanUp
  split
  · rfl
  · next session _ =>
    simp only [← Rollback.run_seen hseen, ← hseen.name]
    rfl

end Engine

end LuaCoverage
