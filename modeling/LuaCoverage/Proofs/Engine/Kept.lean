import LuaCoverage.Engine.Session

/-!
# What an engine keeps of its host

An engine overrides and restores no modules but those that its host has listed. So a property of the
host is kept by whatever an engine does if the calls about listed modules keep it, and the calls that
are about no module do. The overridden modules of a session are listed ones at any time.

Results:
* `Workshop.run_kept`: what an instrumentation keeps.
* `Engine.instrument_kept`, `Engine.cleanUp_kept`: what one turn of an engine keeps.
* `Engine.turns_kept`: what a run of turns keeps.
-/

namespace LuaCoverage

variable {σ : Type} {h : Host σ} {isModule : String → Prop} {P : σ → Prop}

/-- A host keeps a property, as long as all calls about modules are about those of a kind. It lists
no others. -/
structure Host.Keeps (h : Host σ) (isModule : String → Prop) (P : σ → Prop) : Prop where
  listed : ∀ scope s paths, P s → (h.listModules scope s).answer = .ok paths →
    ∀ path ∈ paths, isModule path
  listModules : ∀ scope s, P s → P (h.listModules scope s).state
  resolve : ∀ path s, P s → P (h.resolve path s).state
  override : ∀ path text s, isModule path → P s → P (h.override path text s).state
  restore : ∀ path s, isModule path → P s → P (h.restore path s).state
  installProbe : ∀ name r s, P s → P (h.installProbe name r s).state
  removeProbe : ∀ name s, P s → P (h.removeProbe name s).state

/-- An instrumentation that has overridden modules of a kind only, on a host with a property. -/
structure Progress.Kept (isModule : String → Prop) (P : σ → Prop) (p : Progress σ) : Prop where
  host : P p.host
  overridden : ∀ path ∈ p.overridden, isModule path

/-! ## Instrumenting -/

namespace Workshop
variable {analyzer : Analyzer} {instrumenter : Instrumenter} {p : Progress σ} {path : String}

theorem override_kept (hkeeps : h.Keeps isModule P) (hp : p.Kept isModule P)
    (hpath : isModule path) (text : String) (m : ProbeMap) :
    (override ⟨h, analyzer, instrumenter⟩ path text m p).2.Kept isModule P := by
  have hhost := hkeeps.override path text p.host hpath hp.host
  simp only [override]
  split
  · refine ⟨hhost, fun other hother => ?_⟩
    rcases List.mem_cons.1 hother with rfl | hother
    · exact hpath
    · exact hp.overridden other hother
  · exact ⟨hhost, hp.overridden⟩

theorem process_kept (hkeeps : h.Keeps isModule P) (hp : p.Kept isModule P)
    (hpath : isModule path) (source : String) :
    (process ⟨h, analyzer, instrumenter⟩ path source p).2.Kept isModule P := by
  unfold process
  split
  · exact ⟨hp.host, hp.overridden⟩
  · split
    · exact ⟨hp.host, hp.overridden⟩
    · exact override_kept hkeeps hp hpath ..

theorem one_kept (hkeeps : h.Keeps isModule P) (hp : p.Kept isModule P) (hpath : isModule path) :
    (one ⟨h, analyzer, instrumenter⟩ path p).2.Kept isModule P := by
  have hhost := hkeeps.resolve path p.host hp.host
  simp only [one]
  split
  · exact process_kept (p := { p with host := _ }) hkeeps ⟨hhost, hp.overridden⟩ hpath _
  · split <;> exact ⟨hhost, hp.overridden⟩

theorem all_kept (hkeeps : h.Keeps isModule P) (hp : p.Kept isModule P) {paths : List String}
    (hpaths : ∀ path ∈ paths, isModule path) :
    (all ⟨h, analyzer, instrumenter⟩ paths p).2.Kept isModule P := by
  induction paths generalizing p with
  | nil => exact hp
  | cons path rest ih =>
    have hone : (one ⟨h, analyzer, instrumenter⟩ path p).2.Kept isModule P :=
      one_kept hkeeps hp (hpaths path (by simp))
    simp only [all]
    split
    · next next hnext =>
      rw [hnext] at hone
      exact ih hone fun other hother => hpaths other (by simp [hother])
    · next error next hnext =>
      rw [hnext] at hone
      exact hone

/-- A selection consists of listed modules. -/
theorem select_kept (hkeeps : h.Keeps isModule P) (s : Selection) (roots found : List String)
    {host : σ} (hhost : P host) (hfound : ∀ path ∈ found, isModule path) :
    P (select h s roots found host).state
      ∧ ∀ paths, (select h s roots found host).answer = .ok paths →
        ∀ path ∈ paths, isModule path := by
  induction roots generalizing found host with
  | nil =>
    refine ⟨hhost, ?_⟩
    rintro paths ⟨⟩
    exact hfound
  | cons root rest ih =>
    have hstate := hkeeps.listModules root host hhost
    simp only [select]
    split
    · next paths hpaths =>
      refine ih _ hstate fun path hpath => ?_
      rcases List.mem_append.1 (List.mem_eraseDups.1 hpath) with hpath | hpath
      · exact hfound path hpath
      · exact hkeeps.listed root host paths hhost hpaths path (List.mem_filter.1 hpath).1
    · refine ⟨hstate, ?_⟩
      rintro paths ⟨⟩

theorem run_kept (hkeeps : h.Keeps isModule P) (hp : p.Kept isModule P) (s : Selection) :
    (run ⟨h, analyzer, instrumenter⟩ s p).2.Kept isModule P := by
  obtain ⟨hstate, hselected⟩ := select_kept hkeeps s s.included [] hp.host (by simp)
  simp only [run]
  split
  · next paths hpaths =>
    exact all_kept (p := { p with host := _ }) hkeeps ⟨hstate, hp.overridden⟩
      (hselected paths hpaths)
  · exact ⟨hstate, hp.overridden⟩

end Workshop

/-! ## Taking back -/

namespace Rollback

theorem restoreAll_kept (hkeeps : h.Keeps isModule P) {paths : List String}
    (hpaths : ∀ path ∈ paths, isModule path) {host : σ} (hhost : P host) :
    P (restoreAll h paths host).host := by
  induction paths generalizing host with
  | nil => exact hhost
  | cons path rest ih =>
    exact ih (fun other hother => hpaths other (by simp [hother]))
      (hkeeps.restore path host (hpaths path (by simp)) hhost)

theorem run_kept (hkeeps : h.Keeps isModule P) (name : String) {paths : List String}
    (hpaths : ∀ path ∈ paths, isModule path) {host : σ} (hhost : P host) :
    P (run h name paths host).host :=
  hkeeps.removeProbe name _ (restoreAll_kept hkeeps hpaths hhost)

end Rollback

/-! ## Engines -/

namespace Engine

/-- An engine whose session, if there is one, has overridden modules of a kind only. -/
def Overrides (isModule : String → Prop) (e : Engine) : Prop :=
  ∀ session, e.session = some session → ∀ path ∈ session.overridden, isModule path

theorem overrides_of_idle {e : Engine} (h : e.session = none) : e.Overrides isModule := by
  intro session hsession
  rw [h] at hsession
  cases hsession

/-- Either nothing is overridden behind an instrumentation, or listed modules are. -/
theorem start_kept (hkeeps : h.Keeps isModule P) (s : Selection) (name : ProbeName) (e : Engine)
    {host : σ} (hhost : P host) :
    (start h s name e host).engine.Overrides isModule ∧ P (start h s name e host).host := by
  have hinstalled := hkeeps.installProbe name.text ⟨e.sessions⟩ host hhost
  simp only [start]
  split
  · exact ⟨overrides_of_idle rfl, hinstalled⟩
  · have hrun : (Workshop.run ⟨h, ⟨e.parser, e.options.language, e.options.idBase⟩, ⟨e.parser, name, true⟩⟩ s
        ⟨(h.installProbe name.text ⟨e.sessions⟩ host).state, Store.empty, [], [], []⟩).2.Kept
        isModule P := Workshop.run_kept hkeeps ⟨hinstalled, by simp⟩ s
    split
    · next p hp =>
      rw [hp] at hrun
      refine ⟨?_, hrun.host⟩
      rintro session ⟨⟩
      exact hrun.overridden
    · next error p hp =>
      rw [hp] at hrun
      exact ⟨overrides_of_idle rfl, Rollback.run_kept hkeeps name.text hrun.overridden hrun.host⟩

theorem instrument_kept (hkeeps : h.Keeps isModule P) (included excluded : Option (List String))
    {e : Engine} (he : e.Overrides isModule) {host : σ} (hhost : P host) :
    (e.instrument h included excluded host).engine.Overrides isModule
      ∧ P (e.instrument h included excluded host).host := by
  unfold instrument
  split
  · exact ⟨he, hhost⟩
  · split
    · exact ⟨he, hhost⟩
    · exact start_kept hkeeps _ _ e hhost

theorem cleanUp_kept (hkeeps : h.Keeps isModule P) {e : Engine} (he : e.Overrides isModule)
    {host : σ} (hhost : P host) :
    (e.cleanUp h host).engine.Overrides isModule ∧ P (e.cleanUp h host).host := by
  unfold cleanUp
  split
  · exact ⟨he, hhost⟩
  · next session hsession =>
    exact ⟨overrides_of_idle rfl, Rollback.run_kept hkeeps _ (he session hsession) hhost⟩

/-- What starts and ends the sessions of an engine. -/
inductive Turn
  | instrument (included excluded : Option (List String))
  | cleanUp
  deriving Repr

/-- The engine and its host behind a turn, whether it succeeds or not. -/
def Turn.perform (h : Host σ) (s : Engine × σ) : Turn → Engine × σ
  | .instrument included excluded =>
    let o := s.1.instrument h included excluded s.2
    (o.engine, o.host)
  | .cleanUp =>
    let o := s.1.cleanUp h s.2
    (o.engine, o.host)

/-- The engine and its host behind a run of turns. -/
def turns (h : Host σ) (e : Engine) (host : σ) (turns : List Turn) : Engine × σ :=
  turns.foldl (Turn.perform h) (e, host)

theorem turns_kept (hkeeps : h.Keeps isModule P) {e : Engine} (he : e.Overrides isModule)
    {host : σ} (hhost : P host) (run : List Turn) :
    (turns h e host run).1.Overrides isModule ∧ P (turns h e host run).2 := by
  induction run generalizing e host with
  | nil => exact ⟨he, hhost⟩
  | cons turn rest ih =>
    cases turn with
    | instrument included excluded =>
      obtain ⟨he', hhost'⟩ := instrument_kept hkeeps included excluded he hhost
      exact ih he' hhost'
    | cleanUp =>
      obtain ⟨he', hhost'⟩ := cleanUp_kept hkeeps he hhost
      exact ih he' hhost'

end Engine

end LuaCoverage
