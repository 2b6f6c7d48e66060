import LuaCoverage.Engine.Session
import LuaCoverage.Proofs.Distinct

/-!
# Instrumentations that go through

If an instrumentation has no error, then none of its modules had one: each was either *skipped*,
with a diagnostic about it, or *taken up* behind an override that succeeded. What these two do to
an instrumentation is all that has to be known of a module, and what they keep is kept by the run.

Results:
* `Workshop.handled_of_one`: what becomes of a module.
* `Workshop.all_keeps`: what both outcomes of a module keep holds behind all modules.
* `Engine.finished_of_ok`: the parts of an instrumentation that goes through.
-/

namespace LuaCoverage
open LuaCoverage.Text

variable {σ : Type}

namespace Workshop

/-- What becomes of a module in an instrumentation without errors. -/
inductive Handled (w : Workshop σ) (path : String) (p : Progress σ) : Progress σ → Prop
  | skipped (kind : DiagnosticKind) (message : String) :
    Handled w path p
      (Progress.skip { p with host := (w.host.resolve path p.host).state } kind path message)
  | taken {source text : String} {a : Analysis} :
    (w.host.resolve path p.host).answer = .ok source →
    w.analyzer.analyze (Utf8.ofString source) path = .ok a →
    w.instrumenter.instrument a = .ok text →
    (w.host.override path text (w.host.resolve path p.host).state).answer = .ok () →
    Handled w path p
      (Progress.add
        { p with host := (w.host.override path text (w.host.resolve path p.host).state).state }
        path a.map)

variable {w : Workshop σ} {path : String} {p p' : Progress σ}

theorem handled_of_one (h : w.one path p = (none, p')) : Handled w path p p' := by
  have hskip : ∀ kind message,
      (none, Progress.skip { p with host := (w.host.resolve path p.host).state } kind path message)
        = ((none, p') : Option EngineError × Progress σ) → Handled w path p p' := by
    rintro kind message ⟨⟩
    exact .skipped kind message
  unfold one at h
  cases hsource : (w.host.resolve path p.host).answer with
  | error f =>
    simp only [hsource] at h
    split at h
    · exact hskip _ _ h
    · cases h
  | ok source =>
    simp only [hsource] at h
    unfold process at h
    cases hanalysis : w.analyzer.analyze (Utf8.ofString source) path with
    | error e =>
      simp only [hanalysis] at h
      exact hskip _ _ h
    | ok a =>
      cases htext : w.instrumenter.instrument a with
      | error e =>
        simp only [hanalysis, htext] at h
        exact hskip _ _ h
      | ok text =>
        simp only [hanalysis, htext, override] at h
        split at h
        · next hoverride =>
          cases h
          exact .taken hsource hanalysis htext hoverride
        · cases h

/-- A property of the modules handled so far and of the instrumentation. -/
theorem all_keeps {P : List String → Progress σ → Prop} {paths : List String}
    (hnodup : paths.Nodup)
    (step : ∀ front path p p', path ∈ paths → path ∉ front → P front p →
      Handled w path p p' → P (front ++ [path]) p')
    (hp : P [] p) (h : w.all paths p = (none, p')) : P paths p' := by
  -- The modules are cut into those that were handled and those that are left.
  suffices hrest : ∀ (rest front : List String) (p : Progress σ), front ++ rest = paths →
      P front p → w.all rest p = (none, p') → P paths p' from hrest paths [] p rfl hp h
  intro rest
  induction rest with
  | nil =>
    intro front p hcut hp h
    cases h
    rw [List.append_nil] at hcut
    exact hcut ▸ hp
  | cons path rest ih =>
    intro front p hcut hp h
    simp only [all] at h
    split at h
    · next next hone =>
      have hnew : path ∉ front := by
        intro hmem
        rw [← hcut] at hnodup
        exact (List.nodup_append.1 hnodup).2.2 path hmem path (by simp) rfl
      have hmem : path ∈ paths := hcut ▸ by simp
      refine ih (front ++ [path]) next (by simpa using hcut) ?_ h
      exact step front path p next hmem hnew hp (handled_of_one hone)
    · cases h

end Workshop

/-! ## Selecting -/

namespace Workshop
variable {h : Host σ} {s : Selection} {roots found paths : List String} {host : σ}

/-- What listing modules keeps is kept by a selection. -/
theorem select_keeps {P : σ → Prop} (step : ∀ scope t, P t → P (h.listModules scope t).state)
    (hp : P host) : P (select h s roots found host).state := by
  induction roots generalizing found host with
  | nil => exact hp
  | cons root rest ih =>
    simp only [select]
    split
    · exact ih (step root host hp)
    · exact step root host hp

theorem nodup_select (hfound : found.Nodup)
    (hpaths : (select h s roots found host).answer = .ok paths) : paths.Nodup := by
  induction roots generalizing found host with
  | nil =>
    cases hpaths
    exact hfound
  | cons root rest ih =>
    simp only [select] at hpaths
    split at hpaths
    · exact ih (nodup_eraseDups _) hpaths
    · cases hpaths

end Workshop

/-! ## Engines -/

/-- The parts of an instrumentation that goes through: the probe is installed under a name, the
modules of the selection are listed, and none of them has an error. -/
structure Engine.Finished (h : Host σ) (s : Selection) (e : Engine) (host : σ) (name : ProbeName)
    (paths : List String) (p : Progress σ) : Prop where
  named : ProbeName.ofString? e.options.probeName = .ok name
  installed : (h.installProbe name.text ⟨e.sessions⟩ host).answer = .ok ()
  listed : (Workshop.select h s s.included []
    (h.installProbe name.text ⟨e.sessions⟩ host).state).answer = .ok paths
  worked : Workshop.all ⟨h, ⟨e.parser, e.options.language, e.options.idBase⟩, ⟨e.parser, name, true⟩⟩ paths
    ⟨(Workshop.select h s s.included []
      (h.installProbe name.text ⟨e.sessions⟩ host).state).state, Store.empty, [], [], []⟩
    = (none, p)

namespace Engine
variable {h : Host σ} {e : Engine} {included excluded : Option (List String)} {host : σ}

theorem finished_of_ok (hidle : e.session = none)
    (hok : (e.instrument h included excluded host).error? = none) :
    ∃ name paths p, Finished h (e.selection included excluded) e host name paths p
      ∧ e.instrument h included excluded host = ⟨none, e.begun p, p.host⟩ := by
  simp only [instrument, hidle] at hok ⊢
  split at hok
  · cases hok
  · next name hname =>
    simp only [start, Workshop.run] at hok ⊢
    split at hok
    · cases hok
    · next hinstalled =>
      split at hok
      · next p hrun =>
        split at hrun
        · next paths hlisted =>
          exact ⟨name, paths, p, ⟨hname, hinstalled, hlisted, hrun⟩, by simp [*]⟩
        · cases hrun
      · cases hok

end Engine

end LuaCoverage
