import LuaCoverage.Engine.Session
import LuaCoverage.Report.Build
import LuaCoverage.Stats.Basic
import LuaCoverage.Stats.Flat

/-!
# Results of a session

The report, the statistics and the flat result of an engine, from its counts at the moment.

Results:
* `Engine.finalize_session`: behind a flat result that could be made there is no session.
-/

namespace LuaCoverage
namespace Engine
variable {σ : Type}

def report (e : Engine) : Except ShapeError Report := Report.build e.counts e.maps

def statistics (e : Engine) (o : StatsOptions) : Except LengthError Stats :=
  Stats.build e.counts e.maps o

/-- The flat result, behind which the session is ended. -/
def finalize (h : Host σ) (e : Engine) (host : σ) : Except LengthError (Flat × Outcome σ) := do
  let flat ← Flat.build e.counts e.maps
  .ok (flat, cleanUp h e host)

theorem finalize_session {h : Host σ} {e : Engine} {host : σ} {flat : Flat} {o : Outcome σ}
    (hf : finalize h e host = .ok (flat, o)) : o.engine.session = none := by
  unfold finalize at hf
  cases hb : Flat.build e.counts e.maps with
  | error a => simp [hb, bind, Except.bind] at hf
  | ok f =>
    simp only [hb, bind, Except.bind] at hf
    cases hf
    exact cleanUp_session h e host

end Engine
end LuaCoverage
