/-!
# Scripts

A rehearsal runs a list of steps on a bench and reports after each of them what can be seen.
-/

namespace LivePlayback.Rehearsal
set_option autoImplicit false

/-- The reports of steps that are taken one after the other. -/
def play {σ α β : Type} (step : σ → α → β × σ) : σ → List α → List β
  | _, [] => []
  | s, a :: rest =>
    let (report, s) := step s a
    report :: play step s rest

end LivePlayback.Rehearsal
