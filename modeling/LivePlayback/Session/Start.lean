import LivePlayback.Broadcast
import LivePlayback.Session.Supervisor

/-!
# Starting a session

A session starts with a valid configuration and enough memory for the events that it is to keep.
-/

namespace LivePlayback
set_option autoImplicit false

/-- The outcome of a start. -/
inductive Start (σ : Type) where
  | failed (why : Fault)
  /-- There is no memory for so many events. -/
  | broken
  | running (s : Supervisor σ)

namespace Start

variable {σ : Type}

/-- Starts without a look at the configuration. -/
def launch (url : String) (config : Config) (surface : σ) (tracing : Bool) : Start σ :=
  if Broadcast.available config.eventCapacity.toNat then
    .running (.spawn url config surface tracing)
  else .broken

def ofConfig (url : String) (config : Config) (surface : σ) (tracing : Bool) : Start σ :=
  match config.validate with
  | .error why => .failed why
  | .ok config => launch url config surface tracing

/-- What runs is a fresh session. -/
theorem eq_spawn_of_running {url : String} {config : Config} {surface : σ} {tracing : Bool}
    {s : Supervisor σ} (h : ofConfig url config surface tracing = .running s) :
    ∃ valid, s = .spawn url valid surface tracing := by
  unfold ofConfig launch at h
  split at h
  · cases h
  · rename_i valid _
    split at h
    · cases h
      exact ⟨valid, rfl⟩
    · cases h

end Start

end LivePlayback
