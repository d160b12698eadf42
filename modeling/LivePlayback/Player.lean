import LivePlayback.Config

/-!
# Players

A player owns a surface between sessions and lends it to one session at a time. A session that
breaks down takes the surface with it. Sessions are known by handles `ι`, surfaces by values `σ`.
-/

namespace LivePlayback
set_option autoImplicit false

structure Player (σ ι : Type) where
  config : Config
  /-- None while a session holds it, and after it was lost. -/
  surface : Option σ
  session : Option ι

namespace Player

variable {σ ι : Type}

def create (config : Config) (surface : σ) : Except Fault (Player σ ι) :=
  config.validate.map fun config => ⟨config, some surface, none⟩

def lostFault : Fault := .surfaceUnavailable "surface was lost by a previous session"

/-- The session is over and has given the surface back, unless it broke down. -/
def reclaim (p : Player σ ι) (returned : Option σ) : Except Fault Unit × Player σ ι :=
  match p.session, returned with
  | none, _ => (.ok (), p)
  | some _, some surface => (.ok (), { p with surface := some surface, session := none })
  | some _, none => (.error .surfaceLost, { p with session := none })

/-- Takes the surface for a new session. -/
def lend (p : Player σ ι) : Except Fault (σ × Player σ ι) :=
  match p.surface with
  | some surface => .ok (surface, { p with surface := none })
  | none => .error lostFault

/-- Takes the surface back, if there is a session to take it from, and out again for a new one. -/
def relend (p : Player σ ι) (returned : Option σ) : Except Fault σ × Player σ ι :=
  match p.reclaim returned with
  | (.error why, p) => (.error why, p)
  | (.ok (), p) =>
    match p.lend with
    | .error why => (.error why, p)
    | .ok (surface, p) => (.ok surface, p)

def play (p : Player σ ι) (session : ι) : Player σ ι := { p with session := some session }

end Player

end LivePlayback
