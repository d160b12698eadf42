import LivePlayback.Fault

/-!
# Receptions

What a connection gives when it is asked for a frame.
-/

namespace LivePlayback
set_option autoImplicit false

inductive Reception where
  | frame (f : ByteArray)
  /-- It ended in good order. -/
  | closed
  | failed (why : Fault)

end LivePlayback
