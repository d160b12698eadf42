import LivePlayback.Codecs
import LivePlayback.Metadata

/-!
# Playback events

What a session tells its listeners.
-/

namespace LivePlayback
set_option autoImplicit false

inductive Event where
  | connected (url : String)
  | codecChanged (codecs : Codecs)
  | codecUnsupported (codecs : Codecs) (reason : String)
  | metadata (m : Metadata)
  | disconnected (reason : Option String)
  | reconnecting (delay : Duration)
  | stopped
  deriving DecidableEq

end LivePlayback
