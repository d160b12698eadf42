import LivePlayback.Capture
import LivePlayback.Pacer
import LivePlayback.Reception

/-!
# Replaying a capture

Frames are handed out one by one while the file is read in portions of any size. A slot is spent
on a frame before its first byte is asked for, and only once, however often asking is given up.
-/

namespace LivePlayback
set_option autoImplicit false

structure Replay where
  pacer : Option Pacer
  /-- A slot is already spent on the frame that is being read. -/
  paced : Bool
  /-- Bytes that were read but belong to no frame handed out yet. -/
  buffer : ByteArray
  closed : Bool

/-- The outcome of reading more of a file. -/
inductive Portion where
  | bytes (b : ByteArray)
  | endOfFile
  | failed (why : Fault)

namespace Replay

inductive Step where
  | done (r : Reception)
  | waitSlot (slot : Nat)
  /-- More of the file is needed, until the buffer holds so many bytes. -/
  | wantsPortion (needed : Nat)

def ofPacer (pacer : Option Pacer) : Replay := ⟨pacer, false, .empty, false⟩

/-- Spends a slot, unless one is spent already; or says when there will be one. -/
def takeSlot (r : Replay) (now : Nat) : Except Nat Replay :=
  if r.paced then .ok r
  else match r.pacer with
    | none => .ok { r with paced := true }
    | some p =>
      match p.take? now with
      | some p => .ok { r with pacer := some p, paced := true }
      | none => .error p.slot

/-- The next frame of the buffer. -/
def takeFrame (r : Replay) : Step × Replay :=
  match Capture.head r.buffer with
  | .record frame rest => (.done (.frame frame), { r with paced := false, buffer := rest })
  | .oversized length => (.done (.failed (Capture.oversizedFault length)), r)
  | .short needed => (.wantsPortion needed, r)

def poll (r : Replay) (now : Nat) : Step × Replay :=
  if r.closed then (.done .closed, r)
  else match r.takeSlot now with
    | .error slot => (.waitSlot slot, r)
    | .ok r => r.takeFrame

/-- Goes on with the portion that was asked for. -/
def supply (r : Replay) : Portion → Step × Replay
  | .bytes b => { r with buffer := r.buffer ++ b }.takeFrame
  | .endOfFile =>
    if r.buffer.isEmpty then (.done .closed, r)
    else (.done (.failed (Capture.truncatedFault r.buffer.size)), r)
  | .failed why => (.done (.failed why), r)

def close (r : Replay) : Replay := { r with buffer := .empty, closed := true }

theorem poll_close (r : Replay) (now : Nat) : r.close.poll now = (.done .closed, r.close) := rfl

end Replay

end LivePlayback
