import LivePlayback.Replay

/-!
# Capture files

A capture on disk, opened anew for every connection and read in portions. Reading one takes a moment
in which others may act, but no time; giving up waiting for it does not lose it.
-/

namespace LivePlayback
set_option autoImplicit false

structure CaptureFile where
  path : String
  /-- The bytes, or why the path cannot be read. -/
  content : Except IoFault ByteArray

namespace CaptureFile

def blockSize : Nat := 8192

/-- The largest portion that is read at once. -/
def maxPortion : Nat := 2 * 1024 * 1024

/-- A replay together with the file behind it. -/
structure Reading where
  replay : Replay
  path : String
  content : Except IoFault ByteArray
  position : Nat
  /-- A portion has been read but not taken over. -/
  fetched : Bool

inductive Opening where
  | failed (why : Fault)
  /-- A pace without a period breaks the connection's owner. -/
  | crashed
  | opened (r : Reading)

/-- A directory can be opened, but not read. -/
def openable (file : CaptureFile) : Except IoFault Unit :=
  match file.content with
  | .error fault => if fault.kind = .isADirectory then .ok () else .error fault
  | .ok _ => .ok ()

def openFault (file : CaptureFile) (url : String) (cause : IoFault) : Fault :=
  .transportFrom ("cannot open capture for " ++ url) (.file file.path cause)

def openFor (file : CaptureFile) (url : String) (pacing : Option Duration) (now : Nat) : Opening :=
  match file.openable with
  | .error cause => .failed (file.openFault url cause)
  | .ok () =>
    match pacing with
    | none => .opened ⟨.ofPacer none, file.path, file.content, 0, false⟩
    | some period =>
      match Pacer.start? period.nanos now with
      | none => .crashed
      | some pacer => .opened ⟨.ofPacer (some pacer), file.path, file.content, 0, false⟩

namespace Reading

/-- A block, or more if a single frame lacks more. -/
def portionSize (lacking : Nat) : Nat :=
  if lacking < blockSize then blockSize else min lacking maxPortion

def fetch (r : Reading) (needed : Nat) : Portion × Reading :=
  let r := { r with fetched := false }
  match r.content with
  | .error cause => (.failed (.transportFrom "capture read failed" (.file r.path cause)), r)
  | .ok bytes =>
    let stop := min bytes.size (r.position + portionSize (needed - r.replay.buffer.size))
    if stop ≤ r.position then (.endOfFile, r)
    else (.bytes (bytes.extract r.position stop), { r with position := stop })

/-- What asking for a frame comes to at one instant. -/
inductive Attempt where
  | done (r : Reception)
  | waitSlot (slot : Nat)
  | busy

def settle (r : Reading) : Replay.Step × Replay → Attempt × Reading
  | (.done reception, replay) => (.done reception, { r with replay })
  | (.waitSlot slot, replay) => (.waitSlot slot, { r with replay })
  | (.wantsPortion _, replay) => (.busy, { r with replay, fetched := true })

/-- Asks for a frame. A portion that was read in the meantime is taken over first. -/
def poll (r : Reading) (now : Nat) : Attempt × Reading :=
  match r.replay.poll now with
  | (.wantsPortion needed, replay) =>
    if r.fetched then
      let (portion, r) := { r with replay }.fetch needed
      r.settle (replay.supply portion)
    else r.settle (.wantsPortion needed, replay)
  | step => r.settle step

/-- How often a portion may still have to be read, the end of the file included. -/
def portionsLeft (r : Reading) : Nat :=
  match r.content with
  | .ok bytes => (bytes.size - r.position) / blockSize + 2
  | .error _ => 1

def close (r : Reading) : Reading := { r with replay := r.replay.close }

end Reading

end CaptureFile

end LivePlayback
