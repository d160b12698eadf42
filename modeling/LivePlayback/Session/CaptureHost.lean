import LivePlayback.CaptureFile
import LivePlayback.Session.Drive

/-!
# Sessions on captures

A host that opens the same capture file for every connection and replays it from its beginning.
-/

namespace LivePlayback
set_option autoImplicit false

structure CaptureHost where
  file : CaptureFile
  pacing : Option Duration
  /-- The file is being opened. -/
  opening : Bool
  reading : Option CaptureFile.Reading

namespace CaptureHost

def create (file : CaptureFile) (pacing : Option Duration) : CaptureHost :=
  ⟨file, pacing, false, none⟩

/-- Opening takes a moment in which others may act. -/
def connect (h : CaptureHost) (now : Nat) (url : String) : Readiness Connection × CaptureHost :=
  if !h.opening then (.soon, { h with opening := true })
  else
    let h := { h with opening := false }
    match h.file.openFor url h.pacing now with
    | .failed why => (.ready (.failed why), h)
    | .crashed => (.ready .crashed, h)
    | .opened r => (.ready .opened, { h with reading := some r })

/-- A slot that is taken costs something, and so does a portion of the file. -/
def receive (h : CaptureHost) (now : Nat) : HostReply CaptureHost Reception :=
  match h.reading with
  | none => ⟨.later, h, false, 0⟩
  | some r =>
    let portion := if r.fetched then 1 else 0
    let slot := if r.replay.pacer.isSome ∧ ¬ r.replay.paced then 1 else 0
    let (attempt, r) := r.poll now
    let h := { h with reading := some r }
    match attempt with
    | .done reception => ⟨.ready reception, h, false, portion + slot⟩
    | .waitSlot _ => ⟨.later, h, false, 0⟩
    | .busy => ⟨.soon, h, false, portion + slot⟩

def host : Host CaptureHost where
  connect h now url :=
    let (answer, h) := h.connect now url
    ⟨answer, h, false, 1⟩
  receive := receive
  close h _ := ⟨.ready (), { h with reading := h.reading.map CaptureFile.Reading.close }, false, 0⟩
  abandon h := { h with opening := false }
  drop h := { h with reading := none }

/-- When a paced replay goes on. -/
def wakeAt (h : CaptureHost) (now : Nat) : Option Nat :=
  h.reading.bind fun r =>
    match r.replay.poll now with
    | (.waitSlot slot, _) => some slot
    | _ => none

/-- No session takes more turns than this between two waits. -/
def turns (h : CaptureHost) : Nat := 4 * (h.file.content.toOption.map ByteArray.size).getD 0

/-- How often one connection can have to wait for the file. -/
def waits (h : CaptureHost) : Nat :=
  (h.file.content.toOption.map ByteArray.size).getD 0 / CaptureFile.blockSize + 4

end CaptureHost

end LivePlayback
