import LivePlayback.Codecs
import LivePlayback.Metadata

/-!
# Frames

The first byte of a frame says how the rest is read: codec lists and metadata are text behind
their tag, and everything else is a media chunk that keeps its tag.
-/

namespace LivePlayback
set_option autoImplicit false

inductive FrameTag where
  | media | metadata | codec
  deriving DecidableEq, Repr

namespace FrameTag

def ofByte (b : UInt8) : FrameTag :=
  if b = 0x08 then .metadata else if b = 0x09 then .codec else .media

def ofFrame? (frame : ByteArray) : Option FrameTag := frame[0]?.map ofByte

/-- The byte written in front of a payload. -/
def byte : FrameTag → UInt8
  | .media => 0x00
  | .metadata => 0x08
  | .codec => 0x09

def build (tag : FrameTag) (payload : ByteArray) : ByteArray := ⟨#[tag.byte]⟩ ++ payload

theorem ofByte_byte (tag : FrameTag) : ofByte tag.byte = tag := by cases tag <;> rfl

end FrameTag

/-- What a frame carries. -/
inductive Content where
  | codecs (c : Codecs)
  | metadata (m : Metadata)
  | media (chunk : ByteArray)

namespace Content

def ofFrame (frame : ByteArray) : Except Fault Content :=
  let payload := frame.extract 1 frame.size
  match FrameTag.ofFrame? frame with
  | none => .error (.decode "frame" "empty frame has no tag byte")
  | some .media => .ok (.media frame)
  | some .metadata => (Metadata.decode payload).map .metadata
  | some .codec =>
    match Text.decode payload with
    | .error f => .error (.decode "codec frame" f.message)
    | .ok text => (Codecs.ofText text).map .codecs

end Content

end LivePlayback
