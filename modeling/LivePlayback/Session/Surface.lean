import LivePlayback.AppendQueue

/-!
# Output surfaces

A surface is known by what it does when it is called. Besides its answer a call may report finished
appends and have the session stopped; a call without an answer takes the session down.
-/

namespace LivePlayback
set_option autoImplicit false

/-- A sink of this generation is done with the chunk it holds, or rejects it. -/
structure Notice where
  generation : Nat
  rejection : Option String
  deriving DecidableEq

/-- What a call leaves behind. -/
structure Aftermath (σ : Type) where
  surface : σ
  notices : List Notice
  /-- Somebody asked the session to stop during the call. -/
  stop : Bool

/-- What a call does to a surface with state `σ` and to the session that made it. -/
structure Reply (σ α : Type) extends Aftermath σ where
  /-- None when the call broke down. -/
  answer : Option α

namespace Reply

/-- A call that does nothing but answer. -/
def plain {σ α : Type} (answer : α) (surface : σ) : Reply σ α := ⟨⟨surface, [], false⟩, some answer⟩

end Reply

/-- The calls of a surface. -/
structure Surface (σ : Type) where
  supports : σ → (mimeType : String) → Reply σ Bool
  /-- Creates the sink of a generation; a fault is the reason why there is none. -/
  createSink : σ → Codecs → (generation : Nat) → Reply σ (Option Fault)
  /-- Hands a chunk to the sink of a generation; a fault is a refusal. -/
  append : σ → (generation : Nat) → ByteArray → Reply σ (Option Fault)
  /-- A release always comes to its end. -/
  release : σ → (generation : Nat) → Aftermath σ
  hidden : σ → Reply σ Bool
  /-- Where the buffered media ends, in seconds. -/
  bufferedEnd : σ → Reply σ (Option Float)
  seek : σ → Float → Reply σ Unit

end LivePlayback
