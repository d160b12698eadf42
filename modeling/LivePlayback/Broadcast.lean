/-!
# Broadcasts

Every listener hears each item that is sent after it joined, as long as the item is still among the
newest ones that are kept. A listener that fell behind is told how many items it missed and goes on
with the oldest one kept.
-/

namespace LivePlayback.Broadcast
set_option autoImplicit false

/-- What a listener hears. -/
inductive Heard (α : Type) where
  | item (a : α)
  | missed (n : Nat)

/-- How many items are kept: the least power of two that is large enough. -/
def kept (capacity : Nat) : Nat := if capacity ≤ 1 then 1 else Nat.pow 2 ((capacity - 1).log2 + 1)

/-- Memory that one item takes at least, in bytes. -/
def itemSize : Nat := 64

/-- Half of the address space, which no single buffer exceeds. -/
def maxMemory : Nat := 0x7FFFFFFFFFFFFFFF

/-- Whether a buffer for so many items can be made. -/
def available (capacity : Nat) : Bool := kept capacity * itemSize ≤ maxMemory

/-- What a listener hears that has passed `position` of the items sent so far. -/
def hear {α : Type} (capacity : Nat) (sent : List α) (position : Nat) : List (Heard α) :=
  let missed := sent.length - kept capacity - position
  if missed = 0 then (sent.drop position).map .item
  else .missed missed :: (sent.drop (position + missed)).map .item

theorem le_kept (capacity : Nat) : capacity ≤ kept capacity := by
  unfold kept
  split
  · assumption
  · have h : capacity - 1 < Nat.pow 2 ((capacity - 1).log2 + 1) := Nat.lt_log2_self
    omega

/-- A listener that keeps up misses nothing. -/
theorem hear_of_le {α : Type} {capacity : Nat} {sent : List α} {position : Nat}
    (h : sent.length ≤ position + kept capacity) :
    hear capacity sent position = (sent.drop position).map .item := by
  have hm : sent.length - kept capacity - position = 0 := by omega
  simp [hear, hm]

end LivePlayback.Broadcast
