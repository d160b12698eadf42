import LivePlayback.Proofs.Capture.Records
import LivePlayback.Replay

/-!
# Requests that are given up

A replay is asked for one frame after the other. A request may be given up wherever it waits, and a
read may bring any part of what is left. None of this shows in the results.
-/

namespace LivePlayback
set_option autoImplicit false

open Capture (reply replies left encode)

theorem Replay.eq_of_takeSlot_eq_ok {r r' : Replay} {now : Nat} (h : r.takeSlot now = .ok r') :
    ∃ pacer, r' = { r with pacer, paced := true } := by
  unfold takeSlot at h
  split at h
  · rename_i hpaced
    cases h
    cases r with
    | mk pacer =>
      cases hpaced
      exact ⟨pacer, rfl⟩
  · split at h
    · cases h
      exact ⟨_, rfl⟩
    · split at h <;> cases h
      exact ⟨_, rfl⟩

/-- What a read brings; nothing at all is taken for the end of the file. -/
def Portion.ofRead (b : ByteArray) : Portion := if b.isEmpty then .endOfFile else .bytes b

/-- A replay in use. -/
structure Showing where
  replay : Replay
  /-- What was not read yet. -/
  unread : ByteArray
  /-- The request under way waits for a read, until the buffer holds so many bytes. -/
  awaited : Option Nat
  /-- What requests came to, oldest first. -/
  results : List Reception

namespace Showing

inductive Move where
  /-- The request under way is looked at, or a new one is made. -/
  | poll (now : Nat)
  /-- A read comes to its end, with room for so many bytes more than are needed. -/
  | read (spare count : Nat)
  /-- The request under way is given up. -/
  | giveUp

def start (pacer : Option Pacer) (file : ByteArray) : Showing := ⟨.ofPacer pacer, file, none, []⟩

def settle (s : Showing) : Replay.Step × Replay → Showing
  | (.done r, replay) => { s with replay, awaited := none, results := s.results ++ [r] }
  | (.waitSlot _, replay) => { s with replay, awaited := none }
  | (.wantsPortion needed, replay) => { s with replay, awaited := some needed }

/-- A read brings what it asks for, as far as there is room and something left. -/
def take (s : Showing) (room count : Nat) : Showing :=
  let n := min (count + 1) room
  let portion := Portion.ofRead (s.unread.extract 0 n)
  { s with unread := s.unread.extract n s.unread.size }.settle (s.replay.supply portion)

def move (s : Showing) : Move → Showing
  | .poll now => if s.awaited.isSome then s else s.settle (s.replay.poll now)
  | .read spare count =>
    match s.awaited with
    | none => s
    | some needed => s.take (needed - s.replay.buffer.size + spare) count
  | .giveUp => { s with awaited := none }

def play (s : Showing) (moves : List Move) : Showing := moves.foldl move s

theorem play_append (s : Showing) (moves moves' : List Move) :
    s.play (moves ++ moves') = (s.play moves).play moves' := List.foldl_append

/-- A read with room brings nothing only where the file ends. -/
theorem take_of_empty {s : Showing} (hu : s.unread = .empty) (room count : Nat) :
    s.take room count = s.settle (s.replay.supply .endOfFile) := by
  have hnone (i j : Nat) : s.unread.extract i j = s.unread := by
    rw [hu]
    exact ByteArray.extract_eq_empty_iff.mpr (by simp)
  have hempty : s.unread.isEmpty = true := by rw [hu]; rfl
  unfold take Portion.ofRead
  simp only [hnone, if_pos hempty]

theorem take_of_ne_empty {s : Showing} {room n count : Nat} (hu : s.unread ≠ .empty)
    (hn : min (count + 1) room = n) (hpos : 0 < n) :
    s.take room count = { s with unread := s.unread.extract n s.unread.size }.settle
      { s.replay with buffer := s.replay.buffer ++ s.unread.extract 0 n }.takeFrame := by
  have hsome : (s.unread.extract 0 n).isEmpty ≠ true := by
    intro hempty
    rw [ByteArray.isEmpty, beq_iff_eq, ByteArray.size_extract] at hempty
    exact hu (ByteArray.size_eq_zero_iff.mp (by omega))
  unfold take Portion.ofRead
  rw [hn]
  simp only [if_neg hsome]
  rfl

/-- What a showing keeps to. -/
structure Keeps (file : ByteArray) (s : Showing) : Prop where
  opened : s.replay.closed = false
  results : s.results = replies s.results.length file
  left : s.replay.buffer ++ s.unread = left s.results.length file
  awaited : ∀ needed, s.awaited = some needed → Capture.head s.replay.buffer = .short needed

namespace Keeps

variable {file : ByteArray} {s : Showing}

theorem start (pacer : Option Pacer) (file : ByteArray) : (start pacer file).Keeps file :=
  ⟨rfl, rfl, ByteArray.empty_append, nofun⟩

/-- A request that waits has room for what it reads. -/
theorem lt_awaited (h : s.Keeps file) {needed : Nat} (ha : s.awaited = some needed) :
    s.replay.buffer.size < needed :=
  Capture.size_lt_of_head_eq_short (h.awaited needed ha)

theorem giveUp (h : s.Keeps file) : ({ s with awaited := none } : Showing).Keeps file :=
  ⟨h.opened, h.results, h.left, nofun⟩

theorem done (h : s.Keeps file) {r : Reception} {replay : Replay} {u : ByteArray}
    (hc : replay.closed = false)
    (hr : reply (s.replay.buffer ++ s.unread) = (r, replay.buffer ++ u)) :
    ({ s with replay, unread := u, awaited := none, results := s.results ++ [r] } : Showing).Keeps
      file := by
  rw [h.left] at hr
  refine ⟨hc, ?_, ?_, nofun⟩
  · rw [List.length_append, List.length_singleton, Capture.replies_succ, hr, ← h.results]
  · rw [List.length_append, List.length_singleton, Capture.left_succ, hr]

theorem takeFrame (h : s.Keeps file) {replay : Replay} {unread : ByteArray}
    (hc : replay.closed = false)
    (hbytes : replay.buffer ++ unread = s.replay.buffer ++ s.unread) :
    ({ s with unread }.settle replay.takeFrame).Keeps file := by
  -- What the buffer says it would still say with the rest of the file behind it.
  unfold Replay.takeFrame
  cases hhead : Capture.head replay.buffer with
  | record f rest =>
    refine h.done (u := unread) hc ?_
    rw [← hbytes, reply, Capture.head_append_of_record hhead]
  | oversized n =>
    refine h.done (u := unread) hc ?_
    rw [← hbytes, reply, Capture.head_append_of_oversized hhead]
  | short needed =>
    refine ⟨hc, h.results, hbytes.trans h.left, ?_⟩
    rintro _ ⟨⟩
    exact hhead

theorem poll (h : s.Keeps file) (now : Nat) : (s.settle (s.replay.poll now)).Keeps file := by
  unfold Replay.poll
  rw [h.opened]
  cases hslot : s.replay.takeSlot now with
  | error slot => exact h.giveUp
  | ok replay =>
    obtain ⟨pacer, rfl⟩ := Replay.eq_of_takeSlot_eq_ok hslot
    exact h.takeFrame h.opened rfl

theorem endOfFile (h : s.Keeps file) {needed : Nat} (ha : s.awaited = some needed)
    (hunread : s.unread = .empty) : (s.settle (s.replay.supply .endOfFile)).Keeps file := by
  -- The buffer was too short to say more, and nothing follows it.
  have hreply : reply (s.replay.buffer ++ s.unread) =
      (if s.replay.buffer.isEmpty then .closed
        else .failed (Capture.truncatedFault s.replay.buffer.size),
        s.replay.buffer ++ s.unread) := by
    rw [hunread, ByteArray.append_empty, reply, h.awaited needed ha]
  unfold Replay.supply
  simp only
  split
  · rename_i hempty
    rw [if_pos hempty] at hreply
    exact h.done (u := s.unread) h.opened hreply
  · rename_i hempty
    rw [if_neg hempty] at hreply
    exact h.done (u := s.unread) h.opened hreply

theorem take (h : s.Keeps file) {needed room : Nat} (ha : s.awaited = some needed)
    (hroom : 0 < room) (count : Nat) : (s.take room count).Keeps file := by
  by_cases hu : s.unread = .empty
  · rw [take_of_empty hu]
    exact h.endOfFile ha hu
  · rw [take_of_ne_empty hu rfl (by omega)]
    refine h.takeFrame h.opened ?_
    rw [ByteArray.append_assoc, ByteArray.extract_append_extract, Nat.zero_min,
      ByteArray.extract_zero_max_size]

theorem move (h : s.Keeps file) (m : Move) : (s.move m).Keeps file := by
  cases m with
  | poll now =>
    rw [Showing.move]
    split
    · exact h
    · exact h.poll now
  | read spare count =>
    rw [Showing.move]
    cases ha : s.awaited with
    | none => exact h
    | some needed =>
      have hlt := h.lt_awaited ha
      exact h.take ha (by omega) count
  | giveUp => exact h.giveUp

theorem play (h : s.Keeps file) (moves : List Move) : (s.play moves).Keeps file := by
  induction moves generalizing s with
  | nil => exact h
  | cons m moves ih => exact ih (h.move m)

end Keeps

/-! ## Requests that are not given up -/

/-- A request that nothing holds back. Its first read brings all that is left of the file. -/
def request (size : Nat) : List Move := [.poll 0, .read size size, .read 0 0]

def requests (n size : Nat) : List Move := (List.replicate n (request size)).flatten

/-- A request that nothing holds back, after so many that were answered, is answered or waits. -/
structure Asks (size n : Nat) (s : Showing) : Prop where
  pacer : s.replay.pacer = none
  unread : s.unread.size ≤ size
  answered : s.awaited = none → s.results.length = n + 1
  waits : s.awaited ≠ none → s.results.length = n

section Requests

variable {file : ByteArray} {s : Showing} {size n : Nat}

theorem unread_settle (s : Showing) (step : Replay.Step × Replay) :
    (s.settle step).unread = s.unread := by
  unfold settle
  split <;> rfl

theorem move_read_of_none (ha : s.awaited = none) (spare count : Nat) :
    s.move (.read spare count) = s := by
  rw [move, ha]

namespace Asks

theorem done {replay : Replay} (hp : replay.pacer = none) (hu : s.unread.size ≤ size)
    (hr : s.results.length = n) (r : Reception) :
    Asks size n { s with replay, awaited := none, results := s.results ++ [r] } := by
  refine ⟨hp, hu, fun _ => ?_, fun ha => absurd rfl ha⟩
  rw [List.length_append, hr]
  rfl

theorem takeFrame {replay : Replay} (hp : replay.pacer = none) (hu : s.unread.size ≤ size)
    (hr : s.results.length = n) : Asks size n (s.settle replay.takeFrame) := by
  unfold Replay.takeFrame
  split
  · refine done ?_ hu hr _
    exact hp
  · exact done hp hu hr _
  · exact ⟨hp, hu, nofun, fun _ => hr⟩

theorem poll (h : s.Keeps file) (hp : s.replay.pacer = none) (hu : s.unread.size ≤ size)
    (ha : s.awaited = none) (now : Nat) :
    Asks size s.results.length (s.move (.poll now)) := by
  have hslot : s.replay.takeSlot now = .ok { s.replay with paced := true } := by
    cases hs : s.replay with
    | mk pacer paced =>
      rw [hs] at hp
      cases hp
      cases paced <;> rfl
  have htake : Asks size s.results.length
      (s.settle { s.replay with paced := true }.takeFrame) := takeFrame hp hu rfl
  rw [Showing.move, ha, Replay.poll, h.opened, hslot]
  exact htake

/-- A request that waits is answered once the file has come to its end. -/
theorem read_of_empty (h : Asks size n s) (hu : s.unread = .empty) (spare count : Nat) :
    Asks size n (s.move (.read spare count)) ∧
      (s.move (.read spare count)).awaited = none := by
  cases ha : s.awaited with
  | none =>
    rw [move_read_of_none ha]
    exact ⟨h, ha⟩
  | some needed =>
    have hr : s.results.length = n := h.waits (by rw [ha]; nofun)
    simp only [Showing.move, ha, take_of_empty hu, Replay.supply]
    split <;> exact ⟨done h.pacer h.unread hr _, rfl⟩

/-- The first read brings all there is. -/
theorem read_all (h : Asks size n s) (hs : s.Keeps file) :
    Asks size n (s.move (.read size size)) ∧
      ((s.move (.read size size)).awaited = none ∨
        (s.move (.read size size)).unread = .empty) := by
  cases ha : s.awaited with
  | none =>
    rw [move_read_of_none ha]
    exact ⟨h, .inl ha⟩
  | some needed =>
    by_cases hu : s.unread = .empty
    · obtain ⟨hasks, hanswered⟩ := h.read_of_empty hu size size
      exact ⟨hasks, .inl hanswered⟩
    · have hlt := hs.lt_awaited ha
      have hunread := h.unread
      have hn : min (size + 1) (needed - s.replay.buffer.size + size) = size + 1 := by omega
      have hrest : s.unread.extract (size + 1) s.unread.size = .empty :=
        ByteArray.extract_eq_empty_iff.mpr (by omega)
      simp only [move, ha, take_of_ne_empty hu hn (Nat.succ_pos size), hrest]
      refine ⟨takeFrame h.pacer (Nat.zero_le _) (h.waits (by rw [ha]; nofun)), .inr ?_⟩
      exact unread_settle _ _

end Asks

theorem play_request (h : s.Keeps file) (hp : s.replay.pacer = none) (ha : s.awaited = none)
    (hu : s.unread.size ≤ size) :
    Asks size s.results.length (s.play (request size)) ∧
      (s.play (request size)).awaited = none := by
  have hpolled : Asks size s.results.length (s.move (.poll 0)) := .poll h hp hu ha 0
  obtain ⟨hread, hanswered⟩ := hpolled.read_all (h.move (.poll 0))
  have hplay : s.play (request size) =
      ((s.move (.poll 0)).move (.read size size)).move (.read 0 0) := rfl
  rw [hplay]
  generalize (s.move (.poll 0)).move (.read size size) = s₁ at hread hanswered
  rcases hanswered with hanswered | hempty
  · rw [move_read_of_none hanswered]
    exact ⟨hread, hanswered⟩
  · exact hread.read_of_empty hempty 0 0

theorem play_requests (h : s.Keeps file) (hp : s.replay.pacer = none) (ha : s.awaited = none)
    (hu : s.unread.size ≤ size) (n : Nat) :
    (s.play (requests n size)).results.length = s.results.length + n := by
  induction n generalizing s with
  | zero => rfl
  | succ n ih =>
    obtain ⟨hasks, ha'⟩ := play_request h hp ha hu
    have hrest := ih (h.play (request size)) hasks.pacer ha' hasks.unread
    have hplay : s.play (requests (n + 1) size) =
        (s.play (request size)).play (requests n size) := by
      rw [requests, List.replicate_succ, List.flatten_cons, play_append]
      rfl
    rw [hplay, hrest, hasks.answered ha']
    omega

end Requests

end Showing

/-- A replay does not show how its file was read, nor which requests were given up, nor where: its
results are those of requests that nothing held back, which the file alone tells. A read always has
room, and the frames that came, with what is in the buffer and what was not read yet, are the
file. -/
theorem replay_survives_interruption (pacer : Option Pacer) (file : ByteArray)
    (moves : List Showing.Move) :
    let s := (Showing.start pacer file).play moves
    s.results =
        ((Showing.start none file).play (Showing.requests s.results.length file.size)).results ∧
      s.results = replies s.results.length file ∧
      (∀ needed, s.awaited = some needed → s.replay.buffer.size < needed) ∧
      file = encode (s.results.filterMap Reception.frame?) ++ (s.replay.buffer ++ s.unread) := by
  intro s
  have hs : s.Keeps file := (Showing.Keeps.start pacer file).play moves
  have hstart := Showing.Keeps.start none file
  have hlength := Showing.play_requests hstart rfl rfl (Nat.le_refl file.size) s.results.length
  have hwhole := (hstart.play (Showing.requests s.results.length file.size)).results
  refine ⟨?_, hs.results, fun needed ha => hs.lt_awaited ha, ?_⟩
  · rw [hwhole, hlength]
    simpa [Showing.start] using hs.results
  · rw [hs.left, hs.results, Capture.length_replies]
    exact Capture.eq_encode_append_left _ file

/-- The first request is given up before it has read anything, and again with half of a length read;
the one after it is given up while it waits for its slot. -/
theorem replay_survives_interruption_of_two_frames :
    let file := encode ["ab".toUTF8, "c".toUTF8]
    let moves : List Showing.Move :=
      [.poll 0, .giveUp, .poll 0, .read 0 1, .giveUp, .poll 0, .read 0 9, .read 8 8,
        .poll 0, .giveUp, .poll (40 * nanosPerMilli)]
    let s := (Showing.start (some ⟨40 * nanosPerMilli, 0⟩) file).play moves
    s.results = [.frame "ab".toUTF8, .frame "c".toUTF8] ∧
      ((Showing.start none file).play (Showing.requests 2 file.size)).results = s.results := by
  intro file moves s
  obtain ⟨hwhole, hreplies, _⟩ :=
    replay_survives_interruption (some ⟨40 * nanosPerMilli, 0⟩) file moves
  have hlength : s.results.length = 2 := by decide +kernel
  have hleads : Capture.Leads file ["ab".toUTF8, "c".toUTF8] .empty :=
    ⟨ByteArray.append_empty.symm, by decide +kernel⟩
  rw [hlength] at hwhole hreplies
  rw [Capture.replies_of_leads hleads nofun (Nat.le_refl 2)] at hreplies
  exact ⟨hreplies, hwhole.symm⟩

end LivePlayback
