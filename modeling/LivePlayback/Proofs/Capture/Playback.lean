import LivePlayback.Proofs.Capture.Interruption
import LivePlayback.Rehearsal.Replay

/-!
# Captures that are played

A capture file that is read in blocks is a showing, so requests of a rehearsal come to what the
bytes of the capture say. None of them has to be made twice: the rounds of a request suffice for
all that it can have to wait for.
-/

namespace LivePlayback
set_option autoImplicit false

open CaptureFile (Reading)
open Capture (reply replies left encode record)

namespace CaptureFile.Reading

def Attempt.reception? : Attempt → Option Reception
  | .done r => some r
  | .waitSlot _ | .busy => none

theorem blockSize_le_portionSize (lacking : Nat) : blockSize ≤ portionSize lacking := by
  have hblock : blockSize ≤ maxPortion := by decide
  unfold portionSize
  split <;> omega

section Fetching

variable {r : Reading} {bytes : ByteArray}

theorem fetch_of_le (hc : r.content = .ok bytes) (h : bytes.size ≤ r.position) (needed : Nat) :
    r.fetch needed = (.endOfFile, { r with fetched := false }) := by
  have hstop : min bytes.size
      (r.position + portionSize (needed - r.replay.buffer.size)) ≤ r.position := by omega
  unfold fetch
  simp only [hc, if_pos hstop]

theorem fetch_of_lt (hc : r.content = .ok bytes) (h : r.position < bytes.size) {needed stop : Nat}
    (hstop : stop = min bytes.size
      (r.position + portionSize (needed - r.replay.buffer.size))) :
    r.fetch needed = (.bytes (bytes.extract r.position stop),
      { r with fetched := false, position := stop }) := by
  have hblock := blockSize_le_portionSize (needed - r.replay.buffer.size)
  have hpos : 0 < blockSize := by decide
  have hmore : ¬ stop ≤ r.position := by omega
  unfold fetch
  simp only [hc, ← hstop, if_neg hmore]

end Fetching

/-! ## Readings are showings -/

/-- A reading that is a showing of a file, with no request under way. -/
structure Shows (r : Reading) (bytes : ByteArray) (s : Showing) : Prop where
  content : r.content = .ok bytes
  replay : s.replay = r.replay
  unread : s.unread = bytes.extract r.position bytes.size
  awaited : s.awaited = none

section Showings

variable {r : Reading} {bytes : ByteArray} {s : Showing}

/-- A request that is not over is given up, to be made again. -/
theorem shows_settle (hc : r.content = .ok bytes)
    (hu : s.unread = bytes.extract r.position bytes.size) (step : Replay.Step × Replay) :
    (r.settle step).2.Shows bytes ((s.settle step).move .giveUp) ∧
      ((s.settle step).move .giveUp).results =
        s.results ++ (r.settle step).1.reception?.toList := by
  obtain ⟨step, replay⟩ := step
  cases step with
  | done x => exact ⟨⟨hc, rfl, hu, rfl⟩, rfl⟩
  | waitSlot | wantsPortion => exact ⟨⟨hc, rfl, hu, rfl⟩, (List.append_nil _).symm⟩

/-- What is fetched is what a read brings. -/
theorem exists_read {needed : Nat} (hc : r.content = .ok bytes)
    (hu : s.unread = bytes.extract r.position bytes.size) (hr : s.replay = r.replay)
    (ha : s.awaited = some needed) :
    ∃ spare count u, s.move (.read spare count) =
        ({ s with unread := u } : Showing).settle (r.replay.supply (r.fetch needed).1) ∧
      u = bytes.extract (r.fetch needed).2.position bytes.size ∧
      (r.fetch needed).2.content = .ok bytes := by
  have hblock := blockSize_le_portionSize (needed - r.replay.buffer.size)
  have hpos : 0 < blockSize := by decide
  generalize hp : portionSize (needed - r.replay.buffer.size) = p at hblock
  have hsize : s.unread.size = bytes.size - r.position := by
    rw [hu, ByteArray.size_extract, Nat.min_self]
  refine ⟨p, p - 1, ?_⟩
  rw [Showing.move, ha]
  by_cases hend : bytes.size ≤ r.position
  · have hempty : s.unread = .empty := ByteArray.size_eq_zero_iff.mp (by omega)
    rw [fetch_of_le hc hend]
    refine ⟨s.unread, ?_, hu, hc⟩
    rw [← hr]
    exact Showing.take_of_empty hempty _ _
  · have hne : s.unread ≠ .empty := fun hempty => by
      rw [hempty, ByteArray.size_empty] at hsize
      omega
    rw [fetch_of_lt hc (Nat.lt_of_not_le hend) rfl, hp]
    generalize hstop : min bytes.size (r.position + p) = stop
    have hbrought : s.unread.extract 0 p = bytes.extract r.position stop := by
      rw [hu, ByteArray.extract_extract, Nat.add_zero, Nat.min_comm, hstop]
    have hrest : s.unread.extract p s.unread.size = bytes.extract stop bytes.size := by
      rw [hsize, hu, ByteArray.extract_extract, Nat.add_sub_cancel' (by omega), Nat.min_self]
      exact ByteArray.extract_eq_extract_left.mpr (by omega)
    have hroom : min (p - 1 + 1) (needed - s.replay.buffer.size + p) = p := by omega
    refine ⟨bytes.extract stop bytes.size, ?_, rfl, hc⟩
    rw [← hr, ← hbrought, ← hrest]
    exact Showing.take_of_ne_empty hne hroom (by omega)

theorem Shows.poll (h : r.Shows bytes s) (now : Nat) :
    ∃ moves, (r.poll now).2.Shows bytes (s.play moves) ∧
      (s.play moves).results = s.results ++ (r.poll now).1.reception?.toList := by
  have hpoll : s.move (.poll now) = s.settle (r.replay.poll now) := by
    rw [Showing.move, h.awaited, h.replay]
    rfl
  have hpolled : (r.settle (r.replay.poll now)).2.Shows bytes (s.play [.poll now, .giveUp]) ∧
      (s.play [.poll now, .giveUp]).results =
        s.results ++ (r.settle (r.replay.poll now)).1.reception?.toList := by
    have hplay : s.play [.poll now, .giveUp] = (s.move (.poll now)).move .giveUp := rfl
    rw [hplay, hpoll]
    exact shows_settle h.content h.unread _
  unfold Reading.poll
  cases hstep : r.replay.poll now with
  | mk step replay =>
    rw [hstep] at hpoll hpolled
    cases step with
    | done | waitSlot => exact ⟨_, hpolled⟩
    | wantsPortion needed =>
      simp only
      split
      · obtain ⟨spare, count, u, hread, hu, hc⟩ :=
          exists_read (r := { r with replay }) (s := s.settle (.wantsPortion needed, replay))
            h.content h.unread rfl rfl
        have hplay : s.play [.poll now, .read spare count, .giveUp] =
            ((s.move (.poll now)).move (.read spare count)).move .giveUp := rfl
        refine ⟨[.poll now, .read spare count, .giveUp], ?_⟩
        rw [hplay, hpoll, hread]
        exact shows_settle hc hu _
      -- The read has only begun, so there is nothing to take over.
      · exact ⟨_, hpolled⟩

end Showings

/-! ## Rounds -/

/-- How often a request with a slot may still have to be looked at. -/
def rounds (r : Reading) (bytes : ByteArray) : Nat :=
  (if r.fetched then 0 else 1) + (bytes.size - r.position + (blockSize - 1)) / blockSize + 1

section Rounds

variable {r : Reading} {bytes : ByteArray} {now : Nat}

theorem rounds_le_portionsLeft (hc : r.content = .ok bytes) :
    r.rounds bytes ≤ r.portionsLeft + 1 := by
  unfold rounds portionsLeft blockSize
  rw [hc]
  simp only
  split <;> omega

theorem takeFrame_cases (replay : Replay) :
    (∃ x replay', replay.takeFrame = (.done x, replay')) ∨
      ∃ needed, replay.takeFrame = (.wantsPortion needed, replay) := by
  unfold Replay.takeFrame
  split
  · exact .inl ⟨_, _, rfl⟩
  · exact .inl ⟨_, _, rfl⟩
  · exact .inr ⟨_, rfl⟩

theorem poll_of_closed (h : r.replay.closed = true) (now : Nat) :
    r.poll now = (.done .closed, r) := by
  unfold poll Replay.poll
  rw [h]
  rfl

/-- A request with a slot that was looked at in vain is nearer to its end. -/
structure Advances (bytes : ByteArray) (r r' : Reading) : Prop where
  content : r'.content = .ok bytes
  paced : r'.replay.paced = true
  rounds : r'.rounds bytes < r.rounds bytes

theorem settle_fetch (hc : r.content = .ok bytes) (hf : r.fetched = true)
    (hp : r.replay.paced = true) (needed : Nat) :
    (∃ x, ((r.fetch needed).2.settle (r.replay.supply (r.fetch needed).1)).1 = .done x) ∨
      ∃ r', (r.fetch needed).2.settle (r.replay.supply (r.fetch needed).1) = (.busy, r') ∧
        Advances bytes r r' := by
  by_cases hend : bytes.size ≤ r.position
  · rw [fetch_of_le hc hend]
    unfold Replay.supply
    simp only
    split <;> exact .inl ⟨_, rfl⟩
  · have hblock := blockSize_le_portionSize (needed - r.replay.buffer.size)
    rw [fetch_of_lt hc (Nat.lt_of_not_le hend) rfl]
    generalize hstop : min bytes.size
      (r.position + portionSize (needed - r.replay.buffer.size)) = stop
    simp only [Replay.supply]
    rcases takeFrame_cases { r.replay with
      buffer := r.replay.buffer ++ bytes.extract r.position stop } with
      ⟨x, replay', htake⟩ | ⟨lacking, htake⟩
    · rw [htake]
      exact .inl ⟨x, rfl⟩
    · rw [htake]
      refine .inr ⟨_, rfl, hc, hp, ?_⟩
      unfold blockSize at hblock
      simp only [rounds, blockSize, hf]
      omega

/-- Once there is a slot, a request is answered, or some of the file is read for it. -/
theorem poll_of_slot (hc : r.content = .ok bytes) {replay : Replay}
    (hs : r.replay.takeSlot now = .ok replay) :
    (∃ x, (r.poll now).1 = .done x) ∨
      ∃ r', r.poll now = (.busy, r') ∧ Advances bytes r r' := by
  obtain ⟨pacer, rfl⟩ := Replay.eq_of_takeSlot_eq_ok hs
  cases hclosed : r.replay.closed with
  | true =>
    rw [poll_of_closed hclosed]
    exact .inl ⟨_, rfl⟩
  | false =>
    have hpoll : r.replay.poll now = Replay.takeFrame { r.replay with pacer, paced := true } := by
      rw [Replay.poll, hclosed, hs]
      rfl
    unfold poll
    rw [hpoll]
    rcases takeFrame_cases { r.replay with pacer, paced := true } with
      ⟨x, replay', htake⟩ | ⟨needed, htake⟩
    · rw [htake]
      exact .inl ⟨x, rfl⟩
    · rw [htake]
      simp only
      split
      · rename_i hfetched
        let r₁ : Reading := { r with replay := { r.replay with pacer, paced := true } }
        rcases settle_fetch (r := r₁) hc hfetched rfl needed with hdone | ⟨r', hbusy, hadvances⟩
        · exact .inl hdone
        · exact .inr ⟨r', hbusy, hadvances.content, hadvances.paced, hadvances.rounds⟩
      · rename_i hfetched
        refine .inr ⟨_, rfl, hc, rfl, ?_⟩
        simp [rounds, hfetched]

/-- A request that waits for its slot is as it was. -/
theorem poll_of_wait {slot : Nat} (hs : r.replay.takeSlot now = .error slot)
    (hclosed : r.replay.closed = false) : r.poll now = (.waitSlot slot, r) := by
  unfold poll Replay.poll
  rw [hclosed, hs]
  rfl

theorem takeSlot_of_paced {replay : Replay} (h : replay.paced = true) (now : Nat) :
    replay.takeSlot now = .ok replay := by
  unfold Replay.takeSlot
  rw [if_pos h]

theorem takeSlot_of_error {replay : Replay} {slot later : Nat}
    (h : replay.takeSlot now = .error slot) (hl : slot ≤ later) :
    ∃ replay', replay.takeSlot later = .ok replay' := by
  unfold Replay.takeSlot at h ⊢
  split at h
  · cases h
  · split at h
    · cases h
    · rename_i hpaced _ p hp
      split at h
      · cases h
      · cases h
        rw [if_neg hpaced]
        have htake : p.take? later = some { p with slot := p.nextSlot later } := if_pos hl
        simp only [htake]
        exact ⟨_, rfl⟩

end Rounds

end CaptureFile.Reading

namespace Rehearsal

def ReplayOutcome.reception? : ReplayOutcome → Option Reception
  | .received r => some r
  | .pending | .closed | .slept => none

namespace ReplayBench

variable {b : ReplayBench} {bytes : ByteArray} {s : Showing}

theorem receive_shows (limit : Option Nat) (rounds : Nat) (h : b.reading.Shows bytes s) :
    ∃ moves, (b.receive limit rounds).2.reading.Shows bytes (s.play moves) ∧
      (s.play moves).results = s.results ++ (b.receive limit rounds).1.reception?.toList := by
  induction rounds generalizing b s with
  | zero => exact ⟨[], h, (List.append_nil _).symm⟩
  | succ rounds ih =>
    obtain ⟨moves, hshows, hresults⟩ := h.poll b.now
    unfold receive
    cases hpoll : b.reading.poll b.now with
    | mk attempt reading =>
      rw [hpoll] at hshows hresults
      have hnext (b' : ReplayBench) (hb : b'.reading = reading)
          (hr : (s.play moves).results = s.results ++ []) :
          ∃ moves, (b'.receive limit rounds).2.reading.Shows bytes (s.play moves) ∧
            (s.play moves).results =
              s.results ++ (b'.receive limit rounds).1.reception?.toList := by
        obtain ⟨moves', hshows', hresults'⟩ := ih (b := b') (hb ▸ hshows)
        refine ⟨moves ++ moves', ?_, ?_⟩
        · rwa [Showing.play_append]
        · rw [Showing.play_append, hresults', hr, List.append_nil]
      cases attempt with
      | done x => exact ⟨moves, hshows, hresults⟩
      | waitSlot slot =>
        simp only
        split
        · split
          · exact hnext _ rfl hresults
          · exact ⟨moves, hshows, hresults⟩
        · exact hnext _ rfl hresults
      | busy =>
        simp only
        split
        · exact ⟨moves, hshows, hresults⟩
        · exact hnext _ rfl hresults

theorem receive_of_slot (hc : b.reading.content = .ok bytes) {replay : Replay}
    (hs : b.reading.replay.takeSlot b.now = .ok replay) {rounds : Nat}
    (hr : b.reading.rounds bytes ≤ rounds) : ∃ x, (b.receive none rounds).1 = .received x := by
  -- A round that ends in vain uses up what the next one has less to do.
  induction rounds generalizing b replay with
  | zero => exact absurd hr (Nat.not_succ_le_zero _)
  | succ rounds ih =>
    unfold receive
    rcases Reading.poll_of_slot hc hs with ⟨x, hx⟩ | ⟨reading, hbusy, hadvances⟩
    · simp only [hx]
      exact ⟨x, rfl⟩
    · have hless := hadvances.rounds
      rw [hbusy]
      exact ih (b := { b with reading }) hadvances.content
        (Reading.takeSlot_of_paced hadvances.paced b.now) (by simp only; omega)

/-- Every request is answered. -/
theorem next_received (hc : b.reading.content = .ok bytes) :
    ∃ x, (b.next none).1 = .received x := by
  have hrounds := Reading.rounds_le_portionsLeft hc
  cases hs : b.reading.replay.takeSlot b.now with
  | ok replay => exact receive_of_slot hc hs (by omega)
  | error slot =>
    cases hclosed : b.reading.replay.closed with
    | true =>
      unfold next receive
      rw [Reading.poll_of_closed hclosed]
      exact ⟨_, rfl⟩
    | false =>
      unfold next receive
      rw [Reading.poll_of_wait hs hclosed]
      obtain ⟨replay, hs'⟩ := Reading.takeSlot_of_error hs (Instant.le_ceilMilli slot)
      exact receive_of_slot (b := ⟨Instant.ceilMilli slot, b.reading⟩) hc hs' hrounds

theorem take_shows {a : ReplayStep} (ha : a ≠ .close) (h : b.reading.Shows bytes s) :
    ∃ moves, (b.take a).2.reading.Shows bytes (s.play moves) ∧
      (s.play moves).results = s.results ++ (b.take a).1.reception?.toList := by
  cases a with
  | next => exact receive_shows none _ h
  | nextWithin limit => exact receive_shows _ _ h
  | close => exact absurd rfl ha
  | sleep => exact ⟨[], h, (List.append_nil _).symm⟩

/-- A rehearsal in which nothing is closed is a showing, in which some requests are given up. -/
theorem play_shows {script : List ReplayStep} (hscript : .close ∉ script)
    (h : b.reading.Shows bytes s) :
    ∃ moves, (s.play moves).results =
      s.results ++ (play step b script).filterMap (·.outcome.reception?) := by
  induction script generalizing b s with
  | nil => exact ⟨[], (List.append_nil _).symm⟩
  | cons a script ih =>
    obtain ⟨ha, hscript⟩ := not_or.mp (mt List.mem_cons.mpr hscript)
    obtain ⟨moves, hshows, hresults⟩ := take_shows (Ne.symm ha) h
    obtain ⟨moves', hresults'⟩ := ih (b := (b.take a).2) hscript hshows
    have hplay : play step b (a :: script) =
        ⟨(b.take a).2.now, (b.take a).1⟩ :: play step (b.take a).2 script := rfl
    refine ⟨moves ++ moves', ?_⟩
    rw [Showing.play_append, hresults', hresults, hplay, List.append_assoc, List.filterMap_cons]
    cases (b.take a).1.reception? <;> rfl

theorem outcomes_next (hs : b.reading.Shows bytes s) (n : Nat) :
    ∃ receptions : List Reception, receptions.length = n ∧
      (play step b (List.replicate n .next)).map (·.outcome) = receptions.map .received := by
  induction n generalizing b s with
  | zero => exact ⟨[], rfl, rfl⟩
  | succ n ih =>
    obtain ⟨x, hx⟩ := next_received hs.content
    obtain ⟨moves, hshows, _⟩ := take_shows (a := .next) nofun hs
    obtain ⟨receptions, hlength, houtcomes⟩ := ih hshows
    refine ⟨x :: receptions, by rw [List.length_cons, hlength], ?_⟩
    rw [List.map_cons, ← houtcomes, ← hx]
    rfl

end ReplayBench

section Opened

variable {file : CaptureFile} {bytes : ByteArray} {url : String} {pacing : Option Duration}
  {now : Nat} {reading : Reading}

theorem shows_of_openFor (hc : file.content = .ok bytes)
    (ho : file.openFor url pacing now = .opened reading) :
    ∃ pacer, reading.Shows bytes (.start pacer bytes) := by
  have hunread : bytes = bytes.extract 0 bytes.size := ByteArray.extract_zero_size.symm
  unfold CaptureFile.openFor CaptureFile.openable at ho
  rw [hc] at ho
  simp only at ho
  split at ho
  · cases ho
    exact ⟨none, rfl, rfl, hunread, rfl⟩
  · split at ho
    · cases ho
    · cases ho
      exact ⟨_, rfl, rfl, hunread, rfl⟩

/-- Whatever the pace, and however many requests are given up, a rehearsal gets one reply after the
other. -/
theorem receptions_of_rehearsal (hc : file.content = .ok bytes)
    (ho : file.openFor url pacing now = .opened reading) {script : List ReplayStep}
    (hscript : .close ∉ script) :
    let receptions :=
      (play ReplayBench.step ⟨now, reading⟩ script).filterMap (·.outcome.reception?)
    receptions = replies receptions.length bytes := by
  intro receptions
  obtain ⟨pacer, hshows⟩ := shows_of_openFor hc ho
  obtain ⟨moves, hresults⟩ := ReplayBench.play_shows (b := ⟨now, reading⟩) hscript hshows
  have hkeeps := ((Showing.Keeps.start pacer bytes).play moves).results
  rw [hresults] at hkeeps
  exact hkeeps

/-- So many requests of a capture that is opened, none of which is given up. -/
theorem outcomes_of_requests (hc : file.content = .ok bytes)
    (ho : file.openFor url pacing now = .opened reading) (n : Nat) :
    (play ReplayBench.step ⟨now, reading⟩ (List.replicate n .next)).map (·.outcome) =
      (replies n bytes).map .received := by
  obtain ⟨pacer, hshows⟩ := shows_of_openFor hc ho
  obtain ⟨receptions, hlength, houtcomes⟩ :=
    ReplayBench.outcomes_next (b := ⟨now, reading⟩) hshows n
  have hreceptions : (play ReplayBench.step ⟨now, reading⟩ (List.replicate n .next)).filterMap
      (·.outcome.reception?) = receptions := by
    have hmap := congrArg (List.filterMap ReplayOutcome.reception?) houtcomes
    rw [List.filterMap_map, List.filterMap_map] at hmap
    exact hmap.trans List.filterMap_some
  have hreplies : receptions = replies receptions.length bytes := by
    rw [← hreceptions]
    exact receptions_of_rehearsal hc ho (by simp [List.mem_replicate])
  rw [houtcomes, ← hlength, ← hreplies]

/-- What a capture gives: all the frames that it begins with, one by one, and then its end, over and
over. It ends in good order if it could be written, and then it is what its frames would be written
as. -/
theorem captures_give_their_frames (hc : file.content = .ok bytes)
    (ho : file.openFor url pacing now = .opened reading) :
    ∃ frames rest ending, Capture.Parses bytes frames rest ∧ Capture.Ends rest ending ∧
      (∀ n, (play ReplayBench.step ⟨now, reading⟩ (List.replicate n .next)).map (·.outcome) =
        ((frames.map Reception.frame ++ List.replicate n ending).take n).map .received) ∧
      (ending = .closed ↔ ∃ written, Capture.write .empty written = bytes) ∧
      (ending = .closed → Capture.write .empty frames = bytes) ∧
      (∀ written, (∀ f ∈ written, f.size ≤ Capture.maxLength) →
        Capture.write .empty written = bytes → frames = written ∧ ending = .closed) ∧
      (∀ capture f, f.size ≤ Capture.maxLength →
        Capture.append capture f = .ok (capture ++ record f)) ∧
      (∀ capture f, Capture.maxLength < f.size →
        (∃ why, Capture.append capture f = .error why) ∧ Capture.write capture [f] = capture) := by
  obtain ⟨frames, rest, hleads, hrest⟩ := Capture.exists_leads bytes
  have hends : Capture.Ends rest (reply rest).1 := Capture.ends_reply hrest
  have hwrite (hclosed : (reply rest).1 = .closed) : Capture.write .empty frames = bytes := by
    rw [hends.closed_iff] at hclosed
    subst hclosed
    exact hleads.write_eq
  refine ⟨frames, rest, (reply rest).1, hleads.parses hrest, hends, ?_, ?_, hwrite, ?_,
    fun capture f hf => Capture.append_of_le hf capture, ?_⟩
  · intro n
    rw [outcomes_of_requests hc ho, Capture.replies_of_leads hleads hrest (Nat.le_refl n)]
  · constructor
    · exact fun hclosed => ⟨frames, hwrite hclosed⟩
    · rintro ⟨written, hwritten⟩
      exact hends.closed (hleads.frames_of_write hrest hwritten).2
  · intro written hfit hwritten
    have hall : written.filter (·.size ≤ Capture.maxLength) = written :=
      List.filter_eq_self.mpr fun f hf => by simpa using hfit f hf
    obtain ⟨hframes, hempty⟩ := hleads.frames_of_write hrest hwritten
    exact ⟨hframes.trans hall, hends.closed hempty⟩
  · intro capture f hf
    refine ⟨Capture.append_eq_error_iff.mpr hf, ?_⟩
    rw [Capture.write_eq, List.filter_cons_of_neg (by simpa using hf), List.filter_nil,
      Capture.encode_nil, ByteArray.append_empty]

end Opened

/-- Two frames, one of them empty, and half a length field behind them. -/
theorem captures_give_their_frames_of_truncation :
    let bytes := Capture.write .empty ["ab".toUTF8, .empty] ++ ⟨#[0, 0]⟩
    let file : CaptureFile := ⟨"camera.bin", .ok bytes⟩
    let pacer : Pacer := ⟨40 * nanosPerMilli, 0⟩
    let reading : Reading := ⟨.ofPacer (some pacer), "camera.bin", .ok bytes, 0, false⟩
    let failure : ReplayOutcome := .received (.failed (Capture.truncatedFault 2))
    file.content = .ok bytes ∧
      file.openFor "replay://camera" (some (.ofMillis 40)) 0 = .opened reading ∧
      (play ReplayBench.step ⟨0, reading⟩ (List.replicate 4 .next)).map (·.outcome) =
        [.received (.frame "ab".toUTF8), .received (.frame .empty), failure, failure] := by
  intro bytes file pacer reading failure
  have hopen : file.openFor "replay://camera" (some (.ofMillis 40)) 0 = .opened reading := rfl
  have hleads : Capture.Leads bytes ["ab".toUTF8, .empty] ⟨#[0, 0]⟩ :=
    ⟨by decide +kernel, by decide +kernel⟩
  obtain ⟨frames, rest, ending, hparses, hends, houtcomes, _⟩ :=
    captures_give_their_frames rfl hopen
  obtain ⟨rfl, rfl⟩ := hparses.unique (hleads.parses nofun)
  refine ⟨rfl, hopen, ?_⟩
  rw [houtcomes 4, hends.truncated nofun nofun]
  rfl

end Rehearsal

end LivePlayback
