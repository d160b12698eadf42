import LivePlayback.Proofs.Capture.Slots

/-!
# The pace of a replay

A replay on a clock is asked for frames at any times, and requests are given up wherever they wait.
One slot is taken for each frame, before the first byte of it is read, and never a second one. So
the frame that comes after `n` others comes no earlier than `n` periods after the connection.
-/

namespace LivePlayback
set_option autoImplicit false

open CaptureFile (Reading)
open Replay (Mark slots frames slotAfter slotMark)

namespace Showing

theorem results_settle (s : Showing) (out : Replay.Step × Replay) :
    (s.settle out).results = s.results ++ out.1.reception?.toList := by
  obtain ⟨step, replay⟩ := out
  cases step with
  | done r => rfl
  | waitSlot | wantsPortion => exact (List.append_nil _).symm

theorem replay_settle (s : Showing) (out : Replay.Step × Replay) :
    (s.settle out).replay = out.2 := by
  unfold settle
  split <;> rfl

end Showing

/-! ## Showings on a clock -/

/-- A showing on a clock, and what is seen of it. -/
structure TimedShowing where
  now : Nat
  showing : Showing
  /-- Newest first. -/
  marks : List Replay.Mark

namespace TimedShowing

inductive Move where
  | pass (time : Nat)
  /-- The request under way is looked at, or a new one is made. -/
  | poll
  /-- A read comes to its end, with room for so many bytes more than are needed. -/
  | read (spare count : Nat)
  | fail (why : Fault)
  | giveUp
  | close

def start (pacer : Option Pacer) (file : ByteArray) (now : Nat) : TimedShowing :=
  ⟨now, .start pacer file, []⟩

/-- The results that are new, and the slot that was taken for them, are marked. -/
def note (s : TimedShowing) (showing : Showing) : TimedShowing :=
  { s with
    showing
    marks := ((showing.results.drop s.showing.results.length).map (.received · s.now)).reverse ++
      slotMark s.now s.showing.replay.pacer showing.replay.pacer ++ s.marks }

def move (s : TimedShowing) : Move → TimedShowing
  | .pass time => { s with now := s.now + time }
  | .poll => s.note (s.showing.move (.poll s.now))
  | .read spare count => s.note (s.showing.move (.read spare count))
  | .fail why =>
    match s.showing.awaited with
    | none => s
    | some _ => s.note (s.showing.settle (s.showing.replay.supply (.failed why)))
  | .giveUp => { s with showing := s.showing.move .giveUp }
  | .close =>
    { s with showing := { s.showing with replay := s.showing.replay.close, awaited := none } }

def play (s : TimedShowing) (moves : List Move) : TimedShowing := moves.foldl move s

structure Kept (p : Pacer) (s : TimedShowing) : Prop where
  paces : s.showing.replay.Paces p s.now s.marks
  /-- Only a request with a slot waits for a read. -/
  waits : s.showing.awaited ≠ none → s.showing.replay.paced = true
  told : s.showing.results = (s.marks.filterMap Mark.reception?).reverse

theorem note_self (s : TimedShowing) : s.note s.showing = s := by
  unfold note
  rw [List.drop_length, Replay.slotMark_self]
  rfl

theorem marks_note_settle (s : TimedShowing) (unread : ByteArray)
    (out : Replay.Step × Replay) :
    (s.note (({ s.showing with unread } : Showing).settle out)).marks =
      s.showing.replay.seen s.now out ++ s.marks := by
  unfold note Replay.seen
  rw [Showing.results_settle, Showing.replay_settle, List.drop_left]
  cases out.1.reception? <;> rfl

namespace Kept

variable {p : Pacer} {s : TimedShowing}

theorem start (p : Pacer) (file : ByteArray) :
    (TimedShowing.start (some p) file p.slot).Kept p :=
  ⟨.start p, fun h => absurd rfl h, rfl⟩

theorem settle (h : s.Kept p) (unread : ByteArray) {out : Replay.Step × Replay}
    (hpaces : out.2.Paces p s.now (s.showing.replay.seen s.now out ++ s.marks))
    (hwaits : ∀ needed, out.1 = .wantsPortion needed → out.2.paced = true) :
    (s.note (({ s.showing with unread } : Showing).settle out)).Kept p where
  paces := by
    rw [marks_note_settle]
    have hreplay := Showing.replay_settle { s.showing with unread } out
    exact hreplay ▸ hpaces
  waits := by
    intro ha
    obtain ⟨step, replay⟩ := out
    cases step with
    | done | waitSlot => exact absurd rfl ha
    | wantsPortion needed => exact hwaits needed rfl
  told := by
    rw [marks_note_settle, List.filterMap_append, Replay.receptions_seen, List.reverse_append,
      ← h.told]
    have hresults := Showing.results_settle { s.showing with unread } out
    refine hresults.trans ?_
    cases out.1.reception? <;> rfl

theorem supply (h : s.Kept p) {needed : Nat} (ha : s.showing.awaited = some needed)
    (unread : ByteArray) (portion : Portion) :
    (s.note (({ s.showing with unread } : Showing).settle
      (s.showing.replay.supply portion))).Kept p := by
  have hpaced : s.showing.replay.paced = true := h.waits (by rw [ha]; nofun)
  refine h.settle unread (h.paces.supply hpaced portion) ?_
  intro needed' hn
  exact Replay.paced_of_supply hpaced hn

theorem move (h : s.Kept p) (hp : 0 < p.period) (m : Move) : (s.move m).Kept p := by
  cases m with
  | pass time => exact ⟨h.paces.pass (Nat.le_add_right _ _), h.waits, h.told⟩
  | poll =>
    rw [TimedShowing.move, Showing.move]
    split
    · rw [note_self]
      exact h
    · refine h.settle s.showing.unread (h.paces.poll hp) ?_
      intro needed hn
      exact Replay.paced_of_poll hn
  | read spare count =>
    rw [TimedShowing.move, Showing.move]
    cases ha : s.showing.awaited with
    | none =>
      simp only
      rw [note_self]
      exact h
    | some needed => exact h.supply ha _ _
  | fail why =>
    rw [TimedShowing.move]
    cases ha : s.showing.awaited with
    | none => exact h
    | some needed => exact h.supply ha s.showing.unread (.failed why)
  | giveUp => exact ⟨h.paces, fun ha => absurd rfl ha, h.told⟩
  | close => exact ⟨h.paces, fun ha => absurd rfl ha, h.told⟩

theorem play (h : s.Kept p) (hp : 0 < p.period) (moves : List Move) : (s.play moves).Kept p := by
  induction moves generalizing s with
  | nil => exact h
  | cons m moves ih => exact ih (h.move hp m)

end Kept

/-- How a replay keeps to its pace. -/
structure KeepsPace (p : Pacer) (s : TimedShowing) : Prop where
  told : s.showing.results = (s.marks.filterMap Mark.reception?).reverse
  /-- No slot was taken but those that are marked, one after the other. -/
  pacer : s.showing.replay.pacer = some { p with slot := slotAfter p s.marks }
  /-- There is a slot for each frame, and one more at most. -/
  spent : slots s.marks = frames s.marks + s.showing.replay.paced.toNat
  /-- The frame that is being read has a slot. -/
  reads : s.showing.awaited ≠ none → slots s.marks = frames s.marks + 1
  /-- A slot is taken when each one before it was spent on a frame. -/
  slot : ∀ newer older due now, s.marks = newer ++ .slot due now :: older →
    slots older = frames older ∧ due = slotAfter p older ∧ due ≤ now ∧
      p.Allows (frames older) due
  frame : ∀ newer older f now, s.marks = newer ++ .received (.frame f) now :: older →
    slots older = frames older + 1 ∧ p.Allows (frames older) now

theorem Kept.keepsPace {p : Pacer} {s : TimedShowing} (h : s.Kept p) : s.KeepsPace p := by
  have htold := h.told
  have hwaits := h.waits
  obtain ⟨next, hpacer, hmarks⟩ := h.paces
  rw [hmarks.slot_eq] at hpacer
  have hspent := hmarks.slots_eq
  refine ⟨htold, hpacer, hspent, ?_, ?_, ?_⟩
  · intro ha
    rw [hspent, hwaits ha]
    rfl
  · intro newer older due now hm
    obtain ⟨heq, hnext, hdue, hle⟩ := hmarks.timely hm
    exact ⟨heq, hnext, hdue, Pacer.allows_of_le hle⟩
  · intro newer older f now hm
    obtain ⟨heq, hle⟩ := hmarks.timely hm rfl
    exact ⟨heq, Pacer.allows_of_le hle⟩

end TimedShowing

/-! ## Rehearsals -/

def bringsFrame (x : Option Reception) : Bool := (x.bind Reception.frame?).isSome

namespace Replay

variable {r : Replay} {p : Pacer} {now n : Nat} {marks : List Mark}

/-- So many frames were handed out by now. -/
def HandedOut (p : Pacer) (now n : Nat) (r : Replay) : Prop :=
  ∃ marks, frames marks = n ∧ r.Paces p now marks

theorem frames_seen (r : Replay) (now : Nat) (out : Step × Replay) (marks : List Mark) :
    frames (r.seen now out ++ marks) =
      frames marks + (bringsFrame out.1.reception?).toNat := by
  rw [frames_eq, frames_eq, List.filterMap_append, receptions_seen, List.countP_append,
    Nat.add_comm]
  cases out.1.reception? with
  | none => rfl
  | some x => cases x <;> rfl

namespace HandedOut

theorem pass (h : r.HandedOut p now n) {later : Nat} (hl : now ≤ later) :
    r.HandedOut p later n := by
  obtain ⟨marks, hn, hpaces⟩ := h
  exact ⟨marks, hn, hpaces.pass hl⟩

theorem poll (h : r.HandedOut p now n) (hp : 0 < p.period) :
    (r.poll now).2.HandedOut p now (n + (bringsFrame (r.poll now).1.reception?).toNat) := by
  obtain ⟨marks, rfl, hpaces⟩ := h
  exact ⟨_, frames_seen r now _ marks, hpaces.poll hp⟩

theorem supply (h : r.HandedOut p now n) (hp : r.paced = true) (portion : Portion) :
    (r.supply portion).2.HandedOut p now
      (n + (bringsFrame (r.supply portion).1.reception?).toNat) := by
  obtain ⟨marks, rfl, hpaces⟩ := h
  exact ⟨_, frames_seen r now _ marks, hpaces.supply hp portion⟩

theorem lt_of_waitSlot (h : r.HandedOut p now n) {due : Nat}
    (hw : (r.poll now).1 = .waitSlot due) : now < due := by
  obtain ⟨marks, _, hpaces⟩ := h
  exact hpaces.lt_of_waitSlot hw

theorem allows (h : r.HandedOut p now n) {m : Nat} (hm : m < n) : p.Allows m now := by
  obtain ⟨marks, rfl, slot, _, htold⟩ := h
  have hslots := htold.slots_eq
  exact Pacer.allows_of_le (htold.reached (by omega))

end HandedOut

end Replay

namespace CaptureFile.Reading

variable {r : Reading} {p : Pacer} {now n : Nat}

theorem replay_settle (r : Reading) (out : Replay.Step × Replay) :
    (r.settle out).2.replay = out.2 := by
  unfold settle
  split <;> rfl

theorem reception_settle (r : Reading) (out : Replay.Step × Replay) :
    (r.settle out).1.reception? = out.1.reception? := by
  obtain ⟨step, replay⟩ := out
  cases step <;> rfl

theorem slot_settle {out : Replay.Step × Replay} {slot : Nat}
    (h : (r.settle out).1 = .waitSlot slot) : out.1 = .waitSlot slot := by
  obtain ⟨step, replay⟩ := out
  cases step with
  | done | wantsPortion => cases h
  | waitSlot =>
    cases h
    rfl

/-- A look at a request is one at the replay, or two where a portion is taken over in between. -/
theorem poll_cases (r : Reading) (now : Nat) :
    r.poll now = r.settle (r.replay.poll now) ∨
      ∃ needed portion, ∃ r' : Reading, (r.replay.poll now).1 = .wantsPortion needed ∧
        r.poll now = r'.settle ((r.replay.poll now).2.supply portion) := by
  unfold poll
  cases r.replay.poll now with
  | mk step replay =>
    cases step with
    | done | waitSlot => exact .inl rfl
    | wantsPortion needed =>
      simp only
      split
      · exact .inr ⟨needed, _, _, rfl, rfl⟩
      · exact .inl rfl

theorem handedOut_poll (h : r.replay.HandedOut p now n) (hp : 0 < p.period) :
    (r.poll now).2.replay.HandedOut p now (n + (bringsFrame (r.poll now).1.reception?).toNat) := by
  have hpolled := h.poll hp
  rcases poll_cases r now with hpoll | ⟨needed, portion, r', hwants, hpoll⟩
  · rw [hpoll, replay_settle, reception_settle]
    exact hpolled
  · rw [hwants] at hpolled
    rw [hpoll, replay_settle, reception_settle]
    exact hpolled.supply (Replay.paced_of_poll hwants) portion

theorem lt_of_waitSlot (h : r.replay.HandedOut p now n) {slot : Nat}
    (hw : (r.poll now).1 = .waitSlot slot) : now < slot := by
  rcases poll_cases r now with hpoll | ⟨needed, portion, r', _, hpoll⟩
  · rw [hpoll] at hw
    exact h.lt_of_waitSlot (slot_settle hw)
  · rw [hpoll] at hw
    exact absurd (slot_settle hw) Replay.supply_ne_waitSlot

end CaptureFile.Reading

theorem CaptureFile.replay_of_openFor {file : CaptureFile} {url : String} {pacing : Duration}
    {now : Nat} {reading : Reading} (ho : file.openFor url (some pacing) now = .opened reading) :
    0 < pacing.nanos ∧ reading.replay = .ofPacer (some ⟨pacing.nanos, now⟩) := by
  unfold openFor at ho
  split at ho
  · cases ho
  · unfold Pacer.start? at ho
    simp only at ho
    by_cases hzero : pacing.nanos = 0
    · rw [if_pos hzero] at ho
      cases ho
    · rw [if_neg hzero] at ho
      cases ho
      exact ⟨Nat.pos_of_ne_zero hzero, rfl⟩

namespace Rehearsal

def frameTimes (reports : List ReplayReport) : List Nat :=
  (reports.filter (bringsFrame ·.outcome.reception?)).map (·.now)

namespace ReplayBench

variable {b : ReplayBench} {p : Pacer} {n : Nat}

def HandedOut (p : Pacer) (n : Nat) (b : ReplayBench) : Prop :=
  b.reading.replay.HandedOut p b.now n

theorem handedOut_receive (h : b.HandedOut p n) (hp : 0 < p.period) {limit : Option Nat}
    (hl : ∀ deadline, limit = some deadline → b.now ≤ deadline) (rounds : Nat) :
    (b.receive limit rounds).2.HandedOut p
      (n + (bringsFrame (b.receive limit rounds).1.reception?).toNat) := by
  induction rounds generalizing b with
  | zero => exact h
  | succ rounds ih =>
    have hpolled := CaptureFile.Reading.handedOut_poll h hp
    unfold receive
    cases hpoll : b.reading.poll b.now with
    | mk attempt reading =>
      rw [hpoll] at hpolled
      cases attempt with
      | done x => exact hpolled
      | waitSlot slot =>
        -- The clock only goes forward: the slot that is waited for is still to come.
        have hlt : b.now < slot := CaptureFile.Reading.lt_of_waitSlot h (by rw [hpoll])
        have hceil := Instant.le_ceilMilli slot
        have hnext (later : Nat) (hle : b.now ≤ later) :
            ({ b with reading, now := later } : ReplayBench).HandedOut p n := hpolled.pass hle
        cases limit with
        | none => exact ih (hnext _ (by omega)) (by simp)
        | some deadline =>
          simp only
          split
          · rename_i hsoon
            refine ih (hnext _ (by omega)) ?_
            intro deadline' heq
            cases heq
            exact hsoon.1
          · exact hnext _ (hl deadline rfl)
      | busy =>
        simp only
        split
        · exact hpolled
        · exact ih (b := { b with reading }) hpolled hl

theorem handedOut_take (h : b.HandedOut p n) (hp : 0 < p.period) (a : ReplayStep) :
    (b.take a).2.HandedOut p (n + (bringsFrame (b.take a).1.reception?).toNat) := by
  cases a with
  | next =>
    refine handedOut_receive h hp ?_ _
    intro deadline heq
    cases heq
  | nextWithin limit =>
    refine handedOut_receive h hp ?_ _
    intro deadline heq
    cases heq
    exact Nat.le_add_right _ _
  | close => exact h
  | sleep limit => exact Replay.HandedOut.pass h (Nat.le_add_right _ _)

theorem frame_allowed (h : b.HandedOut p n) (hp : 0 < p.period) {script : List ReplayStep}
    {m now : Nat} (hm : (frameTimes (play step b script))[m]? = some now) :
    p.Allows (n + m) now := by
  induction script generalizing b n m with
  | nil => cases hm
  | cons a script ih =>
    have htaken := handedOut_take h hp a
    have hplay : play step b (a :: script) =
        ⟨(b.take a).2.now, (b.take a).1⟩ :: play step (b.take a).2 script := rfl
    rw [hplay, frameTimes, List.filter_cons] at hm
    simp only at hm
    cases hbrings : bringsFrame (b.take a).1.reception? with
    | false =>
      rw [hbrings] at htaken hm
      exact ih htaken hm
    | true =>
      rw [hbrings] at htaken hm
      cases m with
      | zero =>
        cases hm
        exact Replay.HandedOut.allows htaken (Nat.lt_succ_self n)
      | succ m =>
        have hallowed := ih htaken hm
        rwa [Bool.toNat_true, Nat.add_right_comm] at hallowed

end ReplayBench

end Rehearsal

open Rehearsal in
/-- However requests are made and given up, a replay spends one slot on each frame, and the one that
comes after `n` others comes no earlier than `n` periods after the connection. -/
theorem frames_keep_pace {file : CaptureFile} {url : String} {pacing : Duration} {connect : Nat}
    {reading : Reading} (ho : file.openFor url (some pacing) connect = .opened reading) :
    let p : Pacer := ⟨pacing.nanos, connect⟩
    (∀ bytes moves,
      ((TimedShowing.start reading.replay.pacer bytes connect).play moves).KeepsPace p) ∧
      ∀ script n now,
        (frameTimes (play ReplayBench.step ⟨connect, reading⟩ script))[n]? = some now →
          p.Allows n now := by
  intro p
  obtain ⟨hpos, hreplay⟩ := CaptureFile.replay_of_openFor ho
  constructor
  · intro bytes moves
    rw [hreplay]
    exact ((TimedShowing.Kept.start p bytes).play hpos moves).keepsPace
  · intro script n now hn
    have hstart : (⟨connect, reading⟩ : ReplayBench).HandedOut p 0 := by
      refine ⟨[], rfl, ?_⟩
      rw [hreplay]
      exact .start p
    have hallowed := ReplayBench.frame_allowed hstart hpos hn
    rwa [Nat.zero_add] at hallowed

open Rehearsal in
/-- The first slot is taken so late that the second one would have been due. Each request is given
up once, and the second frame is still being read. -/
theorem frames_keep_pace_of_late_slot :
    let bytes := Capture.write .empty ["ab".toUTF8, "c".toUTF8]
    let file : CaptureFile := ⟨"camera.bin", .ok bytes⟩
    let p : Pacer := ⟨40 * nanosPerMilli, 0⟩
    let reading : Reading := ⟨.ofPacer (some p), "camera.bin", .ok bytes, 0, false⟩
    let moves : List TimedShowing.Move :=
      [.pass (60 * nanosPerMilli), .poll, .giveUp, .poll, .read 8 8, .poll,
        .pass (40 * nanosPerMilli), .poll, .giveUp, .poll]
    let s := (TimedShowing.start (some p) bytes 0).play moves
    let script : List ReplayStep :=
      [.sleep (.ofMillis 60), .next, .nextWithin (.ofMillis 10), .next]
    file.openFor "replay://camera" (some (.ofMillis 40)) 0 = .opened reading ∧
      s.KeepsPace p ∧ slots s.marks = 2 ∧ frames s.marks = 1 ∧
      slotAfter p s.marks = 140 * nanosPerMilli ∧
      (frameTimes (play ReplayBench.step ⟨0, reading⟩ script))[1]? = some (100 * nanosPerMilli) ∧
      p.slot + 1 * p.period ≤ 100 * nanosPerMilli := by
  intro bytes file p reading moves s script
  have hopen : file.openFor "replay://camera" (some (.ofMillis 40)) 0 = .opened reading := rfl
  obtain ⟨hshowings, hrehearsals⟩ := frames_keep_pace hopen
  have hsecond : (frameTimes (play ReplayBench.step ⟨0, reading⟩ script))[1]? =
      some (100 * nanosPerMilli) := by decide +kernel
  have hrhythm : Pacer.KeepsRhythm p.period := Pacer.keepsRhythm_iff.mpr (by decide)
  refine ⟨hopen, hshowings bytes moves, ?_, ?_, ?_, hsecond, ?_⟩
  · decide +kernel
  · decide +kernel
  · decide +kernel
  · exact (hrehearsals script 1 _ hsecond).2 hrhythm

end LivePlayback
