/-!
# Time

An instant is a number of nanoseconds since the clock started, a plain `Nat`. Clocks only ever show
whole milliseconds, so a deadline is reached at the first whole millisecond that is not before it.
-/

namespace LivePlayback
set_option autoImplicit false

structure Duration where
  nanos : Nat
  deriving DecidableEq, Repr

def nanosPerMilli : Nat := 1000000

def nanosPerSecond : Nat := 1000000000

namespace Instant

def millis (t : Nat) : Nat := t / nanosPerMilli

/-- The first whole millisecond that is not before `t`. -/
def ceilMilli (t : Nat) : Nat :=
  (t + (nanosPerMilli - 1)) / nanosPerMilli * nanosPerMilli

end Instant

namespace Duration

def ofMillis (n : Nat) : Duration := ⟨n * nanosPerMilli⟩

def seconds (d : Duration) : Nat := d.nanos / nanosPerSecond

def subsecondNanos (d : Duration) : Nat := d.nanos % nanosPerSecond

def millis (d : Duration) : Nat := d.nanos / nanosPerMilli

/-- What a number of seconds and one of nanoseconds make, unless its seconds leave 64 bits. -/
def ofParts? (seconds nanos : Nat) : Option Duration :=
  if seconds + nanos / nanosPerSecond < UInt64.size then some ⟨seconds * nanosPerSecond + nanos⟩
  else none

def after (d : Duration) (t : Nat) : Nat := t + d.nanos

/-- The longest time that an alarm is set for: thirty years of 365 days. -/
def longest : Duration := ⟨30 * 365 * 86400 * nanosPerSecond⟩

/-- When an alarm goes off that is set at `t`; one that is set for too long goes off early. -/
def alarm (d : Duration) (t : Nat) : Nat := t + min d.nanos longest.nanos

def toSeconds (d : Duration) : Float :=
  d.seconds.toFloat + d.subsecondNanos.toFloat / nanosPerSecond.toFloat

/-- The last `places` decimal digits of `n`, leading zeros kept and trailing ones dropped. -/
def fraction (places n : Nat) : List Char :=
  let digits := Nat.toDigits 10 n
  let padded := List.replicate (places - digits.length) '0' ++ digits
  (padded.reverse.dropWhile (· == '0')).reverse

/-- A count of a unit with the decimals that are not zero. -/
def inUnit (whole part places : Nat) (unit : String) : String :=
  match fraction places part with
  | [] => s!"{whole}{unit}"
  | digits => s!"{whole}." ++ String.ofList digits ++ unit

/-- The largest of `s`, `ms`, `µs` and `ns` that leaves a whole part, with all decimals. -/
def text (d : Duration) : String :=
  let n := d.nanos
  if nanosPerSecond ≤ n then inUnit (n / nanosPerSecond) (n % nanosPerSecond) 9 "s"
  else if nanosPerMilli ≤ n then inUnit (n / nanosPerMilli) (n % nanosPerMilli) 6 "ms"
  else if 1000 ≤ n then inUnit (n / 1000) (n % 1000) 3 "µs"
  else s!"{n}ns"

theorem alarm_le_after (d : Duration) (t : Nat) : d.alarm t ≤ d.after t := by
  unfold alarm after
  omega

theorem alarm_eq_after {d : Duration} (h : d.nanos ≤ longest.nanos) (t : Nat) :
    d.alarm t = d.after t := by
  unfold alarm after
  omega

end Duration

namespace Instant

theorem le_ceilMilli (t : Nat) : t ≤ ceilMilli t := by
  unfold ceilMilli nanosPerMilli; omega

theorem ceilMilli_lt (t : Nat) : ceilMilli t < t + nanosPerMilli := by
  unfold ceilMilli nanosPerMilli; omega

/-- A clock that shows whole milliseconds reaches `t` exactly when it reaches its ceiling. -/
theorem ceilMilli_le_iff {t now : Nat} (h : nanosPerMilli ∣ now) :
    ceilMilli t ≤ now ↔ t ≤ now := by
  obtain ⟨k, rfl⟩ := h
  unfold ceilMilli nanosPerMilli
  omega

end Instant

end LivePlayback
