import ExpiringCache.Time.Duration

/-! # The clock

    A cache reads the time in whole milliseconds since the epoch from a wall
    clock that may be set back.  Readings never are: each one is the wall
    time, or the latest earlier reading if that is greater.  The clock
    therefore remembers its latest reading, and a reading that nobody takes
    leaves no mark. -/

namespace ExpiringCache

/-- The instant that stands for "never": it lies in the year 2262. -/
def never : Int := 9223372036854

/-- A wall clock and the latest reading taken from it. -/
structure Clock where
  wall : Int
  -- the greatest reading so far; 0 before the first one
  latest : Int
  deriving DecidableEq, Repr, Inhabited

namespace Clock

/-- A clock that nobody has read. -/
def unread (wall : Int) : Clock := ⟨wall, 0⟩

/-- What a reading taken now shows. -/
def now (c : Clock) : Int := max c.wall c.latest

/-- The clock after a reading. -/
def read (c : Clock) : Clock := { c with latest := c.now }

/-- The clock after its wall was set to `wall`. -/
def setTo (c : Clock) (wall : Int) : Clock := { c with wall := wall }

/-- The clock after its wall moved by `ms` milliseconds. -/
def advance (c : Clock) (ms : Int) : Clock := { c with wall := c.wall + ms }

/-- A reading changes no other reading. -/
@[simp] theorem now_read (c : Clock) : c.read.now = c.now := by
  simp only [read, now]
  omega

/-- However the wall is set, no reading is below an earlier one. -/
theorem now_le_now_setTo (c : Clock) (wall : Int) : c.now ≤ (c.read.setTo wall).now := by
  simp only [read, now, setTo]
  omega

end Clock

/-! ## When a lifetime ends -/

/-- The instant at which a lifetime of `d` that starts at `now` ends: a zero
    lifetime never ends, and none ends after `never`. -/
def expiryFrom (now : Int) (d : Duration) : Int :=
  if d.isZero then never else min never (Word.add now d.millis)

theorem expiryFrom_le_never (now : Int) (d : Duration) : expiryFrom now d ≤ never := by
  unfold expiryFrom
  split
  · exact Int.le_refl _
  · exact Int.min_le_left _ _

/-- While the clock has not gone below zero, no lifetime reaches past the
    range of words, so the limit of the range does not show. -/
theorem expiryFrom_eq_min {now : Int} (h : 0 ≤ now) (d : Duration) :
    expiryFrom now d = if d.isZero then never else min never (now + d.millis) := by
  have hmillis : d.millis.natAbs = d.nanos.natAbs / 1000000 := Int.natAbs_tdiv d.nanos 1000000
  have hwithin := d.within
  rw [Duration.limit] at hwithin
  rw [expiryFrom, Word.add, Word.clamp, Word.least, Word.greatest, never]
  rw [if_neg (show ¬now + d.millis < -9223372036854775808 by omega)]
  split
  · rfl
  · split
    · omega
    · rfl

end ExpiringCache
