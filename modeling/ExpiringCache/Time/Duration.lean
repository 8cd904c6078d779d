import ExpiringCache.Word

/-! # Durations

    A lifetime is asked for as a signed length of time.  It is exact to the
    nanosecond, but reaches at most as many whole milliseconds as a signed
    word counts, in either direction.  Two readings matter to a cache: its
    sign, which is exact, and its whole milliseconds, which drop what is
    left below one millisecond.  Half a millisecond is therefore neither
    zero nor negative, although it counts no millisecond. -/

namespace ExpiringCache

/-- The farthest length of time in nanoseconds. -/
def Duration.limit : Nat := 9223372036854775807 * 1000000

/-- A signed length of time. -/
structure Duration where
  nanos : Int
  within : nanos.natAbs ≤ Duration.limit
  deriving DecidableEq

namespace Duration

/-- The length of `n` nanoseconds, if it is not too far. -/
def ofNanos? (n : Int) : Option Duration :=
  if h : n.natAbs ≤ limit then some ⟨n, h⟩ else none

/-- The length of `ms` milliseconds, if it is not too far. -/
def ofMillis? (ms : Int) : Option Duration := ofNanos? (ms * 1000000)

/-- No time at all. -/
def zero : Duration := ⟨0, Nat.zero_le _⟩

instance : Inhabited Duration := ⟨zero⟩

/-- The whole milliseconds of a duration; what is left is dropped. -/
def millis (d : Duration) : Int := d.nanos.tdiv 1000000

/-- A duration of no time at all. -/
def isZero (d : Duration) : Bool := d.nanos == 0

/-- A duration that points backwards. -/
def isNegative (d : Duration) : Bool := decide (d.nanos < 0)

/-! ## Which milliseconds are a duration -/

theorem ofMillis?_isSome {ms : Int} :
    (ofMillis? ms).isSome = true ↔ -Word.greatest ≤ ms ∧ ms ≤ Word.greatest := by
  unfold ofMillis? ofNanos? limit Word.greatest
  split
  · constructor
    · intro _
      omega
    · intro _
      rfl
  · constructor
    · intro h
      exact absurd h (by simp)
    · intro h
      omega

theorem millis_ofMillis? {ms : Int} {d : Duration} (h : ofMillis? ms = some d) :
    d.millis = ms := by
  unfold ofMillis? ofNanos? at h
  split at h
  · cases h
    exact Int.mul_tdiv_cancel ms (by decide)
  · cases h

end Duration

end ExpiringCache
