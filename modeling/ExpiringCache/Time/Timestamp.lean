/-! # Timestamps

    An instant in nanoseconds since the epoch is written as a date and a
    time of day at offset zero.  The fraction of the second has as many
    groups of three digits as it needs, and none if it is zero.  Days are
    turned into dates by the calendar in which a year that is divisible by
    4 is a leap year, unless it is divisible by 100 and not by 400. -/

namespace ExpiringCache.Timestamp

/-- A day of the calendar. -/
structure Date where
  year : Int
  month : Nat
  day : Nat
  deriving DecidableEq, Repr

/-- The day that comes `days` days after the first of January 1970.  Years
    are taken to begin in March, so that the leap day is their last; the
    calendar repeats every 146097 days, which are 400 years. -/
def dateOf (days : Int) : Date :=
  let shifted := days + 719468
  let era := shifted.ediv 146097
  let dayOfEra := (shifted.emod 146097).toNat
  let yearOfEra :=
    (dayOfEra - dayOfEra / 1460 + dayOfEra / 36524 - dayOfEra / 146096) / 365
  let dayOfYear := dayOfEra - (365 * yearOfEra + yearOfEra / 4 - yearOfEra / 100)
  let march := (5 * dayOfYear + 2) / 153
  let day := dayOfYear - (153 * march + 2) / 5 + 1
  let month := if march < 10 then march + 3 else march - 9
  let year := (yearOfEra : Int) + era * 400
  ⟨if month ≤ 2 then year + 1 else year, month, day⟩

/-- A number with zeros in front, up to `width` digits. -/
def padded (width n : Nat) : String :=
  let digits := Nat.toDigits 10 n
  String.ofList (List.replicate (width - digits.length) '0' ++ digits)

/-- The fraction of a second, given in nanoseconds. -/
def fraction (nanos : Nat) : String :=
  if nanos = 0 then ""
  else if nanos % 1000000 = 0 then "." ++ padded 3 (nanos / 1000000)
  else if nanos % 1000 = 0 then "." ++ padded 6 (nanos / 1000)
  else "." ++ padded 9 nanos

/-- Writes the instant `nanos` nanoseconds after the epoch. -/
def render (nanos : Int) : String :=
  let seconds := nanos.ediv 1000000000
  let date := dateOf (seconds.ediv 86400)
  let second := (seconds.emod 86400).toNat
  padded 4 date.year.toNat ++ "-" ++ padded 2 date.month ++ "-" ++ padded 2 date.day ++ "T"
    ++ padded 2 (second / 3600) ++ ":" ++ padded 2 (second / 60 % 60) ++ ":"
    ++ padded 2 (second % 60) ++ fraction (nanos.emod 1000000000).toNat ++ "+00:00"

end ExpiringCache.Timestamp
