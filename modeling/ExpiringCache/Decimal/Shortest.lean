/-! # The shortest decimal of a binary number

    A binary floating-point number stands for an interval of reals: all
    those that are rounded to it.  Its shortest decimal is the one with the
    fewest digits in that interval; of several, the nearest to the number
    itself; of two equally near ones, the one whose last digit is even.

    All of this is exact arithmetic on natural numbers.  A grid of decimals
    with the same number of digits has a point in the interval only if one
    of the number's two neighbours on the grid lies in it. -/

namespace ExpiringCache

/-- A decimal number `digits · 10 ^ exponent`. -/
structure Decimal where
  digits : Nat
  exponent : Int
  deriving DecidableEq, Repr

namespace Decimal

/-- A positive number `significand · 2 ^ exponent` with the reals that are
    rounded to it. -/
structure Binary where
  significand : Nat
  exponent : Int
  -- whether the next number below is only half as far as the next above
  closeBelow : Bool

/-- The sign of a finite number in the 64-bit format, and its absolute value
    if that is not 0. -/
def Binary.ofBits (bits : UInt64) : Bool × Option Binary :=
  let fraction := (bits &&& 0xFFFFFFFFFFFFF).toNat
  let scale := ((bits >>> 52) &&& 0x7FF).toNat
  let negative := (bits >>> 63) == 1
  if scale = 0 then
    (negative, if fraction = 0 then none else some ⟨fraction, -1074, false⟩)
  else
    let closeBelow := fraction == 0 && scale != 1
    (negative, some ⟨Nat.pow 2 52 + fraction, (scale : Int) - 1075, closeBelow⟩)

/-- An interval of positive reals and a point in it, as numerators over one
    denominator. -/
structure Interval where
  low : Nat
  middle : Nat
  high : Nat
  denominator : Nat
  closed : Bool

/-- The reals that are rounded to a number. -/
def Binary.interval (b : Binary) : Interval :=
  let quarter := b.exponent - 2
  let up := Nat.pow 2 quarter.toNat
  let down := Nat.pow 2 (-quarter).toNat
  { low := (4 * b.significand - if b.closeBelow then 1 else 2) * up
    middle := 4 * b.significand * up
    high := (4 * b.significand + 2) * up
    denominator := down
    closed := b.significand % 2 == 0 }

/-- The numerator and the denominator of `n / d` divided by `10 ^ exponent`. -/
def scaleDown (n d : Nat) (exponent : Int) : Nat × Nat :=
  (n * Nat.pow 10 (-exponent).toNat, d * Nat.pow 10 exponent.toNat)

/-- Whether `digits · 10 ^ exponent` lies in an interval. -/
def Interval.holds (i : Interval) (digits : Nat) (exponent : Int) : Bool :=
  let point := digits * Nat.pow 10 exponent.toNat * i.denominator
  let scale := Nat.pow 10 (-exponent).toNat
  if i.closed then i.low * scale ≤ point && point ≤ i.high * scale
  else i.low * scale < point && point < i.high * scale

/-- The number of decimal digits of a natural number. -/
def digitCount (n : Nat) : Nat := (Nat.toDigits 10 n).length

/-- The exponent of the leading digit of the middle of an interval, which is
    not below `10 ^ -400`. -/
def Interval.leading (i : Interval) : Int :=
  (digitCount (i.middle * Nat.pow 10 400 / i.denominator) : Int) - 401

/-- The nearest decimal to the middle of an interval with this exponent that
    lies in the interval. -/
def Interval.nearest? (i : Interval) (exponent : Int) : Option Nat :=
  let (n, d) := scaleDown i.middle i.denominator exponent
  let below := n / d
  let above := below + 1
  let twice := 2 * (n % d)
  let aboveFirst := twice > d || (twice == d && below % 2 == 1)
  let candidates := if aboveFirst then [above, below] else [below, above]
  candidates.find? fun digits => digits != 0 && i.holds digits exponent

/-- The shortest decimal in an interval, looked for with 1 to 17 digits. -/
def Interval.shortest (i : Interval) : Decimal :=
  let leading := i.leading
  let found := (List.range 17).findSome? fun (n : Nat) =>
    let exponent := leading - Int.ofNat n
    (i.nearest? exponent).map fun digits => Decimal.mk digits exponent
  found.getD ⟨0, 0⟩

/-- Moves zeros at the end of the digits into the exponent. -/
def trim : Nat → Decimal → Decimal
  | 0, d => d
  | steps + 1, d =>
      if d.digits % 10 = 0 && d.digits != 0 then
        trim steps ⟨d.digits / 10, d.exponent + 1⟩
      else d

/-- The sign and the shortest decimal of a finite number; 0 has no digits to
    choose. -/
def shortest (f : Float) : Bool × Decimal :=
  match Binary.ofBits f.toBits with
  | (negative, none) => (negative, ⟨0, 0⟩)
  | (negative, some b) => (negative, trim 20 b.interval.shortest)

end Decimal

end ExpiringCache
