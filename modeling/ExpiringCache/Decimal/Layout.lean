import ExpiringCache.Decimal.Shortest

/-! # Writing decimals

    A decimal is written either positionally, with a point somewhere among
    its digits and zeros filled in, or with one digit before the point and
    an exponent.  Which of them is used depends on the exponent of the
    leading digit alone. -/

namespace ExpiringCache.Decimal

/-- The choices of a way to write decimals. -/
structure Layout where
  leastPositional : Int
  greatestPositional : Int
  -- what follows a whole number that is written positionally
  wholeEnding : String
  exponentMark : String
  positiveSign : String

/-- `count` zeros. -/
def zeros (count : Nat) : String := String.ofList (List.replicate count '0')

/-- The digits of a decimal. -/
def digitText (d : Decimal) : List Char := Nat.toDigits 10 d.digits

/-- The exponent of the leading digit. -/
def leadingExponent (d : Decimal) : Int := d.exponent + (digitText d).length - 1

/-- Writes a decimal positionally. -/
def positional (layout : Layout) (d : Decimal) : String :=
  let digits := digitText d
  let whole := d.exponent + digits.length
  if 0 ≤ d.exponent then
    String.ofList digits ++ zeros d.exponent.toNat ++ layout.wholeEnding
  else if 0 < whole then
    String.ofList (digits.take whole.toNat) ++ "." ++ String.ofList (digits.drop whole.toNat)
  else
    "0." ++ zeros (-whole).toNat ++ String.ofList digits

/-- Writes a decimal with an exponent. -/
def scientific (layout : Layout) (d : Decimal) : String :=
  let mantissa := match digitText d with
    | [] => ""
    | [digit] => String.ofList [digit]
    | digit :: rest => String.ofList (digit :: '.' :: rest)
  let sign := if 0 ≤ d.leadingExponent then layout.positiveSign else "-"
  mantissa ++ layout.exponentMark ++ sign ++ toString d.leadingExponent.natAbs

/-- Writes the shortest decimal of a finite number. -/
def Layout.write (layout : Layout) (f : Float) : String :=
  let (negative, d) := shortest f
  let leading := d.leadingExponent
  let magnitude :=
    if layout.leastPositional ≤ leading && leading ≤ layout.greatestPositional then
      positional layout d
    else scientific layout d
  if negative then "-" ++ magnitude else magnitude

end ExpiringCache.Decimal
