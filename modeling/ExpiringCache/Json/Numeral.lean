import ExpiringCache.Json.ReadError
import ExpiringCache.Word

/-! # Reading JSON numbers

    A numeral is first taken apart into its sign, its digits and its
    exponent, and then valued.  Digits are gathered in an unsigned 64-bit
    word.  A whole numeral that a signed or an unsigned word holds is exact.
    Otherwise the digits that the word has no room for only move the decimal
    point, and the word is multiplied or divided once by a power of ten; the
    result may differ from the nearest binary number in its last places.  A
    result beyond the greatest binary number is refused. -/

namespace ExpiringCache.Json

/-- A numeral taken apart. -/
structure Numeral where
  negative : Bool
  whole : List Nat
  fraction : Option (List Nat)
  -- the exponent with the sign of its direction, if there is one
  exponent : Option (Bool × List Nat)

namespace Numeral

/-- A decimal digit. -/
def isDigit (c : Char) : Bool := '0' ≤ c && c ≤ '9'

/-- The value of a decimal digit. -/
def digitValue (c : Char) : Nat := c.toNat - '0'.toNat

/-- The digits that a text begins with, and what follows them. -/
def digits (cs : List Char) : List Nat × List Char :=
  ((cs.takeWhile isDigit).map digitValue, cs.dropWhile isDigit)

/-! ## Taking a numeral apart -/

/-- Reads the digits before the point: 0 alone, or digits of which the first
    is not 0. -/
def readWhole : List Char → Reading (List Nat)
  | [] => .error (.atEnd .value)
  | '0' :: rest =>
      match rest with
      | c :: _ => if isDigit c then .error (.atNext .badNumber rest) else .ok ([0], rest)
      | [] => .ok ([0], [])
  | c :: rest =>
      if isDigit c then .ok (digits (c :: rest)) else .error (.atNext .badNumber (c :: rest))

/-- Reads a point and the digits behind it, if there is one. -/
def readFraction : List Char → Reading (Option (List Nat))
  | '.' :: rest =>
      match digits rest with
      | ([], []) => .error (.atEnd .value)
      | ([], rest) => .error (.atNext .badNumber rest)
      | (ds, rest) => .ok (some ds, rest)
  | rest => .ok (none, rest)

/-- Reads the digits of an exponent. -/
def readExponentDigits (negative : Bool) : List Char → Reading (Option (Bool × List Nat))
  | [] => .error (.atEnd .value)
  | c :: rest =>
      if isDigit c then
        let (ds, rest) := digits (c :: rest)
        .ok (some (negative, ds), rest)
      else .error (.atNext .badNumber (c :: rest))

/-- Reads an exponent, if there is one. -/
def readExponent : List Char → Reading (Option (Bool × List Nat))
  | [] => .ok (none, [])
  | c :: rest =>
      if c = 'e' || c = 'E' then
        match rest with
        | '+' :: rest => readExponentDigits false rest
        | '-' :: rest => readExponentDigits true rest
        | rest => readExponentDigits false rest
      else .ok (none, c :: rest)

/-- Reads a numeral whose sign has been read. -/
def read (negative : Bool) (cs : List Char) : Except ReadError (Numeral × List Char) := do
  let (whole, cs) ← readWhole cs
  let (fraction, cs) ← readFraction cs
  let (exponent, cs) ← readExponent cs
  return (⟨negative, whole, fraction, exponent⟩, cs)

/-! ## Valuing a numeral -/

/-- Appends a digit to a word; `none` if there is no room. -/
def append (word digit : Nat) : Option Nat :=
  if word * 10 + digit ≤ Word.greatestUnsigned then some (word * 10 + digit) else none

/-- Gathers the digits before the point; counts those there is no room for,
    which are the first such digit and all after it. -/
def gatherWhole : Nat → List Nat → Nat × Nat
  | word, [] => (word, 0)
  | word, d :: rest =>
      match append word d with
      | some word => gatherWhole word rest
      | none => (word, rest.length + 1)

/-- Gathers digits behind the point until there is no room; counts those
    gathered. -/
def gatherFraction : Nat → List Nat → Nat × Nat
  | word, [] => (word, 0)
  | word, d :: rest =>
      match append word d with
      | some word =>
          let (word, count) := gatherFraction word rest
          (word, count + 1)
      | none => (word, 0)

/-- The greatest power of ten among the binary numbers. -/
def greatestPower : Nat := 308

/-- The binary number nearest to a power of ten up to the greatest. -/
def power (exponent : Nat) : Float := Float.ofScientific 1 false exponent

/-- A word multiplied by a power of ten, or `none` beyond the greatest binary
    number. -/
def scale (word : Nat) (exponent : Int) : Option Float :=
  let f := word.toUInt64.toFloat
  if 0 ≤ exponent then
    if exponent.toNat ≤ greatestPower then
      let scaled := f * power exponent.toNat
      if scaled.isInf then none else some scaled
    else if word = 0 then some 0 else none
  else
    let down := exponent.natAbs
    if down ≤ greatestPower then some (f / power down)
    else if down ≤ 2 * greatestPower then
      some (f / power greatestPower / power (down - greatestPower))
    else some 0

/-- The greatest exponent that is not taken for boundless. -/
def greatestExponent : Nat := 2147483647

/-- The value of a list of digits. -/
def natValue (ds : List Nat) : Nat := ds.foldl (fun n d => n * 10 + d) 0

/-- The absolute value of a numeral as a binary number. -/
def magnitude (n : Numeral) : Option Float :=
  let (word, beyond) := gatherWhole 0 n.whole
  let (word, behind) := gatherFraction word (n.fraction.getD [])
  let point : Int := (beyond : Int) - behind
  match n.exponent with
  | none => scale word point
  | some (downwards, ds) =>
      let e := natValue ds
      if greatestExponent < e then
        if word != 0 && !downwards then none else some 0
      else if downwards then scale word (point - e)
      else scale word (point + e)

/-- The number that a numeral stands for, or `none` beyond the greatest
    binary number. -/
def value? (n : Numeral) : Option Number :=
  let binary : Option Number :=
    n.magnitude.map fun f => .binary (if n.negative then -f else f)
  match n.fraction, n.exponent with
  | none, none =>
      let i := natValue n.whole
      if n.negative then
        if 0 < i && -(i : Int) ≥ Word.least then some (.whole (-(i : Int))) else binary
      else if i ≤ Word.greatestUnsigned then some (.whole i)
      else binary
  | _, _ => binary

/-- How many digits follow the one that makes an exponent boundless, where
    the digits before it have the value `e`. -/
def digitsBeyond : Nat → List Nat → Nat
  | _, [] => 0
  | e, d :: rest =>
      if greatestExponent < e * 10 + d then rest.length else digitsBeyond (e * 10 + d) rest

/-- How many digits of a numeral need not be looked at to see that it is
    beyond the greatest binary number. -/
def unneeded (n : Numeral) : Nat :=
  match n.exponent with
  | none => 0
  | some (_, ds) => digitsBeyond 0 ds

end Numeral

/-- Reads a number whose sign has been read. -/
def readNumber (negative : Bool) (cs : List Char) :
    Except ReadError (Number × List Char) := do
  let (numeral, rest) ← Numeral.read negative cs
  match numeral.value? with
  | some number => return (number, rest)
  | none =>
      let looked := cs.length - rest.length - numeral.unneeded
      .error (.before .numberTooGreat (cs.drop looked))

end ExpiringCache.Json
