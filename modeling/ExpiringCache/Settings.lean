import ExpiringCache.Word

/-! # Settings

    A server takes its settings from environment variables.  A variable that
    is not set, is not text, or is not a number of the right kind counts as
    if it were absent, and each setting has a value for that case.

    A number is written in decimal digits, with as many zeros in front as
    one likes.  A plus sign may stand before it, and a minus sign if the
    setting may be negative. -/

namespace ExpiringCache

/-- What a server is told when it starts. -/
structure Settings where
  -- the number of entries that the cache holds at most; 0 for any number
  capacity : Nat
  -- the milliseconds from one sweep to the next
  sweepInterval : Nat
  port : Nat
  defaultTtl : Int
  deriving DecidableEq, Repr

namespace Settings

/-! ## Numbers -/

/-- The value of a decimal digit. -/
def digit? (c : Char) : Option Nat :=
  if '0' ≤ c && c ≤ '9' then some (c.toNat - '0'.toNat) else none

/-- The number that some digits stand for, after those that stand for `n`. -/
def digitsValue? : Nat → List Char → Option Nat
  | n, [] => some n
  | n, c :: rest =>
      match digit? c with
      | none => none
      | some d => digitsValue? (n * 10 + d) rest

/-- The number that one digit or more stand for. -/
def magnitude? : List Char → Option Nat
  | [] => none
  | cs => digitsValue? 0 cs

/-- Reads a number from 0 to `greatest`. -/
def readUnsigned (greatest : Nat) (text : String) : Option Nat :=
  let digits := match text.toList with
    | '+' :: rest => rest
    | cs => cs
  (magnitude? digits).filter fun n => n ≤ greatest

/-- Reads a number that a signed word holds. -/
def readSigned (text : String) : Option Int :=
  let number : Option Int := match text.toList with
    | '+' :: rest => (magnitude? rest).map Int.ofNat
    | '-' :: rest => (magnitude? rest).map fun n => -Int.ofNat n
    | cs => (magnitude? cs).map Int.ofNat
  number.filter fun i => Word.Fits i

/-! ## Variables -/

/-- The settings of a server that is told nothing. -/
def default : Settings := ⟨0, 1000, 3000, 0⟩

/-- The number that a variable stands for, as far as it stands for one. -/
def setting? {α : Type} (environment : String → Option ByteArray) (name : String)
    (read : String → Option α) : Option α :=
  ((environment name).bind String.fromUTF8?).bind read

/-- The settings in an environment. -/
def ofEnvironment (environment : String → Option ByteArray) : Settings where
  capacity :=
    (setting? environment "CACHE_CAPACITY" (readUnsigned Word.greatestUnsigned)).getD
      default.capacity
  sweepInterval :=
    (setting? environment "JANITOR_INTERVAL_MS" (readUnsigned Word.greatestUnsigned)).getD
      default.sweepInterval
  port := (setting? environment "SERVER_PORT" (readUnsigned 65535)).getD default.port
  defaultTtl := (setting? environment "DEFAULT_TTL_MS" readSigned).getD default.defaultTtl

end Settings

end ExpiringCache
