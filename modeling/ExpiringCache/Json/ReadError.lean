import ExpiringCache.Json.Value

/-! # Reading errors

    A reader that fails says what is wrong, how much of the text remained
    where that showed, and on which path of elements and members it was
    inside the value.  Errors are of three kinds: the text breaks a rule of
    the format, it ends too early, or it is well-formed so far and not what
    was asked for. -/

namespace ExpiringCache.Json

/-- What a text can break off in. -/
inductive Unfinished where
  | value
  | list
  | object
  | string
  deriving DecidableEq, Repr

/-- What was found in the place of something else. -/
inductive Found where
  | null
  | bool (b : Bool)
  | number (n : Number)
  | string (s : String)
  | list
  | object
  deriving Repr

/-- What can be wrong with a text. -/
inductive Cause where
  | breaksOff (inside : Unfinished)
  | valueExpected
  | wordExpected
  | colonExpected
  | listGoesOn
  | objectGoesOn
  | nameExpected
  | commaTrails
  | moreFollows
  | badEscape
  | badNumber
  | numberTooGreat
  | controlCharacter
  | halfAlone
  | halfExpected
  | tooDeep
  | mistyped (found : Found) (expected : String)
  | outOfRange (i : Int) (expected : String)
  | missing (field : String)
  | repeated (field : String)
  | tooShort (length : Nat) (expected : String)
  deriving Repr

/-- The kinds of reading errors. -/
inductive ErrorKind where
  | malformed
  | endsEarly
  | unfit
  deriving DecidableEq, Repr

/-- The kind of error that a cause makes. -/
def Cause.kind : Cause → ErrorKind
  | .breaksOff _ => .endsEarly
  | .mistyped _ _ => .unfit
  | .outOfRange _ _ => .unfit
  | .missing _ => .unfit
  | .repeated _ => .unfit
  | .tooShort _ _ => .unfit
  | _ => .malformed

/-- One step on the way from a value to a part of it. -/
inductive PathStep where
  | index (i : Nat)
  | name (s : String)
  | unnamed
  deriving DecidableEq, Repr

/-- Why a text cannot be read. -/
structure ReadError where
  cause : Cause
  rest : List Char
  -- how many bytes of that had been looked at when it showed
  seen : Nat
  -- the way from the whole value to the part in which it is wrong
  path : List PathStep
  deriving Repr

/-- What a reader answers: a result and what remains of the text. -/
abbrev Reading (α : Type) := Except ReadError (α × List Char)

namespace ReadError

/-- The kind of an error. -/
def kind (e : ReadError) : ErrorKind := e.cause.kind

/-- An error that shows before the next character. -/
def before (cause : Cause) (rest : List Char) : ReadError := ⟨cause, rest, 0, []⟩

/-- An error that shows at the next character, of which one byte is enough
    to see it. -/
def atNext (cause : Cause) (rest : List Char) : ReadError := ⟨cause, rest, 1, []⟩

/-- A text that breaks off. -/
def atEnd (inside : Unfinished) : ReadError := before (.breaksOff inside) []

/-- The error seen from one step further out. -/
def within (step : PathStep) (e : ReadError) : ReadError := { e with path := step :: e.path }

end ReadError

end ExpiringCache.Json
