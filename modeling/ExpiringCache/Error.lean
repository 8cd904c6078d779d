/-! # What can go wrong

    A cache call fails with one of four errors.  Apart from errors, a
    computation that the caller handed in may panic; the panic goes through
    the call and is neither caught nor turned into an error.  And a call may
    wait for a computation that is still running: if that computation is the
    one that made the call, it waits for ever. -/

namespace ExpiringCache

/-- The failure of a caller's computation: a cause and the contexts wrapped
    around it, the innermost first. -/
structure Failure where
  cause : String
  -- what was being done, the innermost first
  contexts : List String
  deriving DecidableEq, Repr

namespace Failure

/-- The text of the outermost context, or of the cause if there is none. -/
def message (f : Failure) : String := f.contexts.getLastD f.cause

/-- The texts below the displayed one, the outermost first. -/
def causes (f : Failure) : List String := (f.cause :: f.contexts).dropLast.reverse

end Failure

/-- Why a cache call failed. -/
inductive CacheError where
  | producer (failure : Failure)
  | backend (text : String)
  | notFound (key : String)
  | invalidRequest (text : String)
  deriving DecidableEq, Repr

namespace CacheError

/-- The text shown for an error. -/
def message : CacheError → String
  | .producer failure => failure.message
  | .backend text => "Adapter error: " ++ text
  | .notFound key => "Key not found: " ++ key
  | .invalidRequest text => "Invalid request: " ++ text

/-- The status of the HTTP response that reports an error. -/
def status : CacheError → Nat
  | .producer _ => 500
  | .backend _ => 500
  | .notFound _ => 404
  | .invalidRequest _ => 400

end CacheError

/-- How a call can end without a reply. -/
inductive Fault where
  | error (e : CacheError)
  | panic (text : String)
  -- it waits for a computation that waits for it
  | stuck
  deriving DecidableEq, Repr

/-- How a computation that a caller handed in ends. -/
inductive Ending (V : Type) where
  | value (v : V)
  | nothing
  | failed (failure : Failure)
  | panicked (text : String)
  deriving DecidableEq, Repr

namespace Ending

variable {V : Type}

/-- The value, the lack of one, or the fault that the caller meets. -/
def toExcept : Ending V → Except Fault (Option V)
  | .value v => .ok (some v)
  | .nothing => .ok none
  | .failed failure => .error (.error (.producer failure))
  | .panicked text => .error (.panic text)

end Ending

end ExpiringCache
