import ExpiringCache.Error

/-! # Flights: computations in progress

    While a computation for a key runs, the key is registered, and nobody
    else computes it: other callers wait for the outcome.  The caller that
    registered the key leads its flight.  The registry lists the keys of the
    flights in progress, the one that began last first. -/

namespace ExpiringCache

/-- The keys whose computations are in progress. -/
structure Flights (K : Type) where
  running : List K
  deriving DecidableEq, Repr

namespace Flights

variable {K : Type}

/-- No flight. -/
def none : Flights K := ⟨[]⟩

instance : Inhabited (Flights K) := ⟨none⟩

/-- The number of flights. -/
def count (f : Flights K) : Nat := f.running.length

variable [DecidableEq K]

/-- Whether a computation for `key` is in progress. -/
def isRunning (f : Flights K) (key : K) : Bool := f.running.contains key

/-- Registers a flight for `key`. -/
def enter (f : Flights K) (key : K) : Flights K := ⟨key :: f.running⟩

/-- Ends the flight for `key`. -/
def leave (f : Flights K) (key : K) : Flights K := ⟨f.running.erase key⟩

/-- A flight that ends leaves the registry as it found it. -/
theorem leave_enter (f : Flights K) (key : K) : (f.enter key).leave key = f := by
  simp [enter, leave]

end Flights

end ExpiringCache
