import ExpiringCache.Flight

/-! # Nested flights

    A computation may itself ask for further computations before it ends.
    A `Job` is such a computation: its key, the jobs that it does first, one
    after another, and its ending.  Running a job on one thread takes a
    flight for its key around all of that. -/

namespace ExpiringCache

/-- A computation for a key that does other jobs before it ends. -/
inductive Job (K V : Type) where
  | mk (key : K) (inner : List (Job K V)) (ending : Ending V)

/-- What was seen of a job. -/
inductive JobReport (V : Type) where
  -- what the caller got, the number of flights when the computation began (`none` if it did
  -- not run), the number when the call had returned, and the reports of the inner jobs
  | mk (result : Except Fault (Option V)) (during : Option Nat) (after : Nat)
      (inner : List (JobReport V))

namespace Job

variable {K V : Type} [DecidableEq K]

mutual

/-- Does a job: takes a flight for its key, does the inner jobs, ends. -/
def run : Job K V → Flights K → JobReport V × Flights K
  | ⟨key, inner, ending⟩, flights =>
      if flights.isRunning key then
        (⟨.error .stuck, none, flights.count, []⟩, flights)
      else
        let entered := flights.enter key
        let (reports, later) := runAll inner entered
        let left := later.leave key
        (⟨ending.toExcept, some entered.count, left.count, reports⟩, left)

/-- Does several jobs, one after another. -/
def runAll : List (Job K V) → Flights K → List (JobReport V) × Flights K
  | [], flights => ([], flights)
  | job :: rest, flights =>
      let (report, flights) := run job flights
      let (reports, flights) := runAll rest flights
      (report :: reports, flights)

end

end Job

end ExpiringCache
