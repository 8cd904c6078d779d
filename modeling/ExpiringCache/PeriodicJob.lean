import ExpiringCache.Cache.Sweep

/-! # Periodic jobs

    A timer lets a job tick again and again until the job says that it is to
    stop, or somebody aborts it.  A job that is finished does not tick any
    more.  When exactly it ticks is not fixed here, only what its ticks
    do. -/

namespace ExpiringCache

/-- A periodic job with a state. -/
structure PeriodicJob (S : Type) where
  state : S
  ticks : Nat
  finished : Bool

namespace PeriodicJob

variable {S : Type}

/-- A job that has not ticked. -/
def start (state : S) : PeriodicJob S := ⟨state, 0, false⟩

/-- One tick, where `step` is what the job does. -/
def tick (step : S → Control × S) (job : PeriodicJob S) : PeriodicJob S :=
  if job.finished then job
  else
    let (control, state) := step job.state
    ⟨state, job.ticks + 1, control = .stop⟩

/-- Up to `count` ticks; none follows once `settled` holds of the state. -/
def tickUntil (step : S → Control × S) (settled : S → Bool) :
    Nat → PeriodicJob S → PeriodicJob S
  | 0, job => job
  | count + 1, job =>
      if settled job.state then job else tickUntil step settled count (job.tick step)

/-- Takes the job off the timer. -/
def abort (job : PeriodicJob S) : PeriodicJob S := { job with finished := true }

end PeriodicJob

end ExpiringCache
