import ExpiringCache.Proofs.Janitor.Session
import Mathlib.Logic.Function.Basic

/-! # Callers that race for a flight

    Any number of callers ask one cache for computed values that never
    expire, each under the flight of its key, all at once.  `Cache.call`
    carries out such a call of a caller that is alone; here every call is cut
    into the pieces that nobody can interrupt, and the callers take turns
    piece by piece in any order.

    A caller that finds its key registered waits until the leader of that
    flight publishes what it has come to.  A leader ends its flight in two
    pieces: first it takes the key out of the registry, then it publishes.
    In between, a caller that comes late finds the key free and leads a
    flight of its own, while those who waited before are still waiting.

    Since a caller leads at most once, a flight is named after its leader.
    What happens is written down in a log, the latest first. -/

namespace ExpiringCache

/-- What those who wait for a leader are told. -/
inductive Signal (V : Type) where
  | pending
  | landed (value : Option V)
  | failed

/-- Where a caller is in its call.  A landing is what a leader has come to: a
    value and whether this call stored it, or a fault. -/
inductive Phase (I V : Type) where
  -- the call has not begun
  | idle
  -- the key was not live; the registry comes next
  | missed
  | waits (leader : I)
  -- it has registered its flight; it will look again whether the key is live
  | leads
  | ready
  | computes
  | stores (value : V)
  -- its flight is over; it will take the key out of the registry
  | leaves (landing : Except Fault (Option V × Bool))
  | publishes (landing : Except Fault (Option V × Bool))
  -- it will leave a notice if it has stored something, and return
  | settles (landing : Except Fault (Option V × Bool))
  | done (result : Except Fault (Option V))

/-- Something that a caller has done. -/
inductive Happening (I V : Type) where
  | began (i : I)
  | started (i : I)
  | ended (i : I) (ending : Ending V)
  | left (i : I)
  | returned (i : I) (result : Except Fault (Option V))

/-- What waiters are told of a landing. -/
def Signal.ofLanding {V : Type} : Except Fault (Option V × Bool) → Signal V
  | .ok (value, _) => .landed value
  | .error _ => .failed

namespace Phase

variable {I V : Type}

/-- Its flight is registered. -/
def registered : Phase I V → Bool
  | leads => true
  | ready => true
  | computes => true
  | stores _ => true
  | leaves _ => true
  | _ => false

/-- It has yet to publish what its flight comes to. -/
def leading : Phase I V → Bool
  | publishes _ => true
  | phase => phase.registered

/-- What a leader does once its computation has ended. -/
def ofEnding (ending : Ending V) : Phase I V :=
  match ending.toExcept with
  | .ok (some value) => stores value
  | .ok none => leaves (.ok (none, false))
  | .error fault => leaves (.error fault)

/-- Who is registered leads a flight. -/
theorem leading_of_registered {phase : Phase I V} (h : phase.registered = true) :
    phase.leading = true := by
  cases phase <;> first | rfl | cases h

@[simp] theorem registered_ofEnding (ending : Ending V) :
    (ofEnding ending : Phase I V).registered = true := by
  cases ending <;> rfl

theorem ofEnding_ne_waits (ending : Ending V) (leader : I) :
    (ofEnding ending : Phase I V) ≠ waits leader := by
  intro h
  have hregistered := registered_ofEnding (I := I) ending
  rw [h] at hregistered
  cases hregistered

end Phase

/-- A cache with those who race for it. -/
structure Race (I K V : Type) where
  cache : Cache K V
  -- who leads the flight of a key
  registry : K → Option I
  phase : I → Phase I V
  signal : I → Signal V
  log : List (Happening I V)

/-- The turn of one of these callers. -/
def Turn.forGood {K V : Type} (key : K) : Turn K V := ⟨key, .produced, some never, false⟩

/-- What is left to do to the cache when a call under a flight returns: leave
    a notice if it has stored something, and mark the key as used if it has a
    value. -/
def Cache.wrapUp {K V : Type} [DecidableEq K] (c : Cache K V) (key : K) :
    Except Fault (Option V × Bool) → Cache K V
  | .ok (value, stored) => (c.settle (.forGood key) value stored).2
  | .error _ => c

namespace Race

variable {I K V : Type}

/-- A new cache for any number of entries, and nobody who has begun. -/
def start (clock : Clock) : Race I K V where
  cache := .new 0 clock
  registry := fun _ => none
  phase := fun _ => .idle
  signal := fun _ => .pending
  log := []

/-- Writes something down. -/
def note (s : Race I K V) (what : Happening I V) : Race I K V := { s with log := what :: s.log }

variable [DecidableEq I]

/-- Moves a caller on. -/
def become (s : Race I K V) (i : I) (phase : Phase I V) : Race I K V :=
  { s with phase := Function.update s.phase i phase }

/-- Ends a call. -/
def answer (s : Race I K V) (i : I) (result : Except Fault (Option V)) : Race I K V :=
  (s.note (.returned i result)).become i (.done result)

/-! ## The pieces of a call -/

/-- Waits until the leader has published what it has come to; takes its
    value, or goes back to the registry if it has none because it failed. -/
def listen (s : Race I K V) (i leader : I) : Race I K V :=
  match s.signal leader with
  | .pending => s
  | .landed value => s.become i (.settles (.ok (value, false)))
  | .failed => s.become i .missed

/-- Starts the computation. -/
def compute (s : Race I K V) (i : I) : Race I K V :=
  (s.note (.started i)).become i .computes

/-- Ends the computation. -/
def conclude (s : Race I K V) (i : I) (ending : Ending V) : Race I K V :=
  (s.note (.ended i ending)).become i (.ofEnding ending)

/-- Tells those who wait what the flight has come to. -/
def publish (s : Race I K V) (i : I) (landing : Except Fault (Option V × Bool)) : Race I K V :=
  become { s with signal := Function.update s.signal i (.ofLanding landing) } i
    (.settles landing)

variable [DecidableEq K] (key : I → K)

/-- Asks the cache for the key; the call is over if the key is live. -/
def look (s : Race I K V) (i : I) : Race I K V :=
  match s.cache.get (key i) with
  | (some value, c) => answer { s.note (.began i) with cache := c } i (.ok (some value))
  | (none, c) => become { s.note (.began i) with cache := c } i .missed

/-- Registers a flight for the key. -/
def register (s : Race I K V) (i : I) : Race I K V :=
  become
    { s with
      cache :=
        { s.cache with
          store := { s.cache.store with flights := s.cache.store.flights.enter (key i) } }
      registry := Function.update s.registry (key i) (some i) }
    i .leads

/-- Looks for the key in the registry, and registers a flight for it if there
    is none. -/
def enrol (s : Race I K V) (i : I) : Race I K V :=
  match s.registry (key i) with
  | some leader => s.become i (.waits leader)
  | none => s.register key i

/-- Looks again whether the key is live, now under the flight. -/
def recheck (s : Race I K V) (i : I) : Race I K V :=
  match s.cache.read.store.live? s.cache.read.now (key i) with
  | some item =>
      become { s with cache := s.cache.read } i (.leaves (.ok (some item.value, false)))
  | none => become { s with cache := s.cache.read } i .ready

/-- Stores the value, for ever. -/
def keep (s : Race I K V) (i : I) (value : V) : Race I K V :=
  become
    { s with cache := { s.cache with store := s.cache.store.set (key i) ⟨value, never⟩ } }
    i (.leaves (.ok (some value, true)))

/-- Takes the flight of the key out of the registry, whoever leads it. -/
def leave (s : Race I K V) (i : I) (landing : Except Fault (Option V × Bool)) : Race I K V :=
  become
    { s.note (.left i) with
      cache :=
        { s.cache with
          store := { s.cache.store with flights := s.cache.store.flights.leave (key i) } }
      registry := Function.update s.registry (key i) none }
    i (.publishes landing)

/-- Returns. -/
def settle (s : Race I K V) (i : I) (landing : Except Fault (Option V × Bool)) : Race I K V :=
  answer { s with cache := s.cache.wrapUp (key i) landing } i (landing.map Prod.fst)

/-- The next piece of a call, where a computation that runs ends like that. -/
def go (s : Race I K V) (i : I) (ending : Ending V) : Race I K V :=
  match s.phase i with
  | .idle => s.look key i
  | .missed => s.enrol key i
  | .waits leader => s.listen i leader
  | .leads => s.recheck key i
  | .ready => s.compute i
  | .computes => s.conclude i ending
  | .stores value => s.keep key i value
  | .leaves landing => s.leave key i landing
  | .publishes landing => s.publish i landing
  | .settles landing => s.settle key i landing
  | .done _ => s

/-- What can happen next: a caller does the next piece of its call, the
    janitor sweeps, or the wall clock is set. -/
inductive Piece (I K V : Type) where
  | go (i : I) (ending : Ending V)
  | sweep (order : VisitingOrder K)
  | setWall (wall : Int)

/-- The race after one of these. -/
def step (s : Race I K V) : Piece I K V → Race I K V
  | .go i ending => s.go key i ending
  | .sweep order => { s with cache := s.cache.swept order }
  | .setWall wall => { s with cache := { s.cache with clock := s.cache.clock.setTo wall } }

/-- The race after several of these. -/
def run (s : Race I K V) (pieces : List (Piece I K V)) : Race I K V :=
  pieces.foldl (step key) s

variable {key} {s : Race I K V} {i : I}

omit [DecidableEq K] in
@[simp] theorem phase_become_self (s : Race I K V) (i : I) (phase : Phase I V) :
    (s.become i phase).phase i = phase := Function.update_self ..

end Race

end ExpiringCache
