import ExpiringCache.Proofs.Computation.Flights
import Mathlib.Data.List.Perm.Basic

/-! # The flights of a session

    A flight is in progress as long as the call that leads it is open.  So at
    every moment of every session the registry lists the keys of the flights
    that open calls lead, each as often as there are such calls, and where no
    computation is running nothing is registered. -/

namespace ExpiringCache

variable {K V : Type}

/-- The key of the flight that a call leads while its computation runs. -/
def Pending.led? : Pending K V → Option K
  | .lead turn => some turn.key
  | _ => none

namespace Session

/-- The registry lists the keys of the flights that open calls lead. -/
def Led (s : Session K V) : Prop :=
  s.cache.store.flights.running.Perm (s.computing.filterMap Pending.led?)

variable {s : Session K V}

/-- A call that has registered a flight stays open to lead it. -/
theorem led_absorb {o : Progress K V × Cache K V} {flights : Flights K}
    (hled : flights.running.Perm (s.computing.filterMap Pending.led?))
    (hflights : o.2.store.flights = o.1.entered flights) : (s.absorb o).Led := by
  obtain ⟨progress, c⟩ := o
  cases progress with
  | done result =>
      show c.store.flights.running.Perm _
      rw [hflights]
      exact hled
  | waiting turn =>
      show c.store.flights.running.Perm _
      rw [hflights]
      exact hled
  | producing next =>
      show c.store.flights.running.Perm ((next :: s.computing).filterMap Pending.led?)
      rw [hflights]
      cases next with
      | store key ttl => exact hled
      | offer key ttl => exact hled
      | lead turn => exact hled.cons turn.key

variable [DecidableEq K]

/-- A call whose computation has ended no longer leads a flight. -/
theorem led_left {flights : Flights K} {place : Nat} {next : Pending K V}
    (hled : flights.running.Perm (s.computing.filterMap Pending.led?))
    (hplace : s.computing[place]? = some next) :
    (next.left flights).running.Perm ((s.computing.eraseIdx place).filterMap Pending.led?) := by
  obtain ⟨hlt, rfl⟩ := List.getElem?_eq_some_iff.mp hplace
  have hperm := (List.getElem_cons_eraseIdx_perm hlt).filterMap Pending.led?
  have hopen := hled.trans hperm.symm
  generalize s.computing[place] = next at hopen
  cases next with
  | store key ttl => exact hopen
  | offer key ttl => exact hopen
  | lead turn =>
      have hleads : (Pending.lead turn :: s.computing.eraseIdx place).filterMap Pending.led? =
          turn.key :: (s.computing.eraseIdx place).filterMap Pending.led? := rfl
      have herased := hopen.erase turn.key
      rw [hleads, List.erase_cons_head] at herased
      exact herased

/-- Every move keeps the registry in step with the open calls. -/
theorem Led.step (h : s.Led) (move : Move K V) : (s.step move).Led := by
  cases move with
  | begin request => exact led_absorb h (s.cache.flights_begin request)
  | finish place ending =>
      cases hplace : s.computing[place]? with
      | none =>
          simp only [Session.step, hplace]
          exact h
      | some next =>
          simp only [Session.step, hplace]
          refine led_absorb (led_left h hplace) ?_
          rw [s.cache.flights_finish, s.cache.entered_finish]
  | resume place told =>
      cases hplace : s.waiting[place]? with
      | none =>
          simp only [Session.step, hplace]
          exact h
      | some turn => cases told with
        | some value =>
            simp only [Session.step, hplace]
            show (s.cache.join turn value).2.store.flights.running.Perm _
            rw [Cache.join, s.cache.flights_settle]
            exact h
        | none =>
            simp only [Session.step, hplace]
            exact led_absorb h (s.cache.flights_enter turn)
  | sweep order =>
      show (s.cache.swept order).store.flights.running.Perm _
      rw [(s.cache.thins_swept order).flights]
      exact h
  | setWall wall => exact h

theorem led_run (h : s.Led) (moves : List (Move K V)) : (s.run moves).Led := by
  induction moves generalizing s with
  | nil => exact h
  | cons move rest ih => exact ih (h.step move)

/-- While no computation is running, nothing is registered. -/
theorem flights_eq_none {capacity : Nat} {clock : Clock} {moves : List (Move K V)}
    (hcomputing : ((fresh capacity clock).run moves : Session K V).computing = []) :
    ((fresh capacity clock).run moves : Session K V).cache.store.flights = .none := by
  have hfresh : (fresh capacity clock : Session K V).Led := List.Perm.refl []
  have hled := led_run hfresh moves
  rw [Led, hcomputing] at hled
  exact congrArg Flights.mk hled.eq_nil

end Session

end ExpiringCache
