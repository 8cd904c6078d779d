import ExpiringCache.Cache.Call
import ExpiringCache.Cache.Sweep

/-! # Scripts

    A script says what a client does, one act after another.  An act is a
    call, together with what the computation handed in with it does before
    it ends, or a command that concerns the surroundings.  What a
    computation does is a script again, carried out while its call is under
    way.

    A script can be run on anything that takes calls and commands: such a
    thing is a `Party`.  The report of a run shows for each act the result,
    the reports of what its computation did, if it ran, and a view of the
    party right after the act. -/

namespace ExpiringCache

/-- Something that scripts are run on: states `S`, commands `C` with answers
    `A`, and views `B`. -/
structure Party (S K V C A B : Type) where
  call : {R : Type} → S → Request K V → (S → (Ending V × R) × S) →
    (Except Fault (Reply K V) × Option R) × S
  command : S → C → A × S
  view : S → B

/-- Something that a client does. -/
inductive Act (K V C : Type) where
  | call (request : Request K V) (body : List (Act K V C)) (ending : Ending V)
  | command (c : C)

/-- What was seen of an act. -/
inductive Report (K V A B : Type) where
  | call (result : Except Fault (Reply K V)) (inner : Option (List (Report K V A B)))
      (after : B)
  | command (answer : A) (after : B)

namespace Party

variable {S K V C A B : Type}

mutual

/-- Carries out an act. -/
def run (p : Party S K V C A B) : Act K V C → S → Report K V A B × S
  | .call request body ending, s =>
      let ((result, inner), s) := p.call s request fun s =>
        let (reports, s) := p.runAll body s
        ((ending, reports), s)
      (.call result inner (p.view s), s)
  | .command c, s =>
      let (answer, s) := p.command s c
      (.command answer (p.view s), s)

/-- Carries out several acts, one after another. -/
def runAll (p : Party S K V C A B) : List (Act K V C) → S → List (Report K V A B) × S
  | [], s => ([], s)
  | act :: rest, s =>
      let (report, s) := p.run act s
      let (reports, s) := p.runAll rest s
      (report :: reports, s)

end

end Party

/-! ## A single cache -/

namespace Cache

/-- What can be done around a single cache. -/
inductive Command where
  | sweep
  | advance (ms : Int)
  | setWall (wall : Int)
  deriving DecidableEq, Repr

variable {K V : Type} [DecidableEq K]

/-- Carries out a command; a sweep has a report. -/
def command (c : Cache K V) : Command → Option SweepReport × Cache K V
  | .sweep =>
      let (report, c) := c.sweep
      (some report, c)
  | .advance ms => (none, { c with clock := c.clock.advance ms })
  | .setWall wall => (none, { c with clock := c.clock.setTo wall })

/-- A single cache as a party; `view` says what is shown of it. -/
def party {B : Type} (view : Cache K V → B) :
    Party (Cache K V) K V Command (Option SweepReport) B where
  call := fun c request produce => c.call request produce
  command := command
  view := view

end Cache

end ExpiringCache
