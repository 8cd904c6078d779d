import ExpiringCache.Proofs.Cache.Calls
import ExpiringCache.Proofs.Janitor.Sweep

/-! # Sessions

    A session is all that happens to one cache: calls of any number of
    callers, sweeps, and movements of the wall clock, in any order.  A call
    whose computation is running, or that waits for a flight, stays open
    while other things happen; any of the open calls may go on next, whatever
    its computation or the awaited flight has come to.

    Two things hold of a cache at every moment of every session: the janitor
    knows of all changes, and no item expires after `never`. -/

namespace ExpiringCache

variable {K V : Type}

/-- An order in which the keys of a bucket are visited. -/
structure VisitingOrder (K : Type) where
  /-- The keys, in the order in which they are visited. -/
  arrange : List K → List K
  /-- No key is left out, and none is visited twice. -/
  perm : ∀ keys, (arrange keys).Perm keys

/-- The cache after a sweep that visits keys in the given order. -/
@[irreducible]
def Cache.swept [DecidableEq K] (c : Cache K V) (order : VisitingOrder K) : Cache K V :=
  (c.read.sweepWith order.arrange c.now).2

/-- A sweep reads the clock. -/
theorem Cache.clock_swept [DecidableEq K] (c : Cache K V) (order : VisitingOrder K) :
    (c.swept order).clock = c.clock.read := by
  have hidle := Cache.idle_sweepWith order.arrange c.read c.now
  rw [Cache.idle, Prod.mk.injEq] at hidle
  rw [Cache.swept]
  exact hidle.2

/-- A cache with the calls that have begun and are not over. -/
structure Session (K V : Type) where
  /-- The cache. -/
  cache : Cache K V
  /-- The calls whose computations are running. -/
  computing : List (Pending K V)
  /-- The calls that wait for a flight. -/
  waiting : List (Turn K V)

/-- Something that happens to a cache. -/
inductive Move (K V : Type) where
  /-- A call begins. -/
  | begin (request : Request K V)
  /-- The computation of the open call at a place ends. -/
  | finish (place : Nat) (ending : Ending V)
  /-- The waiting call at a place is told what its flight came to, unless
      that failed. -/
  | resume (place : Nat) (told : Option (Option V))
  /-- The janitor sweeps. -/
  | sweep (order : VisitingOrder K)
  /-- The wall clock is set. -/
  | setWall (wall : Int)

namespace Session

/-- A session with a new cache. -/
def fresh (capacity : Nat) (clock : Clock) : Session K V := ⟨.new capacity clock, [], []⟩

/-- The session after a part of a call has been carried out. -/
def absorb (s : Session K V) : Progress K V × Cache K V → Session K V
  | (.done _, c) => { s with cache := c }
  | (.producing next, c) => { s with cache := c, computing := next :: s.computing }
  | (.waiting turn, c) => { s with cache := c, waiting := s.waiting ++ [turn] }

variable [DecidableEq K]

/-- The session after a move.  Nothing happens at a place where no call is
    open. -/
def step (s : Session K V) : Move K V → Session K V
  | .begin request => s.absorb (s.cache.begin request)
  | .finish place ending =>
      match s.computing[place]? with
      | none => s
      | some next =>
          absorb { s with computing := s.computing.eraseIdx place }
            (s.cache.finish next ending)
  | .resume place told =>
      match s.waiting[place]?, told with
      | none, _ => s
      | some turn, some value =>
          { s with
            cache := (s.cache.join turn value).2
            waiting := s.waiting.eraseIdx place }
      | some turn, none =>
          absorb { s with waiting := s.waiting.eraseIdx place } (s.cache.enter turn)
  | .sweep order =>
      { s with cache := s.cache.swept order }
  | .setWall wall => { s with cache := { s.cache with clock := s.cache.clock.setTo wall } }

/-- The session after several moves. -/
def run (s : Session K V) (moves : List (Move K V)) : Session K V := moves.foldl step s

/-- What the clock shows at the sweeps among several moves. -/
def sweepTimes (s : Session K V) : List (Move K V) → List Int
  | [] => []
  | .sweep order :: rest => s.cache.now :: (s.step (.sweep order)).sweepTimes rest
  | move :: rest => (s.step move).sweepTimes rest

theorem run_append (s : Session K V) (moves more : List (Move K V)) :
    s.run (moves ++ more) = (s.run moves).run more :=
  List.foldl_append

theorem sweepTimes_append (s : Session K V) (moves more : List (Move K V)) :
    s.sweepTimes (moves ++ more) = s.sweepTimes moves ++ (s.run moves).sweepTimes more := by
  induction moves generalizing s with
  | nil => rfl
  | cons move rest ih => cases move with
    | sweep order => exact congrArg (s.cache.now :: ·) (ih _)
    | begin request => exact ih _
    | finish place ending => exact ih _
    | resume place told => exact ih _
    | setWall wall => exact ih _

/-- The sweeps of a run that begins with a move are those of the move and
    those of the rest. -/
theorem sweepTimes_cons (s : Session K V) (move : Move K V) (rest : List (Move K V)) :
    s.sweepTimes (move :: rest) = s.sweepTimes [move] ++ (s.step move).sweepTimes rest :=
  s.sweepTimes_append [move] rest

/-! ## What moves do to the cache -/

/-- What a move other than a sweep does to the cache: changes that leave
    their notices, clearing it, or setting its clock. -/
inductive Alters : Cache K V → Cache K V → Prop where
  | noted {c c' : Cache K V} (h : c.Noted c') : Alters c c'
  | cleared (c : Cache K V) : Alters c c.clear
  | timed (c : Cache K V) (clock : Clock) : Alters c { c with clock := clock }

/-- The open calls have fixed no expiry beyond `never`. -/
structure Bounded (s : Session K V) : Prop where
  computing : ∀ next ∈ s.computing, next.Bounded
  waiting : ∀ turn ∈ s.waiting, turn.Bounded

omit [DecidableEq K] in
/-- A call that stays open is one more bounded call. -/
theorem Bounded.absorb {s : Session K V} (h : s.Bounded) {progress : Progress K V}
    (hp : progress.Bounded) (c : Cache K V) : (s.absorb (progress, c)).Bounded := by
  cases progress with
  | done result => exact ⟨h.computing, h.waiting⟩
  | producing next =>
      refine ⟨fun next' hmem => ?_, h.waiting⟩
      rcases List.mem_cons.mp hmem with rfl | hmem
      · exact hp
      · exact h.computing next' hmem
  | waiting turn =>
      refine ⟨h.computing, fun turn' hmem => ?_⟩
      rcases List.mem_append.mp hmem with hmem | hmem
      · exact h.waiting turn' hmem
      · rw [List.mem_singleton.mp hmem]
        exact hp

omit [DecidableEq K] in
theorem cache_absorb (s : Session K V) (o : Progress K V × Cache K V) :
    (s.absorb o).cache = o.2 := by
  obtain ⟨progress, c⟩ := o
  cases progress with
  | done result => rfl
  | producing next => rfl
  | waiting turn => rfl

/-- The parts of calls keep the open calls bounded, and except for clearing the
    cache they leave the notices of their changes. -/
theorem noted_step {s : Session K V} (h : s.Bounded) {move : Move K V}
    (hclear : move ≠ .begin .clear) (hsweep : ∀ order, move ≠ .sweep order)
    (hwall : ∀ wall, move ≠ .setWall wall) :
    (s.step move).Bounded ∧ s.cache.Noted (s.step move).cache := by
  cases move with
  | begin request =>
      have hrequest : request ≠ .clear := fun e => hclear (congrArg Move.begin e)
      obtain ⟨hnoted, hbounded⟩ := s.cache.noted_begin hrequest
      refine ⟨h.absorb hbounded _, ?_⟩
      show s.cache.Noted (s.absorb (s.cache.begin request)).cache
      rw [cache_absorb]
      exact hnoted
  | finish place ending =>
      cases hplace : s.computing[place]? with
      | none =>
          simp only [step, hplace]
          exact ⟨h, .refl _⟩
      | some next =>
          simp only [step, hplace]
          obtain ⟨hnoted, hbounded⟩ :=
            s.cache.noted_finish (h.computing next (List.mem_of_getElem? hplace)) ending
          have hrest : Bounded { s with computing := s.computing.eraseIdx place } :=
            ⟨fun next' hmem => h.computing next' (List.mem_of_mem_eraseIdx hmem), h.waiting⟩
          refine ⟨hrest.absorb hbounded _, ?_⟩
          rw [cache_absorb]
          exact hnoted
  | resume place told =>
      -- a call that is told a value ends; one that is told nothing enters the flight anew
      cases hplace : s.waiting[place]? with
      | none =>
          simp only [step, hplace]
          exact ⟨h, .refl _⟩
      | some turn =>
          have hrest : ∀ turn' ∈ s.waiting.eraseIdx place, turn'.Bounded :=
            fun turn' hmem => h.waiting turn' (List.mem_of_mem_eraseIdx hmem)
          cases told with
          | some value =>
              simp only [step, hplace]
              exact ⟨⟨h.computing, hrest⟩, s.cache.noted_join turn value⟩
          | none =>
              simp only [step, hplace]
              obtain ⟨hnoted, hbounded⟩ :=
                s.cache.noted_enter (h.waiting turn (List.mem_of_getElem? hplace))
              have hs : Bounded { s with waiting := s.waiting.eraseIdx place } :=
                ⟨h.computing, hrest⟩
              refine ⟨hs.absorb hbounded _, ?_⟩
              rw [cache_absorb]
              exact hnoted
  | sweep order => exact absurd rfl (hsweep order)
  | setWall wall => exact absurd rfl (hwall wall)

/-- Every move keeps the open calls bounded, and every move but a sweep
    alters the cache in one of the three ways. -/
theorem step_cases {s : Session K V} (h : s.Bounded) (move : Move K V) :
    (s.step move).Bounded ∧
      ((∃ order, move = .sweep order) ∨
        s.sweepTimes [move] = [] ∧ Alters s.cache (s.step move).cache) := by
  cases move with
  | begin request =>
      -- clearing the cache takes the notices and the index away together, and leaves no notice
      by_cases hclear : request = .clear
      · subst hclear
        have hdone : (Progress.reply .done : Progress K V).Bounded := trivial
        exact ⟨h.absorb hdone _, Or.inr ⟨rfl, .cleared s.cache⟩⟩
      · obtain ⟨hbounded, hnoted⟩ :=
          noted_step h (fun e => hclear (Move.begin.inj e)) nofun nofun
        exact ⟨hbounded, Or.inr ⟨rfl, .noted hnoted⟩⟩
  | finish place ending =>
      have hnext : (s.step (.finish place ending)).Bounded ∧
          s.cache.Noted (s.step (.finish place ending)).cache :=
        noted_step h nofun nofun nofun
      exact ⟨hnext.1, Or.inr ⟨rfl, .noted hnext.2⟩⟩
  | resume place told =>
      have hnext : (s.step (.resume place told)).Bounded ∧
          s.cache.Noted (s.step (.resume place told)).cache :=
        noted_step h nofun nofun nofun
      exact ⟨hnext.1, Or.inr ⟨rfl, .noted hnext.2⟩⟩
  | sweep order => exact ⟨⟨h.computing, h.waiting⟩, Or.inl ⟨order, rfl⟩⟩
  | setWall wall => exact ⟨⟨h.computing, h.waiting⟩, Or.inr ⟨rfl, .timed s.cache _⟩⟩

end Session

end ExpiringCache
