import ExpiringCache.Proofs.Janitor.Twin

/-! # Nobody notices the janitor

    Take a cache of unbounded capacity, and two sessions in which the same
    parts of calls are carried out at the same times, while the janitor
    sweeps and ticks here and there, in the one session at other moments
    than in the other.  Then every part comes to the same: it has the same
    result or enters the same computation, the counters of hits and misses
    agree after it, and so does what is live.  Only a snapshot, which shows
    expired entries too, may show more of them in one of the sessions.

    The parts of the calls are read off both sessions together with the
    sessions that they find; between two parts nothing happens that a caller
    could notice, so the caches are twins whenever a part begins. -/

namespace ExpiringCache

variable {K V : Type}

/-- Something that happens to a cache with a janitor: a move, or a tick at
    which the janitor sweeps unless the cache is closed. -/
inductive Event (K V : Type) where
  | move (m : Move K V)
  | tick (order : VisitingOrder K)

/-- The part of a call that is carried out, if it is one that happens. -/
def Event.part? : Event K V → Option (Move K V)
  | .move (.sweep _) => none
  | .move (.setWall _) => none
  | .move m => some m
  | .tick _ => none

theorem Event.eq_of_part? {event : Event K V} {m : Move K V} (h : event.part? = some m) :
    event = .move m ∧ m.IsPart := by
  cases event with
  | move m' => cases m' with
    | begin request =>
        cases h
        exact ⟨rfl, trivial⟩
    | finish place ending =>
        cases h
        exact ⟨rfl, trivial⟩
    | resume place told =>
        cases h
        exact ⟨rfl, trivial⟩
    | sweep order => cases h
    | setWall wall => cases h
  | tick order => cases h

/-- What the caller and everybody else can see of a part of a call once it
    has been carried out. -/
structure Outcome (K V : Type) where
  /-- The part. -/
  move : Move K V
  /-- How far the call has come; absent if no call was open at the place. -/
  progress? : Option (Progress K V)
  /-- The computations that run now. -/
  computing : List (Pending K V)
  hits : Nat
  misses : Nat
  /-- The entries that are live now. -/
  live? : K → Option (Item V)

/-- Two parts come to the same, up to what a snapshot shows. -/
structure Outcome.Same (o o' : Outcome K V) : Prop where
  move : o.move = o'.move
  progress? : ¬o.move.Snapshot → o.progress? = o'.progress?
  computing : o.computing = o'.computing
  hits : o.hits = o'.hits
  misses : o.misses = o'.misses
  live? : ∀ key, o.live? key = o'.live? key

variable [DecidableEq K]

/-- A tick that visits keys in the order in which they come. -/
theorem Cache.tick_eq (c : Cache K V) :
    c.tick.2 = if c.closed then c else c.swept ⟨id, fun keys => .refl keys⟩ := by
  cases hclosed : c.closed with
  | true => simp only [tick, hclosed, if_true]
  | false => simp only [tick, hclosed, sweep, sweepAt, swept, Bool.false_eq_true, if_false]

namespace Session

/-- The session after something has happened. -/
def happen (s : Session K V) : Event K V → Session K V
  | .move m => s.step m
  | .tick order => if s.cache.closed then s else s.step (.sweep order)

/-- The parts of calls among several events, each with the session that it
    finds. -/
def parts (s : Session K V) : List (Event K V) → List (Session K V × Move K V)
  | [] => []
  | event :: rest =>
      match event.part? with
      | some m => (s, m) :: (s.happen event).parts rest
      | none => (s.happen event).parts rest

/-- What can be seen of a move. -/
def outcome (s : Session K V) (m : Move K V) : Outcome K V where
  move := m
  progress? := s.progress? m
  computing := (s.step m).computing
  hits := (s.step m).cache.counters.hits
  misses := (s.step m).cache.counters.misses
  live? := fun key => (s.step m).cache.store.live? (s.step m).cache.now key

/-- What the clock shows when the parts of the calls are carried out. -/
def times (s : Session K V) (events : List (Event K V)) : List Int :=
  (s.parts events).map fun part => part.1.cache.now

/-- What the parts of the calls come to. -/
def told (s : Session K V) (events : List (Event K V)) : List (Outcome K V) :=
  (s.parts events).map fun part => part.1.outcome part.2

/-! ## Sessions that are the same to their callers -/

/-- The same calls are open on caches that are the same. -/
structure Same (s s' : Session K V) : Prop where
  cache : s.cache.Same s'.cache
  computing : s.computing = s'.computing
  waiting : s.waiting = s'.waiting

theorem Same.symm {s s' : Session K V} (h : Same s s') : Same s' s :=
  ⟨h.cache.symm, h.computing.symm, h.waiting.symm⟩

/-- Whatever happens between the parts of calls passes unnoticed. -/
theorem Same.idle {s s' : Session K V} (h : Same s s') {event : Event K V}
    (hidle : event.part? = none) : Same (s.happen event) s' := by
  cases event with
  | move m => cases m with
    | begin request => cases hidle
    | finish place ending => cases hidle
    | resume place told => cases hidle
    | sweep order => exact ⟨h.cache.swept order, h.computing, h.waiting⟩
    | setWall wall => exact ⟨h.cache.setWall wall, h.computing, h.waiting⟩
  | tick order =>
      rw [happen]
      split
      · exact h
      · exact ⟨h.cache.swept order, h.computing, h.waiting⟩

/-! ## One part of a call -/

/-- A part of a call that is carried out at the same time on both sides comes
    to the same. -/
theorem Same.part {s s' : Session K V} (h : Same s s') (hnow : s.cache.now = s'.cache.now)
    {m : Move K V} (hpart : m.IsPart) :
    (s.outcome m).Same (s'.outcome m) ∧ Same (s.step m) (s'.step m) := by
  have htwin : Paired Cache.Twin s s' := ⟨⟨h.cache, hnow⟩, h.computing, h.waiting⟩
  obtain ⟨hprogress, hafter⟩ := htwin.step Cache.parallel_twin hpart
  exact ⟨⟨rfl, hprogress, hafter.computing, hafter.cache.hits, hafter.cache.misses,
    hafter.cache.live_eq⟩, hafter.cache.toSame, hafter.computing, hafter.waiting⟩

/-! ## All parts of all calls -/

/-- Which parts are carried out does not depend on the session. -/
theorem map_snd_parts (s : Session K V) (events : List (Event K V)) :
    (s.parts events).map Prod.snd = events.filterMap Event.part? := by
  induction events generalizing s with
  | nil => rfl
  | cons event rest ih =>
      rw [parts, List.filterMap_cons]
      cases event.part? with
      | none => exact ih (s.happen event)
      | some m => exact congrArg (m :: ·) (ih (s.happen event))

/-- The session that the first part finds differs from the session at the
    start in nothing that a caller could notice. -/
theorem parts_cons {s found : Session K V} {events : List (Event K V)} {m : Move K V}
    {rest : List (Session K V × Move K V)} (h : s.parts events = (found, m) :: rest) :
    m.IsPart ∧ (∀ s', Same s s' → Same found s') ∧
      ∃ later, rest = (found.step m).parts later := by
  induction events generalizing s with
  | nil => cases h
  | cons event later ih =>
      rw [parts] at h
      cases hpart : event.part? with
      | none =>
          simp only [hpart] at h
          obtain ⟨hm, hsame, hrest⟩ := ih h
          exact ⟨hm, fun s' hs => hsame s' (hs.idle hpart), hrest⟩
      | some m' =>
          simp only [hpart] at h
          cases h
          obtain ⟨rfl, hm⟩ := Event.eq_of_part? hpart
          exact ⟨hm, fun s' hs => hs, later, rfl⟩

theorem Same.told {s s' : Session K V} (h : Same s s') {events events' : List (Event K V)}
    (hparts : events.filterMap Event.part? = events'.filterMap Event.part?)
    (htimes : s.times events = s'.times events') :
    List.Forall₂ Outcome.Same (s.told events) (s'.told events') := by
  -- the induction is on the parts, since the events between them come in any number
  rw [← map_snd_parts s, ← map_snd_parts s'] at hparts
  rw [times, times] at htimes
  rw [Session.told, Session.told]
  generalize heq : s.parts events = parts at hparts htimes
  generalize heq' : s'.parts events' = parts' at hparts htimes
  induction parts generalizing s s' events events' parts' with
  | nil =>
      rw [List.map_nil, List.nil_eq, List.map_eq_nil_iff] at hparts
      rw [hparts]
      exact .nil
  | cons part rest ih => cases parts' with
    | nil => cases hparts
    | cons part' rest' =>
        obtain ⟨found, m⟩ := part
        obtain ⟨found', m'⟩ := part'
        rw [List.map_cons, List.map_cons, List.cons.injEq] at hparts htimes
        obtain ⟨rfl, hparts⟩ := hparts
        obtain ⟨hnow, htimes⟩ := htimes
        obtain ⟨hm, hfound, later, rfl⟩ := parts_cons heq
        obtain ⟨-, hfound', later', rfl⟩ := parts_cons heq'
        have hsame : Same found found' := hfound found' (hfound' s h.symm).symm
        obtain ⟨houtcome, hafter⟩ := hsame.part hnow hm
        exact .cons houtcome (ih hafter rfl _ rfl hparts htimes)

/-- In two sessions with caches of unbounded capacity in which the same parts
    of calls are carried out at the same times, these parts come to the same
    one by one, wherever the janitor sweeps and ticks. -/
theorem janitor_unnoticed (clock clock' : Clock) {events events' : List (Event K V)}
    (hparts : events.filterMap Event.part? = events'.filterMap Event.part?)
    (htimes : (fresh 0 clock).times events = (fresh 0 clock').times events') :
    List.Forall₂ Outcome.Same ((fresh 0 clock).told events)
      ((fresh 0 clock').told events') := by
  have hfresh : Same (fresh 0 clock : Session K V) (fresh 0 clock') :=
    ⟨Cache.same_new clock clock', rfl, rfl⟩
  exact hfresh.told hparts htimes

/-- A key is stored, expires, and is computed anew; the janitor does something
    before the computation and something during it. -/
def expiring (before during : List (Event Nat Nat)) : List (Event Nat Nat) :=
  [.move (.begin (.put 1 7 ⟨1000000000, by decide⟩)), .move (.setWall 5000)] ++ before ++
    .move (.begin (.getOrPutFrom 1 .zero true)) :: during ++
    [.move (.finish 0 (.value 8)), .move (.begin (.get 1))]

/-- In one session the expired entry stays until it is overwritten, in the
    other a sweep deletes it first and the janitor ticks once more. -/
theorem janitor_unnoticed_of_expired :
    (expiring [] []).filterMap Event.part? =
        (expiring [.move (.sweep ⟨id, fun keys => .refl keys⟩)]
          [.tick ⟨id, fun keys => .refl keys⟩]).filterMap Event.part? ∧
      (fresh 0 (.unread 100)).times (expiring [] []) =
        (fresh 0 (.unread 100)).times (expiring [.move (.sweep ⟨id, fun keys => .refl keys⟩)]
          [.tick ⟨id, fun keys => .refl keys⟩]) ∧
      List.Forall₂ Outcome.Same ((fresh 0 (.unread 100)).told (expiring [] []))
        ((fresh 0 (.unread 100)).told (expiring [.move (.sweep ⟨id, fun keys => .refl keys⟩)]
          [.tick ⟨id, fun keys => .refl keys⟩])) :=
  ⟨rfl, by decide +kernel, janitor_unnoticed _ _ rfl (by decide +kernel)⟩

end Session

end ExpiringCache
