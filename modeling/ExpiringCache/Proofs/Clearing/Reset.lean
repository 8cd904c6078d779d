import ExpiringCache.Proofs.Changes.Session
import ExpiringCache.Proofs.Clearing.Sweep
import ExpiringCache.Proofs.Order.Agreement
import ExpiringCache.Proofs.Session.Flights
import ExpiringCache.Proofs.Session.Parallel

/-! # A cleared cache is as good as new

    Take any session, clear the cache, and let the session go on.  Next to it,
    let a session with a new cache of the same capacity go on from there, in
    which the same computations are running.  If the same happens in both,
    and the clocks show the same at each moment, nobody can tell the two
    apart: every part of every call comes to the same, each sweep finds as
    many expired entries, and the stored items and their order of use are
    equal at every moment.  Only the counters tell what had been counted
    before, by a constant, and the first sweep finds the notices that were
    waiting when the cache was cleared. -/

namespace ExpiringCache

variable {K V : Type}

/-- The same happens; but the keys of a bucket may be visited in different
    orders, and the walls of the clocks may be set to different instants. -/
inductive Move.Like : Move K V → Move K V → Prop where
  | part {m : Move K V} (hpart : m.IsPart) : Like m m
  | sweep (order order' : VisitingOrder K) : Like (.sweep order) (.sweep order')
  | setWall (wall wall' : Int) : Like (.setWall wall) (.setWall wall')

def Move.isSweep : Move K V → Bool
  | .sweep _ => true
  | _ => false

theorem Move.IsPart.isSweep {m : Move K V} (h : m.IsPart) : m.isSweep = false := by
  cases m with
  | sweep order => exact h.elim
  | _ => rfl

namespace Session

/-- A session with a new cache, in which the same computations are running and
    the same calls are open. -/
def restarted (s : Session K V) (capacity : Nat) (clock : Clock) : Session K V :=
  { s with cache := .newAmid capacity clock s.cache.store.flights }

variable [DecidableEq K]

/-- Where no call is open, nothing is computed, and this is the session of a
    new cache in which nothing has happened. -/
theorem restarted_eq_fresh {capacity : Nat} {clock : Clock} {before : List (Move K V)}
    {s : Session K V} (hreached : s = (fresh capacity clock).run before)
    (hcomputing : s.computing = []) (hwaiting : s.waiting = []) (capacity' : Nat)
    (clock' : Clock) : s.restarted capacity' clock' = fresh capacity' clock' := by
  have hflights : s.cache.store.flights = .none := by
    subst hreached
    exact flights_eq_none hcomputing
  rw [restarted, hcomputing, hwaiting, hflights]
  rfl

/-- What the clock shows at the start and after each of several moves. -/
def readings (s : Session K V) : List (Move K V) → List Int
  | [] => [s.cache.now]
  | move :: rest => s.cache.now :: (s.step move).readings rest

/-- The session with the cleared cache cannot be told from the one with the
    new cache by anything that a caller may do next, unless by the counters,
    nor by what a sweep reports, unless by the number of notices. -/
structure LooksNew (base : Counters) (old : Nat) (s s' : Session K V) : Prop where
  answers : ∀ m : Move K V, m.IsPart → m ≠ .begin .stats → s.progress? m = s'.progress? m
  expired : earliestSweep ≤ s.cache.now → ∀ order order' : VisitingOrder K,
    (s.cache.report order).expired = (s'.cache.report order').expired
  notices : ∀ order order' : VisitingOrder K,
    (s.cache.report order).notices = old + (s'.cache.report order').notices
  store : s.cache.store = s'.cache.store
  order : s.cache.recency.map Recency.keys = s'.cache.recency.map Recency.keys
  counters : s.cache.counters = base.plus s'.cache.counters
  computing : s.computing = s'.computing
  waiting : s.waiting = s'.waiting

theorem now_eq_of_readings {s s' : Session K V} {moves moves' : List (Move K V)}
    (h : s.readings moves = s'.readings moves') : s.cache.now = s'.cache.now := by
  cases moves with
  | nil => cases moves' with
    | nil => exact (List.cons.inj h).1
    | cons move' rest' => exact (List.cons.inj h).1
  | cons move rest => cases moves' with
    | nil => exact (List.cons.inj h).1
    | cons move' rest' => exact (List.cons.inj h).1

/-- Parts of calls are no sweeps. -/
theorem sweepTimes_of_part (s : Session K V) {m : Move K V} (hpart : m.IsPart) :
    s.sweepTimes [m] = [] := by
  cases m with
  | sweep order => exact hpart.elim
  | _ => rfl

/-! ## What is kept up -/

/-- The caches are renewed and the same calls are open; on both sides the
    janitor knows of all changes. -/
structure Reset (base : Counters) (old : List (Notice K)) (s s' : Session K V) : Prop where
  paired : Paired (Cache.Renewed base old) s s'
  kept : s.Kept
  kept' : s'.Kept
  agrees : ∃ capacity, s.cache.Agrees capacity

namespace Reset

variable {base : Counters} {old : List (Notice K)} {s s' : Session K V}

theorem looksNew (h : Reset base old s s') : LooksNew base old.length s s' where
  answers := by
    intro m hpart hstats
    obtain ⟨hprogress, -⟩ := h.paired.step (Cache.parallel_renewed base old) hpart
    by_cases hsnapshot : m.Snapshot
    · cases m with
      | begin request =>
          have hrequest : request ≠ .stats := by
            rintro rfl
            exact hstats rfl
          exact congrArg some (h.paired.cache.begin_snapshot hsnapshot hrequest)
      | _ => exact hsnapshot.elim
    · exact hprogress hsnapshot
  expired := by
    intro hnow order order'
    obtain ⟨capacity, hagrees⟩ := h.agrees
    exact (h.paired.cache.swept hagrees h.kept.filed h.kept'.filed hnow order order').1
  notices := h.paired.cache.notices_report
  store := h.paired.cache.store
  order := h.paired.cache.recency
  counters := h.paired.cache.counters
  computing := h.paired.computing
  waiting := h.paired.waiting

/-- The same move on both sides, at the same time, keeps everything up; a
    sweep takes the old notices away. -/
theorem step (h : Reset base old s s') {m m' : Move K V} (hlike : m.Like m') (hdirect : m.Direct)
    (hearly : ∀ time ∈ s.sweepTimes [m], earliestSweep ≤ time)
    (hnow : (s.step m).cache.now = (s'.step m').cache.now) :
    Reset base (if m.isSweep then [] else old) (s.step m) (s'.step m') := by
  obtain ⟨capacity, hagrees⟩ := h.agrees
  have hagrees' := agrees_step hagrees hdirect
  have hkept := h.kept.step hearly
  have hcache := h.paired.cache
  cases hlike with
  | part hpart =>
      have hkept' : (s'.step m).Kept := by
        apply h.kept'.step
        rw [sweepTimes_of_part s' hpart]
        exact fun _ hmem => nomatch hmem
      rw [hpart.isSweep]
      exact ⟨(h.paired.step (Cache.parallel_renewed base old) hpart).2, hkept, hkept',
        capacity, hagrees'⟩
  | sweep order order' =>
      have hstart : earliestSweep ≤ s.cache.now := hearly s.cache.now List.mem_cons_self
      have hkept' : (s'.step (.sweep order')).Kept := by
        apply h.kept'.step
        intro time hmem
        rw [List.mem_singleton.mp hmem, ← hcache.now]
        exact hstart
      obtain ⟨-, hswept⟩ := hcache.swept hagrees h.kept.filed h.kept'.filed hstart order order'
      exact ⟨⟨hswept, h.paired.computing, h.paired.waiting⟩, hkept, hkept', capacity, hagrees'⟩
  | setWall wall wall' =>
      have hkept' : (s'.step (.setWall wall')).Kept := h.kept'.step fun _ hmem => nomatch hmem
      exact ⟨⟨hcache.setTo hnow, h.paired.computing, h.paired.waiting⟩, hkept, hkept', capacity,
        hagrees'⟩

/-- Everything is kept up as long as the same happens on both sides. -/
theorem run (h : Reset base old s s') {moves moves' : List (Move K V)}
    (hlike : List.Forall₂ Move.Like moves moves') (hdirect : ∀ m ∈ moves, m.Direct)
    (hearly : ∀ time ∈ s.sweepTimes moves, earliestSweep ≤ time)
    (htimes : s.readings moves = s'.readings moves') :
    Reset base (if moves.any Move.isSweep then [] else old) (s.run moves) (s'.run moves') := by
  induction hlike generalizing s s' old with
  | nil => exact h
  | @cons m m' rest rest' hfirst hrest ih =>
      rw [sweepTimes_cons] at hearly
      rw [readings, readings, List.cons.injEq] at htimes
      obtain ⟨-, htimes⟩ := htimes
      have hstep := h.step hfirst (hdirect m List.mem_cons_self)
        (fun time hmem => hearly time (List.mem_append_left _ hmem))
        (now_eq_of_readings htimes)
      have hrun := ih hstep (fun m' hmem => hdirect m' (List.mem_cons_of_mem m hmem))
        (fun time hmem => hearly time (List.mem_append_right _ hmem)) htimes
      rw [List.any_cons]
      cases hsweep : m.isSweep with
      | true =>
          rw [hsweep, if_pos rfl, ite_self] at hrun
          exact hrun
      | false =>
          rw [hsweep, if_neg Bool.false_ne_true] at hrun
          exact hrun

end Reset

/-! ## Clearing -/

theorem bounded_run {s : Session K V} (h : s.Bounded) (moves : List (Move K V)) :
    (s.run moves).Bounded := by
  induction moves generalizing s with
  | nil => exact h
  | cons move rest ih => exact ih (step_cases h move).1

/-- Right after the cache was cleared. -/
theorem reset_clear {s : Session K V} (hcalls : s.Bounded) (hranked : s.cache.Ranked)
    {clock : Clock} (hnow : s.cache.now = clock.now) :
    Reset s.cache.counters s.cache.notices.waiting (s.step (.begin .clear))
      (s.restarted s.cache.capacity clock) where
  paired := ⟨Cache.renewed_clear hranked hnow, rfl, rfl⟩
  kept := by
    refine ⟨.clear _ s.cache, ?_, ⟨hcalls.computing, hcalls.waiting⟩⟩
    intro key expireAt hkey
    exact nomatch hkey
  kept' := by
    have hnew := (kept_fresh s.cache.capacity clock : (fresh _ _ : Session K V).Kept)
    have hflown := (fresh s.cache.capacity clock : Session K V).cache.noted_flights
      s.cache.store.flights
    exact ⟨hnew.filed.noted hflown, hflown.bounded hnew.items,
      ⟨hcalls.computing, hcalls.waiting⟩⟩
  agrees := by
    -- before it was cleared, the store and the recency list need not have agreed
    obtain ⟨ks, hranks⟩ := hranked
    have hstored : ∀ key : K, key ∈ [] ↔ (s.cache.clear.store.item? key).isSome = true :=
      fun key => ⟨fun hmem => (nomatch hmem), fun hsome => (nomatch hsome)⟩
    exact ⟨s.cache.capacity, [], rfl, List.nodup_nil, hstored, hranks.clear,
      fun _ => Nat.zero_le _⟩

/-- Clear the cache at any moment of any session, and let a session with a new
    cache of the same capacity begin with what is computed then.  As long as
    nobody goes on after having waited, and no sweep comes too early, what
    happens in both at the same times comes to the same: the cleared cache
    looks new at every moment.  It differs by what it had counted, and the
    first sweep reports the notices that it still had. -/
theorem clear_looksNew {capacity : Nat} {clock clock' : Clock} {before : List (Move K V)}
    {s : Session K V} (hreached : s = (fresh capacity clock).run before)
    {later later' : List (Move K V)} (hlike : List.Forall₂ Move.Like later later')
    (hdirect : ∀ m ∈ later, m.Direct)
    (hearly : ∀ time ∈ (s.step (.begin .clear)).sweepTimes later, earliestSweep ≤ time)
    (htimes : (s.step (.begin .clear)).readings later =
      (s.restarted capacity clock').readings later') :
    LooksNew s.cache.counters (if later.any Move.isSweep then 0 else s.cache.notices.size)
      ((s.step (.begin .clear)).run later) ((s.restarted capacity clock').run later') := by
  have hcapacity : s.cache.capacity = capacity := by
    rw [hreached]
    exact capacity_run _ before
  have hcalls : s.Bounded := by
    rw [hreached]
    exact bounded_run (kept_fresh capacity clock).calls before
  have hranked : s.cache.Ranked := by
    rw [hreached]
    exact ranked_run (Cache.ranked_new capacity clock) before
  rw [← hcapacity] at htimes ⊢
  have hnow : s.cache.now = clock'.now := now_eq_of_readings htimes
  have hrun := (reset_clear hcalls hranked hnow).run hlike hdirect hearly htimes
  have hlooks := hrun.looksNew
  rw [apply_ite List.length] at hlooks
  exact hlooks

/-- A session that leaves old notices, freed slots and an evicted key
    behind. -/
def worn : Session Nat Nat :=
  (fresh 2 (.unread 20000)).run
    [.begin (.put 1 10 ⟨5000000000, by decide⟩), .begin (.put 2 20 .zero), .begin (.remove [1]),
      .begin (.put 1 11 ⟨7000000000, by decide⟩), .begin (.put 3 30 .zero)]

/-- A key is stored with another expiry than before, and expires. -/
def rewriting (order : VisitingOrder Nat) : List (Move Nat Nat) :=
  [.begin (.put 1 12 ⟨2000000000, by decide⟩), .begin (.put 2 21 .zero), .setWall 24000,
    .sweep order, .begin (.get 1), .begin (.putIfAbsentFrom 3 .zero true), .finish 0 (.value 31),
    .sweep order]

theorem like_rewriting (order order' : VisitingOrder Nat) :
    List.Forall₂ Move.Like (rewriting order) (rewriting order') :=
  .cons (.part trivial) (.cons (.part trivial) (.cons (.setWall _ _) (.cons (.sweep _ _)
    (.cons (.part trivial) (.cons (.part trivial) (.cons (.part trivial)
      (.cons (.sweep _ _) .nil)))))))

/-- The old notices are about keys that are stored anew. -/
theorem clear_looksNew_of_worn :
    LooksNew ⟨0, 0, 1, 0⟩ 0
      ((worn.step (.begin .clear)).run (rewriting ⟨id, fun keys => .refl keys⟩))
      ((fresh 2 (.unread 20000)).run (rewriting ⟨List.reverse, List.reverse_perm⟩)) := by
  have hdirect : ∀ m ∈ rewriting ⟨id, fun keys => .refl keys⟩, m.Direct := by
    intro m hmem
    simp only [rewriting, List.mem_cons, List.not_mem_nil, or_false] at hmem
    rcases hmem with rfl | rfl | rfl | rfl | rfl | rfl | rfl | rfl
    all_goals trivial
  have hlooks : LooksNew worn.cache.counters _ _
      ((worn.restarted 2 (.unread 20000)).run (rewriting ⟨List.reverse, List.reverse_perm⟩)) :=
    clear_looksNew rfl (like_rewriting _ _) hdirect (by decide +kernel) (by decide +kernel)
  have hfresh : worn.restarted 2 (.unread 20000) = fresh 2 (.unread 20000) :=
    restarted_eq_fresh rfl rfl rfl 2 (.unread 20000)
  rw [hfresh] at hlooks
  exact hlooks

end Session

end ExpiringCache
