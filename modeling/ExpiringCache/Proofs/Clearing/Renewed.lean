import ExpiringCache.Proofs.Cache.Parallel
import ExpiringCache.Proofs.Order.Sweep

/-! # A cleared cache next to a new one

    Clearing a cache takes its entries away, but not its notices and its
    counts, and the slots of its recency list may have been in use before.
    A cache is `Renewed` with respect to another one if it cannot be told
    from it except by these: it stores the same items, has used the same keys
    in the same order, and has counted as much more as it had counted when it
    was cleared.  Of its notices only the first ones, from before it was
    cleared, have no counterpart; and while there are such, no key has been
    filed in the other cache.

    Every step of a call that is taken on both caches keeps this. -/

namespace ExpiringCache

variable {K V : Type}

/-- What was counted in two spans of time together. -/
def Counters.plus (c d : Counters) : Counters :=
  ⟨c.hits + d.hits, c.misses + d.misses, c.evictions + d.evictions, c.expired + d.expired⟩

theorem Counters.plus_zero (c : Counters) : c.plus .zero = c := rfl

variable [DecidableEq K]

namespace Cache

/-- The first cache was cleared when it had counted `base`, and the second one
    was new then; `old` are the notices that are left from before. -/
structure Renewed (base : Counters) (old : List (Notice K)) (c c' : Cache K V) : Prop where
  capacity : c.capacity = c'.capacity
  now : c.now = c'.now
  store : c.store = c'.store
  ranks : ∃ ks, c.Ranks ks ∧ c'.Ranks ks
  counters : c.counters = base.plus c'.counters
  notices : c.notices.waiting = old ++ c'.notices.waiting
  unfiled : old = [] ∨ c'.index = .empty

/-- A new cache that takes over some flights. -/
def newAmid (capacity : Nat) (clock : Clock) (flights : Flights K) : Cache K V :=
  { (new capacity clock : Cache K V) with store := ⟨.empty, flights⟩ }

/-- A cleared cache is renewed. -/
theorem renewed_clear {c : Cache K V} (hranked : ∃ ks, c.Ranks ks) {clock : Clock}
    (hnow : c.now = clock.now) :
    Renewed c.counters c.notices.waiting c.clear
      (newAmid c.capacity clock c.store.flights) where
  capacity := rfl
  now := hnow
  store := rfl
  ranks := by
    obtain ⟨ks, hranks⟩ := hranked
    have hnew : (newAmid c.capacity clock c.store.flights : Cache K V).Ranks [] :=
      ranks_new (V := V) c.capacity clock
    exact ⟨[], hranks.clear, hnew⟩
  counters := c.counters.plus_zero.symm
  notices := (List.append_nil _).symm
  unfiled := Or.inr rfl

namespace Renewed

variable {base : Counters} {old : List (Notice K)} {c c' : Cache K V}

/-! ## What both show -/

/-- The same keys are live in both. -/
theorem live? (h : Renewed base old c c') (key : K) :
    c.store.live? c.now key = c'.store.live? c'.now key := by
  rw [h.store, h.now]

/-- The keys have been used in the same order. -/
theorem recency (h : Renewed base old c c') :
    c.recency.map Recency.keys = c'.recency.map Recency.keys := by
  obtain ⟨ks, hranks, hranks'⟩ := h.ranks
  have hcap := h.capacity
  rcases hranks with ⟨hzero, hnone⟩ | ⟨r, hpos, hsome, -, hlists⟩
  · rcases hranks' with ⟨-, hnone'⟩ | ⟨r', hpos', -, -, -⟩
    · rw [hnone, hnone']
    · exact absurd (hcap.symm.trans hzero) hpos'
  · rcases hranks' with ⟨hzero', -⟩ | ⟨r', -, hsome', -, hlists'⟩
    · exact absurd (hcap.trans hzero') hpos
    · rw [hsome, hsome', Option.map_some, Option.map_some, hlists.keys_eq, hlists'.keys_eq]

/-- The same keys fall off when a key is used. -/
theorem evicts (h : Renewed base old c c') (key : K) : c.evicts key = c'.evicts key := by
  obtain ⟨ks, hranks, hranks'⟩ := h.ranks
  rw [hranks.evicts key, hranks'.evicts key, h.capacity]

/-- A snapshot of the entries shows the same; the counts do not. -/
theorem begin_snapshot (h : Renewed base old c c') {request : Request K V}
    (hsnapshot : request.Snapshot) (hstats : request ≠ .stats) :
    (c.begin request).1 = (c'.begin request).1 := by
  cases request with
  | size => exact congrArg (fun s : Store K V => Progress.reply (.count s.size)) h.store
  | keys => exact congrArg (fun s : Store K V => Progress.reply (.keys s.keys)) h.store
  | values => exact congrArg (fun s : Store K V => Progress.reply (.values s.values)) h.store
  | data => exact congrArg (fun s : Store K V => Progress.reply (.data s.data)) h.store
  | stats => exact absurd rfl hstats
  | _ => exact hsnapshot.elim

/-! ## Steps of calls -/

/-- A step adds the same notices on both sides. -/
theorem notices_append (h : Renewed base old c c') {d d' : Cache K V} (added : List (Notice K))
    (hadded : d.notices.waiting = c.notices.waiting ++ added)
    (hadded' : d'.notices.waiting = c'.notices.waiting ++ added) :
    d.notices.waiting = old ++ d'.notices.waiting := by
  rw [hadded, hadded', h.notices, List.append_assoc]

/-- To read the clock on both sides keeps them alike. -/
theorem read (h : Renewed base old c c') : Renewed base old c.read c'.read where
  capacity := h.capacity
  now := by
    rw [now_read, now_read]
    exact h.now
  store := h.store
  ranks := h.ranks
  counters := h.counters
  notices := h.notices
  unfiled := h.unfiled

/-- Steps that count the same on both sides. -/
theorem counted (h : Renewed base old c c') {n n' : Counters} (hcounters : n = base.plus n') :
    Renewed base old { c with counters := n } { c' with counters := n' } where
  capacity := h.capacity
  now := h.now
  store := h.store
  ranks := h.ranks
  counters := hcounters
  notices := h.notices
  unfiled := h.unfiled

/-- A hit counts on both sides. -/
theorem hit (h : Renewed base old c c') :
    Renewed base old { c with counters := c.counters.hit }
      { c' with counters := c'.counters.hit } := by
  apply h.counted
  rw [h.counters]
  rfl

/-- A miss counts on both sides. -/
theorem miss (h : Renewed base old c c') :
    Renewed base old { c with counters := c.counters.miss }
      { c' with counters := c'.counters.miss } := by
  apply h.counted
  rw [h.counters]
  rfl

/-- Steps that do the same to the store. -/
theorem stored (h : Renewed base old c c') (change : Store K V → Store K V) :
    Renewed base old { c with store := change c.store }
      { c' with store := change c'.store } where
  capacity := h.capacity
  now := h.now
  store := congrArg change h.store
  ranks := h.ranks
  counters := h.counters
  notices := h.notices
  unfiled := h.unfiled

/-- What both are notified of comes behind the old notices. -/
theorem noticed (h : Renewed base old c c') (key : K) (expireAt : Int) :
    Renewed base old { c with notices := c.notices.push key expireAt }
      { c' with notices := c'.notices.push key expireAt } where
  capacity := h.capacity
  now := h.now
  store := h.store
  ranks := h.ranks
  counters := h.counters
  notices := h.notices_append [⟨key, expireAt⟩] rfl rfl
  unfiled := h.unfiled

/-- To touch a key drops the same victims on both sides. -/
theorem touch (h : Renewed base old c c') (key : K) :
    Renewed base old (c.touch key) (c'.touch key) where
  capacity := by
    rw [capacity_touch, capacity_touch]
    exact h.capacity
  now := by
    rw [now_touch, now_touch]
    exact h.now
  store := by
    rw [touch_eq, touch_eq, h.evicts key, h.store]
  ranks := by
    obtain ⟨ks, hranks, hranks'⟩ := h.ranks
    refine ⟨_, hranks.touch key, ?_⟩
    rw [h.capacity]
    exact hranks'.touch key
  counters := by
    rw [touch_eq, touch_eq, h.evicts key]
    show c.counters.evicted _ = base.plus (c'.counters.evicted _)
    rw [h.counters, Counters.evicted, Counters.plus, Counters.plus, Counters.evicted, Nat.add_assoc]
  notices := by
    refine h.notices_append _ (c.waiting_touch key) ?_
    rw [waiting_touch, h.evicts key, h.now]
  unfiled := by
    rw [index_touch]
    exact h.unfiled

/-- To remove keys deletes the same on both sides. -/
theorem remove (h : Renewed base old c c') (keys : List K) :
    Both (Renewed base old) (c.remove keys) (c'.remove keys) := by
  have hdeleted : c.store.deleteAll c.now keys = c'.store.deleteAll c'.now keys := by
    rw [h.store, h.now]
  have hdeletes : c.deletes keys = c'.deletes keys := by
    rw [deletes, deletes, hdeleted]
  refine ⟨?_, ?_⟩
  · rw [remove_eq, remove_eq, hdeleted]
  · constructor
    · rw [capacity_remove, capacity_remove]
      exact h.capacity
    · rw [now_remove, now_remove]
      exact h.now
    · rw [remove_eq, remove_eq, hdeleted]
    · obtain ⟨ks, hranks, hranks'⟩ := h.ranks
      refine ⟨_, hranks.deletes keys, ?_⟩
      rw [hdeletes]
      exact hranks'.deletes keys
    · rw [remove_eq, remove_eq]
      exact h.counters
    · refine h.notices_append _ (c.waiting_remove keys) ?_
      rw [waiting_remove, hdeletes, h.now]
    · rw [index_remove]
      exact h.unfiled

/-- To clear both leaves them alike: notices and counts stay on both sides. -/
theorem clear (h : Renewed base old c c') : Renewed base old c.clear c'.clear where
  capacity := h.capacity
  now := h.now
  store := congrArg Store.clear h.store
  ranks := by
    obtain ⟨ks, hranks, hranks'⟩ := h.ranks
    exact ⟨[], hranks.clear, hranks'.clear⟩
  counters := h.counters
  notices := h.notices
  unfiled := Or.inr rfl

theorem close (h : Renewed base old c c') : Renewed base old c.close c'.close where
  capacity := h.capacity
  now := h.now
  store := h.store
  ranks := h.ranks
  counters := h.counters
  notices := h.notices
  unfiled := h.unfiled

/-- The clocks may be set to different instants if they show the same
    then. -/
theorem setTo (h : Renewed base old c c') {wall wall' : Int}
    (hnow : (c.clock.setTo wall).now = (c'.clock.setTo wall').now) :
    Renewed base old { c with clock := c.clock.setTo wall }
      { c' with clock := c'.clock.setTo wall' } where
  capacity := h.capacity
  now := hnow
  store := h.store
  ranks := h.ranks
  counters := h.counters
  notices := h.notices
  unfiled := h.unfiled

end Renewed

/-- Every step of a call keeps two caches alike. -/
theorem parallel_renewed (base : Counters) (old : List (Notice K)) :
    Parallel (Renewed base old : Cache K V → Cache K V → Prop) where
  now h := h.now
  flights h := congrArg Store.flights h.store
  live? h := h.live?
  read h := h.read
  hit h := h.hit
  miss h := h.miss
  flown h fly := h.stored fun store => { store with flights := fly store.flights }
  noticed h := h.noticed
  set h key item := h.stored fun store => store.set key item
  touch h := h.touch
  remove h := h.remove
  clear h := h.clear
  close h := h.close

end Cache

end ExpiringCache
