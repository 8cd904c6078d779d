import ExpiringCache.Proofs.Accounting.Balance
import ExpiringCache.Proofs.Order.Agreement
import Mathlib.Data.Bool.Count

/-! # The statistics account for all that happened

    Take all actions of a session, in the order in which they happened, and
    keep a ledger of them.  Then the statistics that the cache shows at any
    moment agree with it: each call that looks a key up has counted one hit or
    one miss, according to whether the key was live when the call began; as
    many evictions were counted as entries fell off the recency list, and as
    many expirations as entries were deleted by sweeps; and each entry that
    came into the store is still there, or has gone out in one of the four
    ways. -/

namespace ExpiringCache

variable {K V : Type}

/-- The key that a call looks up before all else, to be counted. -/
def Request.lookup? : Request K V → Option K
  | .get key => some key
  | .contains key => some key
  | .putIfAbsent key _ _ => some key
  | .putIfAbsentFrom key _ _ => some key
  | .getOrPut key _ _ => some key
  | .getOrPutFrom key _ _ => some key
  | _ => none

/-- So it is for a move, if it is the beginning of such a call. -/
def Move.lookup? : Move K V → Option K
  | .begin request => request.lookup?
  | _ => none

/-- The counts can be shown in words. -/
structure Counters.Fit (c : Counters) : Prop where
  hits : c.hits < 2 ^ 64
  misses : c.misses < 2 ^ 64
  evictions : c.evictions < 2 ^ 64
  expired : c.expired < 2 ^ 64

variable [DecidableEq K]

/-! ## What actions look up -/

namespace Cache

omit [DecidableEq K] in
theorem lookups_fixing (ttl : Duration) :
    (fixing ttl : List (Action K V)).filterMap Action.lookup? = [] := by
  rw [fixing]
  split
  · rfl
  · rfl

omit [DecidableEq K] in
theorem lookups_storing (c : Cache K V) (key : K) (value : V) (ttl : Duration) :
    (c.storing key value ttl).filterMap Action.lookup? = [] := by
  rw [storing, List.filterMap_append, lookups_fixing]
  rfl

theorem lookups_entering (c : Cache K V) (turn : Turn K V) :
    (c.entering turn).filterMap Action.lookup? = [] := by
  rw [entering]
  split
  · rfl
  · split
    · split
      · rfl
      · rfl
    · split
      · rfl
      · split
        · rfl
        · rfl

theorem lookups_enteringNew (c : Cache K V) (key : K) (payload : Payload V)
    (ttl : Duration) (asksStored : Bool) :
    (c.enteringNew key payload ttl asksStored).filterMap Action.lookup? = [] := by
  rw [enteringNew, List.filterMap_append, lookups_entering]
  split
  · rfl
  · rw [lookups_fixing]
    rfl

/-- A look-up is a hit if the key is live. -/
theorem lookups_getting (c : Cache K V) (key : K) :
    (c.getting key).filterMap Action.lookup? = [(c.store.live? c.now key).isSome] := by
  rw [getting]
  split
  · rename_i hlive
    rw [hlive]
    rfl
  · rename_i hlive
    rw [hlive]
    rfl

/-- A look-up is counted once, whatever else the call does. -/
theorem lookups_getting_append (c : Cache K V) (key : K) {more : List (Action K V)}
    (hmore : more.filterMap Action.lookup? = []) :
    (c.getting key ++ more).filterMap Action.lookup? = [(c.store.live? c.now key).isSome] := by
  rw [List.filterMap_append, lookups_getting, hmore, List.append_nil]

theorem lookups_beginning (c : Cache K V) (request : Request K V) :
    (c.beginning request).filterMap Action.lookup? =
      (request.lookup?.map fun key => (c.store.live? c.now key).isSome).toList := by
  cases request with
  | put key value ttl =>
      show (if _ then _ else _ : List (Action K V)).filterMap _ = []
      split
      · rfl
      · exact c.lookups_storing key value ttl
  | putAll entries ttl =>
      show (if _ then _ else _ : List (Action K V)).filterMap _ = []
      split
      · rfl
      · rw [List.filterMap_append, lookups_fixing, List.filterMap_map, List.nil_append]
        exact List.filterMap_eq_nil_iff.mpr fun _ _ => rfl
  | putIfAbsent key value ttl =>
      refine c.lookups_getting_append key ?_
      split
      · rfl
      · exact lookups_storing _ key value ttl
  | putIfAbsentFrom key ttl exclusive =>
      refine c.lookups_getting_append key ?_
      split
      · rfl
      · exact lookups_enteringNew _ key .produced ttl true
  | get key => exact c.lookups_getting key
  | getOrPut key payload ttl =>
      refine c.lookups_getting_append key ?_
      split
      · rfl
      · exact lookups_enteringNew _ key payload ttl false
  | getOrPutFrom key ttl exclusive =>
      refine c.lookups_getting_append key ?_
      split
      · rfl
      · exact lookups_enteringNew _ key .produced ttl false
  | contains key => exact c.lookups_getting key
  | lifetime key => rfl
  | replace key value =>
      simp only [beginning, replacing]
      split
      · rfl
      · rfl
  | setLifetime key ttl =>
      simp only [beginning, settingLifetime]
      rw [List.filterMap_append, lookups_fixing, List.nil_append]
      split
      · rfl
      · rfl
  | remove keys => rfl
  | clear => rfl
  | close => rfl
  | _ => rfl

theorem lookups_finishing (c : Cache K V) (next : Pending K V) (ending : Ending V) :
    (c.finishing next ending).filterMap Action.lookup? = [] := by
  cases next with
  | store key ttl => cases ending with
    | value v => exact c.lookups_storing key v ttl
    | _ => rfl
  | offer key ttl => cases ending with
    | value v => exact c.lookups_enteringNew key (.given v) ttl false
    | _ => rfl
  | lead turn =>
      simp only [finishing, leaving]
      split
      · rfl
      · rfl
      · rfl
      · rfl

end Cache

namespace Session

/-! ## The actions of a session -/

/-- What a move does. -/
def actions (s : Session K V) : Move K V → List (Action K V)
  | .begin request => s.cache.beginning request
  | .finish place ending =>
      match s.computing[place]? with
      | none => []
      | some next => s.cache.finishing next ending
  | .resume place told =>
      match s.waiting[place]?, told with
      | none, _ => []
      | some turn, some value => Cache.settling turn value
      | some turn, none => s.cache.entering turn
  | .sweep order => [.sweep order]
  | .setWall wall => [.setWall wall]

/-- What several moves do, one after another. -/
def trace (s : Session K V) : List (Move K V) → List (Action K V)
  | [] => []
  | move :: rest => s.actions move ++ (s.step move).trace rest

/-- For each call that looks a key up, whether the key was live when it
    began. -/
def lookups (s : Session K V) : List (Move K V) → List Bool
  | [] => []
  | move :: rest =>
      (move.lookup?.map fun key => (s.cache.store.live? s.cache.now key).isSome).toList ++
        (s.step move).lookups rest

/-- There is one for each such call. -/
theorem length_lookups (s : Session K V) (moves : List (Move K V)) :
    (s.lookups moves).length = (moves.filterMap Move.lookup?).length := by
  induction moves generalizing s with
  | nil => rfl
  | cons move rest ih =>
      rw [lookups, List.length_append, ih, List.filterMap_cons]
      cases move.lookup? with
      | none => exact Nat.zero_add _
      | some key => exact Nat.add_comm 1 _

/-- To carry out the actions of a move is to make it, unless somebody goes on
    after having waited. -/
theorem performs_step (s : Session K V) {move : Move K V} (hdirect : move.Direct) :
    s.cache.Performs (s.actions move) (s.step move).cache := by
  cases move with
  | begin request =>
      simp only [actions, step, cache_absorb]
      exact s.cache.performs_beginning request
  | finish place ending =>
      cases hplace : s.computing[place]? with
      | none =>
          simp only [actions, step, hplace]
          exact .nil _
      | some next =>
          simp only [actions, step, hplace, cache_absorb]
          exact s.cache.performs_finishing next ending
  | resume place told => exact hdirect.elim
  | sweep order => exact .one trivial
  | setWall wall => exact .one trivial

theorem performs_run (s : Session K V) {moves : List (Move K V)}
    (hdirect : ∀ move ∈ moves, move.Direct) :
    s.cache.Performs (s.trace moves) (s.run moves).cache := by
  induction moves generalizing s with
  | nil => exact .nil _
  | cons move rest ih =>
      have hmove := s.performs_step (hdirect move List.mem_cons_self)
      exact hmove.append (ih (s.step move) fun m hmem =>
        hdirect m (List.mem_cons_of_mem move hmem))

/-- What is looked up along the actions is what the calls look up. -/
theorem lookups_trace (s : Session K V) {moves : List (Move K V)}
    (hdirect : ∀ move ∈ moves, move.Direct) :
    (s.trace moves).filterMap Action.lookup? = s.lookups moves := by
  induction moves generalizing s with
  | nil => rfl
  | cons move rest ih =>
      rw [trace, lookups, List.filterMap_append,
        ih (s.step move) fun m hmem => hdirect m (List.mem_cons_of_mem move hmem)]
      refine congrArg (· ++ _) ?_
      cases move with
      | begin request => exact s.cache.lookups_beginning request
      | finish place ending =>
          rw [actions]
          split
          · rfl
          · exact s.cache.lookups_finishing _ ending
      | resume place told => exact (hdirect _ List.mem_cons_self).elim
      | sweep order => rfl
      | setWall wall => rfl

/-! ## The accounts -/

/-- What is shown after some moves accounts for what has happened. -/
structure Accounts (s : Session K V) (moves : List (Move K V)) (shown : Stats) (l : Ledger) :
    Prop where
  lookups : shown.hits.toNat + shown.misses.toNat = (moves.filterMap Move.lookup?).length
  hits : shown.hits.toNat = (s.lookups moves).count true
  evictions : shown.evictions.toNat = l.evicted
  expired : shown.expired.toNat = l.swept
  inserted : l.inserted = (s.run moves).cache.size + shown.evictions.toNat +
    shown.expired.toNat + l.removed + l.cleared

/-- At every moment of a session with a new cache in which nobody has gone on
    after having waited, the actions up to then have led there, and the
    statistics account for them. -/
theorem stats_account (capacity : Nat) (clock : Clock) {moves : List (Move K V)}
    (hdirect : ∀ move ∈ moves, move.Direct)
    (hfit : ((fresh capacity clock).run moves).cache.counters.Fit) :
    (Cache.new capacity clock).Performs ((fresh capacity clock).trace moves)
        ((fresh capacity clock).run moves).cache ∧
      (fresh capacity clock).Accounts moves ((fresh capacity clock).run moves).cache.stats
        ((Cache.new capacity clock).bookAll ((fresh capacity clock).trace moves)) := by
  have hperforms := (fresh capacity clock).performs_run hdirect
  have hagrees : (fresh capacity clock : Session K V).cache.Agrees capacity :=
    ⟨[], Cache.ordered_new capacity clock⟩
  have hbooks := hperforms.books hagrees
  rw [lookups_trace _ hdirect] at hbooks
  have hstart : (Cache.new capacity clock : Cache K V).counters = .zero := rfl
  have hempty : (Cache.new capacity clock : Cache K V).size = 0 := rfl
  change (Cache.new capacity clock).Books _ ((Cache.new capacity clock).bookAll _) _ at hbooks
  generalize (Cache.new capacity clock).bookAll ((fresh capacity clock).trace moves) = l at hbooks ⊢
  -- nothing had been counted before, and the counts are shown as they are
  have hhits : ((fresh capacity clock).run moves).cache.stats.hits.toNat =
      ((fresh capacity clock).lookups moves).count true := by
    refine (UInt64.toNat_ofNat_of_lt hfit.hits).trans ?_
    rw [hbooks.hits, hstart]
    exact Nat.zero_add _
  have hmisses : ((fresh capacity clock).run moves).cache.stats.misses.toNat =
      ((fresh capacity clock).lookups moves).count false := by
    refine (UInt64.toNat_ofNat_of_lt hfit.misses).trans ?_
    rw [hbooks.misses, hstart]
    exact Nat.zero_add _
  have hevictions : ((fresh capacity clock).run moves).cache.stats.evictions.toNat =
      l.evicted := by
    refine (UInt64.toNat_ofNat_of_lt hfit.evictions).trans ?_
    rw [hbooks.evictions, hstart]
    exact Nat.zero_add _
  have hexpired : ((fresh capacity clock).run moves).cache.stats.expired.toNat = l.swept := by
    refine (UInt64.toNat_ofNat_of_lt hfit.expired).trans ?_
    rw [hbooks.expired, hstart]
    exact Nat.zero_add _
  refine ⟨hperforms, ?_, hhits, hevictions, hexpired, ?_⟩
  · rw [hhits, hmisses, List.count_true_add_count_false]
    exact length_lookups _ moves
  · have hbalance := hbooks.balance
    rw [hempty] at hbalance
    rw [hevictions, hexpired]
    omega

/-- Entries go out in each of the four ways.  The second one is computed, and
    the computation stores another one and makes a call that panics. -/
def eventful : List (Move Nat Nat) :=
  [.begin (.put 1 10 ⟨1500000000, by decide⟩), .begin (.getOrPutFrom 2 .zero true),
    .begin (.put 3 30 .zero), .begin (.putIfAbsentFrom 4 .zero true),
    .finish 0 (.panicked "out of luck"), .finish 0 (.value 20), .begin (.get 3),
    .begin (.put 3 31 ⟨-4000000, by decide⟩), .begin (.put 5 50 ⟨1500000000, by decide⟩),
    .setWall 9000, .sweep ⟨id, fun keys => .refl keys⟩, .begin .clear, .begin (.contains 2),
    .begin (.put 6 60 .zero)]

theorem stats_account_of_eventful :
    (fresh 2 (.unread 100)).Accounts eventful ⟨1, 3, 1, 1, 1⟩ ⟨5, 1, 1, 1, 1⟩ := by
  have hdirect : ∀ m ∈ eventful, m.Direct := by
    intro m hmem
    simp only [eventful, List.mem_cons, List.not_mem_nil, or_false] at hmem
    rcases hmem with rfl | rfl | rfl | rfl | rfl | rfl | rfl | rfl | rfl | rfl | rfl | rfl | rfl |
      rfl
    all_goals trivial
  have hfit : ((fresh 2 (.unread 100)).run eventful).cache.counters.Fit := by
    constructor
    all_goals decide +kernel
  have hstats : ((fresh 2 (.unread 100)).run eventful).cache.stats = ⟨1, 3, 1, 1, 1⟩ := by
    decide +kernel
  have hledger : (Cache.new 2 (.unread 100)).bookAll ((fresh 2 (.unread 100)).trace eventful) =
      ⟨5, 1, 1, 1, 1⟩ := by decide +kernel
  obtain ⟨-, haccounts⟩ := stats_account 2 (.unread 100) hdirect hfit
  rw [hstats, hledger] at haccounts
  exact haccounts

end Session

end ExpiringCache
