import ExpiringCache.Proofs.Changes.Session

/-! # A key that was found absent stays absent

    The wall clock may be set back, but readings are not: whoever asks for a
    key asks at an instant that is not before any earlier reading.  So when a
    reading has found no live item under a key, whatever happens to the wall,
    nobody finds one, changes one or prolongs one, until somebody stores the
    key. -/

namespace ExpiringCache

variable {K V : Type} [DecidableEq K]

namespace Cache

/-! ## What calls answer for a key that is not live -/

/-- Every call that asks for `key` or would change its item finds none, and
    those that would change it leave the cache as a reading leaves it. -/
structure Lacks (c : Cache K V) (key : K) : Prop where
  get : (c.begin (.get key)).1 = .reply (.value none)
  contains : (c.begin (.contains key)).1 = .reply (.flag false)
  lifetime : (c.begin (.lifetime key)).1 = .reply (.span Store.absentSpan)
  replace : ∀ value, c.begin (.replace key value) = (.reply (.replaced none false), c.read)
  setLifetime : ∀ ttl,
    c.begin (.setLifetime key ttl) = (.reply (.span Store.absentSpan), c.read)

theorem lacks_of_dead {c : Cache K V} {key : K} (h : c.store.live? c.now key = none) :
    c.Lacks key := by
  have hread : c.read.store.live? c.read.now key = none := by rwa [now_read]
  have hget : (c.get key).1 = none := by simp only [Cache.get, hread]
  refine ⟨?_, ?_, ?_, fun value => ?_, fun ttl => ?_⟩
  · exact congrArg (fun v => Progress.reply (Reply.value v)) hget
  · exact congrArg (fun v => Progress.reply (Reply.flag (Option.isSome v))) hget
  · simp only [Cache.begin, Cache.lifetime, hread]
  · simp only [Cache.begin, Cache.replace, Store.replaceValue, hread]
    rfl
  · rw [← c.read_expiryFrom ttl] at hread
    simp only [Cache.begin, Cache.setLifetime, Store.replaceExpiry, hread, if_true]
    exact congrArg _ (c.read_expiryFrom ttl)

end Cache

/-! ## Moves that find nothing -/

/-- The move takes a reading of the clock at which `key` has no live item:
    when the move is over, or before it, if it does not store the key. -/
def Move.FindsNone (s : Session K V) (key : K) (move : Move K V) : Prop :=
  (s.step move).cache.clock.latest = s.cache.now ∧
    ((s.step move).cache.store.live? s.cache.now key = none ∨
      s.cache.store.live? s.cache.now key = none ∧ ¬move.Stores s key)

namespace Session

/-- None of the moves stores `key`. -/
def NeverStores (s : Session K V) (key : K) : List (Move K V) → Prop
  | [] => True
  | move :: rest => ¬move.Stores s key ∧ (s.step move).NeverStores key rest

variable {key : K}

/-- No move takes a reading back, and none that does not store `key` makes it
    live at an instant at which it was not. -/
theorem dead_step (s : Session K V) {move : Move K V} (hmove : ¬move.Stores s key) :
    s.cache.clock.latest ≤ (s.step move).cache.clock.latest ∧
      ∀ time ≤ s.cache.now, s.cache.store.live? time key = none →
        (s.step move).cache.store.live? time key = none := by
  rcases changes_step s.fixed_true (fun _ => trivial) move with ⟨wall, rfl⟩ | hchanges
  · exact ⟨Int.le_refl _, fun _ _ hdead => hdead⟩
  · exact ⟨hchanges.latest, fun time hpast hdead =>
      hchanges.dead (fun _ hstores => hmove hstores.1) hpast hdead⟩

/-- What was not live at an instant that a reading has reached never is, until
    it is stored. -/
theorem dead_run {s : Session K V} {time : Int} (hreached : time ≤ s.cache.clock.latest)
    (hdead : s.cache.store.live? time key = none) {moves : List (Move K V)}
    (hmoves : s.NeverStores key moves) :
    time ≤ (s.run moves).cache.clock.latest ∧
      (s.run moves).cache.store.live? time key = none := by
  induction moves generalizing s with
  | nil => exact ⟨hreached, hdead⟩
  | cons move rest ih =>
      obtain ⟨hlatest, hstep⟩ := s.dead_step hmoves.1
      have hpast : time ≤ s.cache.now := Int.le_trans hreached (Int.le_max_right _ _)
      exact ih (Int.le_trans hreached hlatest) (hstep time hpast hdead) hmoves.2

/-- Who looks later than at an instant at which the key was not live does not
    find it live. -/
theorem lacks_of_dead_at {c : Cache K V} {time : Int} (hreached : time ≤ c.clock.latest)
    (hdead : c.store.live? time key = none) : c.Lacks key := by
  refine Cache.lacks_of_dead ?_
  cases hlive : c.store.live? c.now key with
  | none => rfl
  | some item =>
      have hpast : time ≤ c.now := Int.le_trans hreached (Int.le_max_right _ _)
      rw [Store.live?_of_le hpast hlive] at hdead
      cases hdead

/-- In every session, however the wall clock is set, a key that a reading of
    the clock found without a live item is found absent by everybody, and
    changed by nobody, until a move stores it. -/
theorem absent_until_stored (capacity : Nat) (clock : Clock) (before : List (Move K V))
    (move : Move K V) (more : List (Move K V))
    (hfound : move.FindsNone ((fresh capacity clock).run before) key)
    (hmore : (((fresh capacity clock).run before).step move).NeverStores key more) :
    ((fresh capacity clock).run (before ++ move :: more)).cache.Lacks key := by
  rw [run_append]
  generalize (fresh capacity clock : Session K V).run before = s at hfound hmore
  obtain ⟨hlatest, hnone⟩ := hfound
  have hdead : (s.step move).cache.store.live? s.cache.now key = none := by
    rcases hnone with hafter | ⟨hbefore, hmove⟩
    · exact hafter
    · exact (s.dead_step hmove).2 _ (Int.le_refl _) hbefore
  obtain ⟨hreached, hfinally⟩ := dead_run (Int.le_of_eq hlatest.symm) hdead hmore
  exact lacks_of_dead_at hreached hfinally

/-- A key is found expired; then the wall clock is set back to when it was
    live, the key is given another value and a lifetime without end, and a
    sweep passes. -/
theorem absent_until_stored_set_back :
    Move.FindsNone
        ((fresh 0 (.unread 1000)).run [.begin (.put 1 10 ⟨5000000, by decide⟩), .setWall 1005] :
          Session Nat Nat) 1 (.begin (.get 1)) ∧
      NeverStores
        (step ((fresh 0 (.unread 1000)).run
          [.begin (.put 1 10 ⟨5000000, by decide⟩), .setWall 1005] : Session Nat Nat)
          (.begin (.get 1))) 1
        [.setWall 1001, .begin (.replace 1 11), .begin (.setLifetime 1 .zero),
          .sweep ⟨id, fun keys => .refl keys⟩] ∧
      ((fresh 0 (.unread 1000)).run
        ([.begin (.put 1 10 ⟨5000000, by decide⟩), .setWall 1005] ++
          .begin (.get 1) :: [.setWall 1001, .begin (.replace 1 11),
            .begin (.setLifetime 1 .zero), .sweep ⟨id, fun keys => .refl keys⟩]) :
          Session Nat Nat).cache.Lacks 1 := by
  have hfound : Move.FindsNone
      ((fresh 0 (.unread 1000)).run [.begin (.put 1 10 ⟨5000000, by decide⟩), .setWall 1005] :
        Session Nat Nat) 1 (.begin (.get 1)) := ⟨by rfl, Or.inl (by rfl)⟩
  have hmore : NeverStores
      (step ((fresh 0 (.unread 1000)).run
        [.begin (.put 1 10 ⟨5000000, by decide⟩), .setWall 1005] : Session Nat Nat)
        (.begin (.get 1))) 1
      [.setWall 1001, .begin (.replace 1 11), .begin (.setLifetime 1 .zero),
        .sweep ⟨id, fun keys => .refl keys⟩] :=
    ⟨fun h => h, fun h => h, fun h => h, fun h => h, trivial⟩
  exact ⟨hfound, hmore, absent_until_stored 0 (.unread 1000) _ _ _ hfound hmore⟩

end Session

end ExpiringCache
