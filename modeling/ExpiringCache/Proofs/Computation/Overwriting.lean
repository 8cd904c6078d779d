import ExpiringCache.Proofs.Computation.Commission

/-! # Values that are written while another is computed

    Somebody who commissions a value for a key that is not live cannot know
    that it will not be live when the computation has ended: the computation
    itself, or anybody else, may store the key meanwhile.  Of the five calls
    only one looks again before it stores what was computed, and leaves the
    other value where it is; the others write theirs over it and tell their
    callers that they stored it. -/

namespace ExpiringCache

variable {K V : Type} [DecidableEq K]

namespace Cache

/-! ## The key that is used does not fall off -/

variable {c : Cache K V} {key : K}

theorem Ranked.not_mem_evicts (h : c.Ranked) (key : K) : key ∉ c.evicts key := by
  obtain ⟨ks, hranks⟩ := h
  rw [hranks.evicts, surplus]
  split
  · rw [List.take_zero]
    exact List.not_mem_nil
  · rename_i hcap
    intro hmem
    have hfew : (Recency.others key ks).length + 1 - c.capacity ≤
        (Recency.others key ks).length := by omega
    rw [List.take_append_of_le_length hfew] at hmem
    exact (Recency.mem_others.mp (List.mem_of_mem_take hmem)).2 rfl

theorem Ranked.item?_touch (h : c.Ranked) (key : K) :
    (c.touch key).store.item? key = c.store.item? key := by
  rw [Cache.item?_touch, if_neg (h.not_mem_evicts key)]

theorem Ranked.item?_write (h : c.Ranked) (key : K) (value : V) (expireAt : Int) :
    (c.write key value expireAt).store.item? key = some ⟨value, expireAt⟩ := by
  have hset : Ranked
      { c with
        store := c.store.set key ⟨value, expireAt⟩
        notices := c.notices.push key expireAt } := h.same rfl rfl
  rw [write, hset.item?_touch]
  show (c.store.set key ⟨value, expireAt⟩).item? key = _
  rw [Store.item?_set, if_pos rfl]

/-- A value at hand is not stored if the key is live: the call answers the
    value that is there. -/
theorem enterNew_given_of_live {held : Item V} (hlive : c.store.live? c.now key = some held)
    (hfree : c.store.flights.isRunning key = false) (value : V) {ttl : Duration}
    (hneg : ttl.isNegative = false) :
    c.enterNew key (.given value) ttl false =
      (.reply (.value (some held.value)), c.read.touch key) := by
  rw [enterNew_of_nonnegative _ _ _ _ hneg]
  have hread : (c.expiryFrom ttl).2.read = c.read := c.read_expiryFrom ttl
  have hfree' : (c.expiryFrom ttl).2.store.flights.isRunning key = false := by
    rw [flights_expiryFrom]
    exact hfree
  have hfree'' : c.read.store.flights.isRunning key = false := hfree
  have hlive' : c.read.store.live? c.read.now key = some held := by rwa [now_read]
  simp only [enter, hread, hfree', Store.beginSetUnlessLive, hfree'', hlive', Bool.false_eq_true,
    if_false]
  rfl

end Cache

namespace Commission

open Cache

variable {B : Type}

/-! ## What becomes of the two values -/

/-- The call looks again whether the key is live once its computation has
    ended. -/
def looksAgain (kind : Commission) : Bool := !kind.exclusive && !kind.asksStored

/-- When a value expires that was commissioned in `c` and computed by the time
    of `ended`: its lifetime starts with the flight, if there is one. -/
def expiry (kind : Commission) (c ended : Cache K V) (ttl : Duration) : Int :=
  ExpiringCache.expiryFrom (if kind.exclusive then c.now else ended.now) ttl

/-- The item that is there in the end, when `held` is live by the time that
    `value` has been computed. -/
def kept (kind : Commission) (held : Item V) (value : V) (expireAt : Int) : Item V :=
  if kind.looksAgain then held else ⟨value, expireAt⟩

/-- A value that was computed under a flight is stored. -/
theorem finish_exclusive {kind : Commission} (hexclusive : kind.exclusive = true) {key : K}
    {ended : Cache K V} {flights : Flights K} (hflights : ended.store.flights = flights.enter key)
    (ttl : Duration) (expireAt : Int) (value : V) :
    ended.finish (kind.next key ttl expireAt) (.value value) =
      (.reply (kind.reply (some value) true),
        (ended.withFlights flights).write key value expireAt) := by
  have hled : ended = (ended.withFlights flights).led key := by
    show ended = ended.withFlights (flights.enter key)
    rw [← hflights]
    rfl
  have hleave := (ended.withFlights flights).leave_led key kind.asksStored .produced expireAt
    (.value value)
  rw [← hled] at hleave
  simp only [next, hexclusive, if_true, finish, turn, hleave]
  rfl

/-- What a commission does with its value, when another one is live. -/
theorem finish_value (kind : Commission) {key : K} {ttl : Duration} (hneg : ttl.isNegative = false)
    {c ended : Cache K V} (hranked : ended.Ranked)
    (hfree : kind ≠ .putIfAbsent false → c.store.flights.isRunning key = false)
    (hflights : ended.store.flights =
      if kind.exclusive then c.store.flights.enter key else c.store.flights)
    {held : Item V} (hheld : ended.store.live? ended.now key = some held) (value : V) :
    ∃ final, ended.finish (kind.next key ttl (ExpiringCache.expiryFrom c.now ttl)) (.value value) =
        (.reply (kind.reply (some (kind.kept held value (kind.expiry c ended ttl)).value)
          !kind.looksAgain), final) ∧
      final.store.item? key = some (kind.kept held value (kind.expiry c ended ttl)) := by
  cases hexclusive : kind.exclusive with
  | true =>
      rw [if_pos hexclusive] at hflights
      rw [finish_exclusive hexclusive hflights, kept, looksAgain, expiry, hexclusive]
      have hleft : (ended.withFlights c.store.flights).Ranked := hranked.same rfl rfl
      exact ⟨_, rfl, hleft.item?_write key value _⟩
  | false =>
      rw [hexclusive, if_neg Bool.false_ne_true] at hflights
      cases kind with
      | getOrPut => cases hexclusive
      | putIfAbsent exclusive =>
          have hfixed : (ended.expiryFrom ttl).2.Ranked := by
            have hchanges : ended.Changes (fun _ _ => True) (ended.expiryFrom ttl).2 :=
              changes_expiryFrom ended ttl
            exact hchanges.ranked hranked
          rw [next, kept, looksAgain, expiry, hexclusive]
          exact ⟨_, rfl, hfixed.item?_write key value _⟩
      | getOrPutFrom exclusive =>
          have hrunning : ended.store.flights.isRunning key = false := by
            rw [hflights]
            refine hfree fun hkind => ?_
            cases hkind
          have hlooks : (getOrPutFrom exclusive).looksAgain = true := by
            rw [looksAgain, hexclusive]
            rfl
          have hread : ended.read.Ranked := hranked.same rfl rfl
          rw [next, hexclusive, kept, hlooks]
          refine ⟨ended.read.touch key, ?_, ?_⟩
          · show ended.enterNew key (.given value) ttl false = _
            exact enterNew_given_of_live hheld hrunning value hneg
          · rw [hread.item?_touch]
            exact (Store.live?_eq_some.mp hheld).1

/-! ## Whole calls -/

/-- At every moment of every session: if a key is not live when a value is
    commissioned for it, and is live when the value has been computed, then
    the call that looks again answers what it finds and leaves it there; each
    of the others stores its own value over it, and says so. -/
theorem overwrites_unless_looksAgain (view : Cache K V → B) (capacity : Nat) (clock : Clock)
    (moves : List (Move K V)) {c : Cache K V}
    (hreached : c = ((Session.fresh capacity clock).run moves).cache) (kind : Commission)
    (key : K) (ttl : Duration) (body : List (Act K V Command)) (value : V) {held : Item V}
    (hneg : ttl.isNegative = false) (hdead : c.store.live? c.now key = none)
    (hfree : kind ≠ .putIfAbsent false → c.store.flights.isRunning key = false)
    (hheld : (kind.during view c key body).2.store.live?
      (kind.during view c key body).2.now key = some held) :
    ∃ final,
      (party view).run (.call (kind.request key ttl) body (.value value)) c =
        (.call (.ok (kind.reply
            (some (kind.kept held value
              (kind.expiry c (kind.during view c key body).2 ttl)).value)
            !kind.looksAgain))
          (some (kind.during view c key body).1) (view final), final) ∧
      final.store.item? key =
        some (kind.kept held value (kind.expiry c (kind.during view c key body).2 ttl)) := by
  have hranked : c.Ranked := hreached ▸ Session.ranked_run (ranked_new capacity clock) moves
  have hstart : (c.commissioned kind key).Ranked := by
    rw [commissioned]
    split
    · exact hranked.same rfl rfl
    · exact hranked.same rfl rfl
  have hended := (restores_runAll view body (c.commissioned kind key)).ranked hstart
  have hfree' : kind.exclusive = true → c.store.flights.isRunning key = false := by
    intro hexclusive
    refine hfree fun hkind => ?_
    rw [hkind] at hexclusive
    cases hexclusive
  obtain ⟨final, hfinish, hitem⟩ :=
    kind.finish_value hneg hended hfree (flights_commissioned view kind body) hheld value
  refine ⟨final, ?_, hitem⟩
  rw [run_of_producing view (begin_request kind hdead hfree' hneg), hfinish]
  rfl

/-- Under a flight, a key is stored by the computation itself, and the call
    stores another value over it; and of two calls, one within the computation
    of the other, both say that they stored theirs. -/
theorem first_writer_loses :
    (∃ after within final,
      (party Cache.shown).run
          (.call (.getOrPutFrom 1 .zero true) [.call (.put 1 10 .zero) [] .nothing] (.value 20))
          (.new 0 (.unread 1000) : Cache Nat Nat) =
        (.call (.ok (.value (some 20))) (some [.call (.ok .done) none within]) after, final) ∧
      within.2 = [(1, ⟨10, never⟩)] ∧ final.store.item? 1 = some ⟨20, never⟩) ∧
    (∃ after within final,
      (party Cache.shown).run
          (.call (.putIfAbsentFrom 1 .zero false)
            [.call (.putIfAbsentFrom 1 .zero false) [] (.value 10)] (.value 20))
          (.new 0 (.unread 1000) : Cache Nat Nat) =
        (.call (.ok (.flag true)) (some [.call (.ok (.flag true)) (some []) within]) after,
          final) ∧
      within.2 = [(1, ⟨10, never⟩)] ∧ final.store.item? 1 = some ⟨20, never⟩) :=
  ⟨⟨_, _, _, rfl, rfl, rfl⟩, ⟨_, _, _, rfl, rfl, rfl⟩⟩

/-- The key is stored by the computation itself, and the call that looks again
    answers that value. -/
theorem overwrites_unless_looksAgain_kept :
    (new 0 (.unread 1000) : Cache Nat Nat).store.live? 1000 1 = none ∧
    ((getOrPutFrom false).during Cache.shown (.new 0 (.unread 1000) : Cache Nat Nat) 1
      [.call (.put 1 10 .zero) [] .nothing]).2.store.live? 1000 1 = some ⟨10, never⟩ ∧
    ∃ final,
      (party Cache.shown).run
          (.call ((getOrPutFrom false).request 1 .zero) [.call (.put 1 10 .zero) [] .nothing]
            (.value 20))
          (.new 0 (.unread 1000) : Cache Nat Nat) =
        (.call (.ok (.value (some 10)))
          (some ((getOrPutFrom false).during Cache.shown (.new 0 (.unread 1000) : Cache Nat Nat) 1
            [.call (.put 1 10 .zero) [] .nothing]).1) final.shown, final) ∧
      final.store.item? 1 = some ⟨10, never⟩ :=
  ⟨rfl, rfl,
    overwrites_unless_looksAgain Cache.shown 0 (.unread 1000) [] rfl (getOrPutFrom false) 1 .zero
      [.call (.put 1 10 .zero) [] .nothing] 20 rfl rfl (fun _ => rfl) rfl⟩

end Commission

end ExpiringCache
