import ExpiringCache.Proofs.Computation.Failure
import ExpiringCache.Proofs.Computation.Overwriting

/-! # Lifetimes of values that take time to compute

    Of the ways to hand in a computation, those that ask for the same thing
    are meant to do the same, under a flight or not.  As long as the
    computation makes no calls, their results are the same indeed, and so is
    what they leave behind, but for one thing.  Outside a flight the lifetime
    of the value starts when the computation has ended; under a flight it
    started before the computation began.  So if the computation takes time,
    a value that was computed under a flight is stored with less than its
    lifetime, and when the computation takes as long as that, it is expired
    before it is stored. -/

namespace ExpiringCache

variable {K V : Type}

/-- A computation ends with a value or without one. -/
theorem Ending.value_or (ending : Ending V) :
    (∃ value, ending = .value value) ∨ ∀ value, ending ≠ .value value := by
  cases ending with
  | value value => exact Or.inl ⟨value, rfl⟩
  | nothing => exact Or.inr fun _ => nofun
  | failed failure => exact Or.inr fun _ => nofun
  | panicked text => exact Or.inr fun _ => nofun

namespace Cache

/-! ## Apart from the clock -/

/-- The cache without its clock. -/
def timeless (c : Cache K V) : Cache K V := { c with clock := .unread 0 }

/-- The cache after it was asked for a key that is not live, at the time that
    `later` shows. -/
def missedUntil (c : Cache K V) (later : Clock) : Cache K V := { c.missed with clock := later }

/-- A computation that makes no calls: when it ends, the clock shows what
    `later` does. -/
def idling (later : Clock) (ending : Ending V) (c : Cache K V) :
    (Ending V × Unit) × Cache K V :=
  ((ending, ()), { c with clock := later })

variable {c c' : Cache K V} {key : K}

theorem store_eq_of_timeless (h : c.timeless = c'.timeless) : c.store = c'.store := by
  show c.timeless.store = c'.timeless.store
  rw [h]

/-- Caches that differ in their clocks only are the same with the same clock. -/
theorem eq_of_timeless (h : c.timeless = c'.timeless) : c = { c' with clock := c.clock } :=
  congrArg (fun d : Cache K V => { d with clock := c.clock }) h

theorem timeless_read (c : Cache K V) : c.read.timeless = c.timeless := rfl

theorem timeless_expiryFrom (c : Cache K V) (ttl : Duration) :
    (c.expiryFrom ttl).2.timeless = c.timeless := by
  show timeless (if _ then c else c.read) = _
  split
  · rfl
  · rfl

theorem now_expiryFrom (c : Cache K V) (ttl : Duration) : (c.expiryFrom ttl).2.now = c.now := by
  show now (if _ then c else c.read) = _
  split
  · rfl
  · exact now_read c

variable [DecidableEq K]

/-- Of the clock only what it shows goes into the cache. -/
theorem timeless_touch (h : c.timeless = c'.timeless) (hnow : c.now = c'.now) (key : K) :
    (c.touch key).timeless = (c'.touch key).timeless := by
  rw [touch_eq, touch_eq, hnow, eq_of_timeless h]
  rfl

/-- Caches that differ in their clocks only, and show the same time, still do
    so after the same write. -/
theorem timeless_write (h : c.timeless = c'.timeless) (hnow : c.now = c'.now) (key : K)
    (value : V) (expireAt : Int) :
    (c.write key value expireAt).timeless = (c'.write key value expireAt).timeless := by
  have hstored :
      timeless { c with
        store := c.store.set key ⟨value, expireAt⟩
        notices := c.notices.push key expireAt } =
      timeless { c' with
        store := c'.store.set key ⟨value, expireAt⟩
        notices := c'.notices.push key expireAt } := by
    rw [eq_of_timeless h]
    rfl
  exact timeless_touch hstored hnow key

theorem now_write (c : Cache K V) (key : K) (value : V) (expireAt : Int) :
    (c.write key value expireAt).now = c.now := now_touch _ key

/-- What is not live does not become so by waiting. -/
theorem dead_missedUntil {later : Clock} (hdead : c.store.live? c.now key = none)
    (hlater : c.now ≤ later.now) :
    (c.missedUntil later).store.live? (c.missedUntil later).now key = none := by
  cases hlive : (c.missedUntil later).store.live? (c.missedUntil later).now key with
  | none => rfl
  | some item =>
      have hearlier : c.store.live? c.now key = some item := Store.live?_of_le hlater hlive
      rw [hdead] at hearlier
      cases hearlier

/-- The cache when a computation has ended that made no calls. -/
def commissionedUntil (c : Cache K V) (kind : Commission) (key : K) (later : Clock) :
    Cache K V :=
  { c.commissioned kind key with clock := later }

omit [DecidableEq K] in
/-- As the computation ends, its key is in the registry if it runs under a
    flight, and nothing else tells the two apart. -/
theorem commissionedUntil_eq (c : Cache K V) (kind : Commission) (key : K) (later : Clock) :
    c.commissionedUntil kind key later =
      if kind.exclusive then (c.missedUntil later).led key else c.missedUntil later := by
  rw [commissionedUntil, commissioned]
  split
  · rfl
  · rfl

/-! ## What is seen of a stored value -/

/-- A key whose item has expired is not live. -/
theorem dead_of_item {item : Item V} (h : c.store.item? key = some item)
    (hexpired : ¬c.now < item.expireAt) : c.store.live? c.now key = none := by
  rw [Store.live?, h]
  simpa [Option.filter, Item.isExpiredAt] using hexpired

/-- Who asks for a key with this item gets the value until it expires. -/
theorem get_of_item {item : Item V} (h : c.store.item? key = some item) :
    (c.get key).1 = if c.now < item.expireAt then some item.value else none := by
  split
  · rename_i hlive
    have hread : c.read.store.live? c.read.now key = some item := by
      rw [now_read]
      exact Store.live?_eq_some.mpr ⟨h, hlive⟩
    rw [get_of_live hread]
  · rename_i hexpired
    rw [get_eq_missed (dead_of_item h hexpired)]

/-- Who asks how long it has left is told so until it expires. -/
theorem lifetime_of_item {item : Item V} (h : c.store.item? key = some item) :
    (c.lifetime key).1 =
      if c.now < item.expireAt then item.remainingAt c.now else Store.absentSpan := by
  split
  · rename_i hlive
    have hread : c.read.store.live? c.now key = some item := Store.live?_eq_some.mpr ⟨h, hlive⟩
    simp only [lifetime, now_read, hread]
  · rename_i hexpired
    have hread : c.read.store.live? c.now key = none := dead_of_item h hexpired
    simp only [lifetime, now_read, hread]

/-! ## A value at hand -/

/-- A value at hand is stored under a free flight if the key is not live. -/
theorem enterNew_given_of_dead (hdead : c.store.live? c.now key = none)
    (hfree : c.store.flights.isRunning key = false) (value : V) {ttl : Duration}
    (hneg : ttl.isNegative = false) :
    c.enterNew key (.given value) ttl false =
      (.reply (.value (some value)),
        c.read.write key value (ExpiringCache.expiryFrom c.now ttl)) := by
  rw [enterNew_of_nonnegative _ _ _ _ hneg]
  have hread : (c.expiryFrom ttl).2.read = c.read := c.read_expiryFrom ttl
  have hfree' : (c.expiryFrom ttl).2.store.flights.isRunning key = false := by
    rw [flights_expiryFrom]
    exact hfree
  have hfree'' : c.read.store.flights.isRunning key = false := hfree
  have hdead' : c.read.store.live? c.read.now key = none := by rwa [now_read]
  simp only [enter, hread, hfree', Store.beginSetUnlessLive, hfree'', hdead', Bool.false_eq_true,
    if_false]
  rfl

end Cache

/-- A positive lifetime that starts before `never` does not end at once; the
    time that is left is all of it, or 0 if it is cut at `never`. -/
theorem Item.remainingAt_expiryFrom {V : Type} (value : V) {now : Int} {ttl : Duration}
    (hpast : 0 ≤ now) (hnever : now < never) (hmillis : 1 ≤ ttl.millis) :
    now < expiryFrom now ttl ∧
      Item.remainingAt ⟨value, expiryFrom now ttl⟩ now =
        if now + ttl.millis < never then ttl.millis else 0 := by
  have hzero : ttl.isZero = false := by
    cases hzero : ttl.isZero with
    | false => rfl
    | true =>
        have hnanos : ttl.nanos = 0 := by simpa [Duration.isZero] using hzero
        rw [Duration.millis, hnanos] at hmillis
        exact absurd hmillis (by decide)
  have hexpiry : expiryFrom now ttl = min never (now + ttl.millis) := by
    rw [expiryFrom_eq_min hpast, hzero]
    rfl
  rw [hexpiry]
  refine ⟨by omega, ?_⟩
  show (if min never (now + ttl.millis) = never then 0 else
    min never (now + ttl.millis) - now) = _
  split
  · rw [if_neg (by omega)]
  · rw [if_pos (by omega)]
    omega

namespace Commission

open Cache

variable [DecidableEq K] {c : Cache K V} {key : K} {ttl : Duration} {later : Clock}

/-! ## Whole calls -/

/-- If the key is live, nothing is computed. -/
theorem call_of_live (kind : Commission) {held : Item V}
    (hlive : c.store.live? c.now key = some held)
    (produce : Cache K V → (Ending V × Unit) × Cache K V) :
    c.call (kind.request key ttl) produce =
      ((.ok (kind.reply (some held.value) false), none), (c.get key).2) := by
  have hread : c.read.store.live? c.read.now key = some held := by rwa [now_read]
  have hget : c.get key = (some held.value, (c.get key).2) := by rw [get_of_live hread]
  refine call_of_reply ?_ produce
  cases kind with
  | putIfAbsent exclusive =>
      show c.beginPutIfAbsentFrom key ttl exclusive = _
      rw [beginPutIfAbsentFrom, contains, hget]
      rfl
  | getOrPut => exact beginGetOrPut_of_some hget .produced ttl
  | getOrPutFrom exclusive => cases exclusive with
    | false => exact beginGetOrOffer_of_some hget ttl
    | true => exact beginGetOrPut_of_some hget .produced ttl

/-- If it is not, the call goes on when the computation has ended. -/
theorem call_of_dead (kind : Commission) (hdead : c.store.live? c.now key = none)
    (hfree : c.store.flights.isRunning key = false) (hneg : ttl.isNegative = false)
    (ending : Ending V) :
    c.call (kind.request key ttl) (idling later ending) =
      ((((c.commissionedUntil kind key later).finish
          (kind.next key ttl (ExpiringCache.expiryFrom c.now ttl)) ending).1.result, some ()),
        ((c.commissionedUntil kind key later).finish
          (kind.next key ttl (ExpiringCache.expiryFrom c.now ttl)) ending).2) := by
  rw [call, begin_request kind hdead (fun _ => hfree) hneg]
  rfl

/-- Without a value nothing is stored. -/
theorem call_of_failed (kind : Commission) (hdead : c.store.live? c.now key = none)
    (hfree : c.store.flights.isRunning key = false) (hneg : ttl.isNegative = false)
    {ending : Ending V} (hending : ∀ value, ending ≠ .value value) :
    c.call (kind.request key ttl) (idling later ending) =
      ((ending.toExcept.map fun value => kind.reply value false, some ()),
        c.missedUntil later) := by
  have hflights : (c.commissionedUntil kind key later).store.flights =
      if kind.exclusive then c.store.flights.enter key else c.store.flights := by
    rw [commissionedUntil_eq]
    split
    · rfl
    · rfl
  have hended : (c.commissionedUntil kind key later).withFlights c.store.flights =
      c.missedUntil later := by
    rw [commissionedUntil_eq]
    split
    · rfl
    · rfl
  rw [call_of_dead kind hdead hfree hneg,
    finish_failed kind key ttl _ hending hflights, hended]
  rfl

/-- A value is stored like any other, but it is the kind of the call that
    decides when it expires. -/
theorem call_of_value (kind : Commission) (hdead : c.store.live? c.now key = none)
    (hfree : c.store.flights.isRunning key = false) (hneg : ttl.isNegative = false)
    (hlater : c.now ≤ later.now) (value : V) :
    ∃ final, c.call (kind.request key ttl) (idling later (.value value)) =
        ((.ok (kind.reply (some value) true), some ()), final) ∧
      final.timeless = ((c.missedUntil later).write key value
        (kind.expiry c (c.missedUntil later) ttl)).timeless ∧
      final.now = later.now := by
  rw [call_of_dead kind hdead hfree hneg, commissionedUntil_eq, expiry]
  cases hexclusive : kind.exclusive with
  | true =>
      have hflights : ((c.missedUntil later).led key).store.flights =
          c.store.flights.enter key := rfl
      have hfinish := finish_exclusive hexclusive hflights ttl
        (ExpiringCache.expiryFrom c.now ttl) value
      rw [if_pos rfl, hfinish]
      exact ⟨_, rfl, rfl, now_write (c.missedUntil later) key value _⟩
  | false =>
      rw [if_neg Bool.false_ne_true, if_neg Bool.false_ne_true]
      cases kind with
      | getOrPut => cases hexclusive
      | putIfAbsent exclusive =>
          rw [next, hexclusive]
          refine ⟨_, rfl, ?_, ?_⟩
          · exact timeless_write (timeless_expiryFrom _ ttl) (now_expiryFrom _ ttl) key value _
          · exact (now_write _ key value _).trans (now_expiryFrom (c.missedUntil later) ttl)
      | getOrPutFrom exclusive =>
          -- the call looks again, but the key is still not live
          have henter := enterNew_given_of_dead (c := c.missedUntil later)
            (dead_missedUntil hdead hlater) hfree value hneg
          rw [next, hexclusive]
          refine ⟨(c.missedUntil later).read.write key value
            (ExpiringCache.expiryFrom (c.missedUntil later).now ttl), ?_, ?_, ?_⟩
          · show ((((c.missedUntil later).enterNew key (.given value) ttl false).1.result, _),
              ((c.missedUntil later).enterNew key (.given value) ttl false).2) = _
            rw [henter]
            rfl
          · exact timeless_write (timeless_read _) (now_read _) key value _
          · exact (now_write _ key value _).trans (now_read _)

/-! ## Calls that ask for the same -/

variable {kind kind' : Commission}

omit [DecidableEq K] in
/-- Two ways that ask for the same thing reply in the same way. -/
theorem reply_congr (hasks : kind.asksStored = kind'.asksStored) (value : Option V)
    (stored : Bool) : (kind.reply value stored : Reply K V) = kind'.reply value stored := by
  rw [reply, reply, hasks]

/-- The results are the same: the expiry is not part of them. -/
theorem result_congr (hasks : kind.asksStored = kind'.asksStored)
    (hfree : c.store.flights.isRunning key = false) (hneg : ttl.isNegative = false)
    (hlater : c.now ≤ later.now) (ending : Ending V) :
    (c.call (kind.request key ttl) (idling later ending)).1 =
      (c.call (kind'.request key ttl) (idling later ending)).1 := by
  have hreply := fun value stored => reply_congr (K := K) (V := V) hasks value stored
  cases hlive : c.store.live? c.now key with
  | some held => rw [kind.call_of_live hlive, kind'.call_of_live hlive, hreply]
  | none =>
      rcases ending.value_or with ⟨value, rfl⟩ | hending
      · obtain ⟨final, hcall, -, -⟩ := kind.call_of_value hlive hfree hneg hlater value
        obtain ⟨final', hcall', -, -⟩ := kind'.call_of_value hlive hfree hneg hlater value
        rw [hcall, hcall', hreply]
      · rw [kind.call_of_failed hlive hfree hneg hending,
          kind'.call_of_failed hlive hfree hneg hending]
        simp only [hreply]

/-- What was stored has the expiry that the kind of the call gives it. -/
theorem item?_of_value (kind : Commission) (hranked : c.Ranked)
    (hdead : c.store.live? c.now key = none) (hfree : c.store.flights.isRunning key = false)
    (hneg : ttl.isNegative = false) (hlater : c.now ≤ later.now) (value : V) :
    (c.call (kind.request key ttl) (idling later (.value value))).2.store.item? key =
        some ⟨value, kind.expiry c (c.missedUntil later) ttl⟩ ∧
      (c.call (kind.request key ttl) (idling later (.value value))).2.now = later.now := by
  obtain ⟨final, hcall, htimeless, hnow⟩ := kind.call_of_value hdead hfree hneg hlater value
  have hended : (c.missedUntil later).Ranked := hranked.same rfl rfl
  rw [hcall]
  refine ⟨?_, hnow⟩
  show final.store.item? key = _
  rw [store_eq_of_timeless htimeless]
  exact hended.item?_write key value _

/-- The calls leave the same behind if nothing is stored, or if it is stored
    with the same expiry. -/
theorem timeless_congr (hfree : c.store.flights.isRunning key = false)
    (hneg : ttl.isNegative = false) (hlater : c.now ≤ later.now) {ending : Ending V}
    (hsame : (c.store.live? c.now key).isSome = true ∨ (∀ value, ending ≠ .value value) ∨
      kind.expiry c (c.missedUntil later) ttl = kind'.expiry c (c.missedUntil later) ttl) :
    (c.call (kind.request key ttl) (idling later ending)).2.timeless =
      (c.call (kind'.request key ttl) (idling later ending)).2.timeless := by
  cases hlive : c.store.live? c.now key with
  | some held => rw [kind.call_of_live hlive, kind'.call_of_live hlive]
  | none =>
      rcases ending.value_or with ⟨value, rfl⟩ | hending
      · have hexpiry : kind.expiry c (c.missedUntil later) ttl =
            kind'.expiry c (c.missedUntil later) ttl := by
          rcases hsame with hsome | hnot | hexpiry
          · rw [hlive] at hsome
            cases hsome
          · exact absurd rfl (hnot value)
          · exact hexpiry
        obtain ⟨final, hcall, hleft, -⟩ := kind.call_of_value hlive hfree hneg hlater value
        obtain ⟨final', hcall', hleft', -⟩ := kind'.call_of_value hlive hfree hneg hlater value
        rw [hcall, hcall']
        show final.timeless = final'.timeless
        rw [hleft, hleft', hexpiry]
      · rw [kind.call_of_failed hlive hfree hneg hending,
          kind'.call_of_failed hlive hfree hneg hending]

/-- What is seen of a value right after the call that stored it, at `now`. -/
structure Seen (final : Cache K V) (key : K) (value : V) (now expireAt : Int)
    (ttl : Duration) : Prop where
  get : (final.get key).1 = if now < expireAt then some value else none
  lifetime : (final.lifetime key).1 =
    if now < expireAt then Item.remainingAt ⟨value, expireAt⟩ now else Store.absentSpan
  -- if the lifetime started when the value was stored, nothing of it is gone
  whole : expireAt = ExpiringCache.expiryFrom now ttl → 0 ≤ now → now < never → 1 ≤ ttl.millis →
    (final.get key).1 = some value ∧
      (final.lifetime key).1 = if now + ttl.millis < never then ttl.millis else 0

/-- An item that is stored is seen by a look-up and by a question for its
    lifetime. -/
theorem seen_of_item {final : Cache K V} {value : V} {expireAt : Int}
    (hitem : final.store.item? key = some ⟨value, expireAt⟩) (ttl : Duration) :
    Seen final key value final.now expireAt ttl where
  get := get_of_item hitem
  lifetime := lifetime_of_item hitem
  whole := by
    rintro rfl hpast hnever hmillis
    obtain ⟨hlive, hleft⟩ := Item.remainingAt_expiryFrom value hpast hnever hmillis
    rw [get_of_item hitem, lifetime_of_item hitem, if_pos hlive, if_pos hlive, hleft]
    exact ⟨rfl, rfl⟩

/-- At every moment of every session: of the calls that ask for the same, with
    a computation that makes no calls, the results are the same.  They leave
    the same behind, but for the clock, just if the key is live, or nothing
    was computed, or the value expires at the same time whether its lifetime
    starts before or after the computation.  Only where it starts after it is
    the whole of it left. -/
theorem agree_iff_same_expiry (capacity : Nat) (clock : Clock) (moves : List (Move K V))
    {c : Cache K V} (hreached : c = ((Session.fresh capacity clock).run moves).cache)
    (kind kind' : Commission) (hasks : kind.asksStored = kind'.asksStored) (key : K)
    (ttl : Duration) (hneg : ttl.isNegative = false)
    (hfree : c.store.flights.isRunning key = false) (later : Clock) (hlater : c.now ≤ later.now)
    (ending : Ending V) :
    (c.call (kind.request key ttl) (idling later ending)).1 =
        (c.call (kind'.request key ttl) (idling later ending)).1 ∧
      ((c.call (kind.request key ttl) (idling later ending)).2.timeless =
          (c.call (kind'.request key ttl) (idling later ending)).2.timeless ↔
        (c.store.live? c.now key).isSome = true ∨ (∀ value, ending ≠ .value value) ∨
          kind.expiry c (c.missedUntil later) ttl = kind'.expiry c (c.missedUntil later) ttl) ∧
      ∀ value, ending = .value value → c.store.live? c.now key = none →
        Seen (c.call (kind.request key ttl) (idling later ending)).2 key value later.now
          (kind.expiry c (c.missedUntil later) ttl) ttl := by
  have hranked : c.Ranked := hreached ▸ Session.ranked_run (ranked_new capacity clock) moves
  refine ⟨result_congr hasks hfree hneg hlater ending, ⟨fun hsame => ?_, ?_⟩, ?_⟩
  · cases hlive : c.store.live? c.now key with
    | some held => exact Or.inl rfl
    | none =>
        rcases ending.value_or with ⟨value, rfl⟩ | hending
        · -- the two items are the same, and so are their expiries
          have hitem := (kind.item?_of_value hranked hlive hfree hneg hlater value).1
          have hitem' := (kind'.item?_of_value hranked hlive hfree hneg hlater value).1
          rw [store_eq_of_timeless hsame, hitem'] at hitem
          have hexpiry := congrArg Item.expireAt (Option.some.inj hitem)
          exact Or.inr (Or.inr hexpiry.symm)
        · exact Or.inr (Or.inl hending)
  · exact timeless_congr hfree hneg hlater
  · rintro value rfl hdead
    obtain ⟨hitem, hnow⟩ := kind.item?_of_value hranked hdead hfree hneg hlater value
    rw [← hnow]
    exact seen_of_item hitem ttl

/-- It takes 20 ms to compute a value that is to live for 10 ms.  Outside a
    flight it is there with its whole lifetime; under one it is stored, and
    nobody finds it. -/
theorem expired_when_stored :
    let final := fun kind : Commission =>
      ((new 0 (.unread 1000) : Cache Nat Nat).call (kind.request 1 ⟨10000000, by decide⟩)
        (idling ⟨1020, 1000⟩ (.value 5))).2
    [putIfAbsent false, getOrPutFrom false].map (fun kind =>
        ((final kind).store.item? 1, ((final kind).get 1).1, ((final kind).lifetime 1).1)) =
      [(some ⟨5, 1030⟩, some 5, 10), (some ⟨5, 1030⟩, some 5, 10)] ∧
    [putIfAbsent true, getOrPut, getOrPutFrom true].map (fun kind =>
        ((final kind).store.item? 1, ((final kind).get 1).1, ((final kind).lifetime 1).1)) =
      [(some ⟨5, 1010⟩, none, -1), (some ⟨5, 1010⟩, none, -1), (some ⟨5, 1010⟩, none, -1)] := by
  decide

/-- A value that was computed outside a flight, for 20 ms, has its 10 ms; the
    same value computed under a flight has another expiry. -/
theorem agree_iff_same_expiry_late :
    let c : Cache Nat Nat := new 0 (.unread 1000)
    let ttl : Duration := ⟨10000000, by decide⟩
    let later : Clock := ⟨1020, 1000⟩
    let outside := c.call ((getOrPutFrom false).request 1 ttl) (idling later (.value 5))
    let under := c.call (getOrPut.request 1 ttl) (idling later (.value 5))
    outside.1 = under.1 ∧ outside.2.timeless ≠ under.2.timeless ∧
      (outside.2.get 1).1 = some 5 ∧ (outside.2.lifetime 1).1 = 10 := by
  intro c ttl later outside under
  have hreached : c = ((Session.fresh 0 (.unread 1000)).run []).cache := rfl
  obtain ⟨hresult, hstate, hseen⟩ := agree_iff_same_expiry 0 (.unread 1000) [] hreached
    (getOrPutFrom false) getOrPut rfl 1 ttl (by decide) rfl later (by decide) (.value 5)
  refine ⟨hresult, fun hsame => ?_, ?_⟩
  · rcases hstate.mp hsame with hlive | hnot | hexpiry
    · exact absurd hlive (by decide)
    · exact absurd rfl (hnot 5)
    · exact absurd hexpiry (by decide)
  · exact (hseen 5 rfl rfl).whole (by decide) (by decide) (by decide) (by decide)

end Commission

end ExpiringCache
