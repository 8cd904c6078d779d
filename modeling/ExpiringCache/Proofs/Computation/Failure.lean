import ExpiringCache.Proofs.Computation.Commission

/-! # Computations that come to nothing

    A computation that ends without a value, whether it has none, fails or
    panics, leaves behind what it did itself and nothing else: the call that
    commissioned it ends the flight, if it has registered one, and hands the
    ending on.  So the key can be computed again at once.

    A negative lifetime is another matter.  The calls that ask whether
    something was stored do not run their computations; the others do, and
    then remove the key, of which nobody can tell because it was not
    live. -/

namespace ExpiringCache

variable {K V : Type} [DecidableEq K]

namespace Cache

/-! ## The end of a call whose computation came to nothing -/

omit [DecidableEq K] in
theorem withFlights_eq_self {d : Cache K V} {flights : Flights K}
    (h : d.store.flights = flights) : d.withFlights flights = d := by
  rw [← h]
  rfl

/-- The flight is ended, nothing is stored, and the caller is told. -/
theorem finish_failed (kind : Commission) (key : K) (ttl : Duration) (expireAt : Int)
    {ending : Ending V} (hending : ∀ value, ending ≠ .value value) {d : Cache K V}
    {flights : Flights K}
    (hflights : d.store.flights = if kind.exclusive then flights.enter key else flights) :
    d.finish (kind.next key ttl expireAt) ending =
      (.done (ending.toExcept.map fun value => kind.reply value false),
        d.withFlights flights) := by
  cases hexclusive : kind.exclusive with
  | true =>
      rw [if_pos hexclusive] at hflights
      have hled : d = (d.withFlights flights).led key := (withFlights_eq_self hflights).symm
      have hleave := (d.withFlights flights).leave_led key kind.asksStored .produced expireAt ending
      rw [← hled] at hleave
      simp only [Commission.next, hexclusive, if_true, finish, Commission.turn, hleave]
      cases ending with
      | value v => exact absurd rfl (hending v)
      | nothing => rfl
      | failed failure => rfl
      | panicked text => rfl
  | false =>
      rw [hexclusive, if_neg Bool.false_ne_true] at hflights
      rw [withFlights_eq_self hflights]
      cases hasks : kind.asksStored with
      | true =>
          simp only [Commission.next, hexclusive, hasks, Bool.false_eq_true, if_false, if_true,
            finish, Commission.reply]
          cases ending with
          | value v => exact absurd rfl (hending v)
          | nothing => rfl
          | failed failure => rfl
          | panicked text => rfl
      | false =>
          simp only [Commission.next, hexclusive, hasks, Bool.false_eq_true, if_false, finish,
            Commission.reply]
          cases ending with
          | value v => exact absurd rfl (hending v)
          | nothing => rfl
          | failed failure => rfl
          | panicked text => rfl

/-! ## What nobody can tell from the live entries -/

/-- Nobody who looks after the latest reading can tell the two caches from
    their live entries. -/
structure Spares (c c' : Cache K V) : Prop where
  latest : c.clock.latest ≤ c'.clock.latest
  live? : ∀ time ≥ c'.clock.latest, ∀ k, c'.store.live? time k = c.store.live? time k

theorem Spares.trans {c c' c'' : Cache K V} (h : c.Spares c') (h' : c'.Spares c'') :
    c.Spares c'' where
  latest := Int.le_trans h.latest h'.latest
  live? := fun time hle k =>
    (h'.live? time hle k).trans (h.live? time (Int.le_trans h'.latest hle) k)

/-- Nothing happens to the items. -/
theorem Spares.same {c c' : Cache K V} (hlatest : c.clock.latest ≤ c'.clock.latest)
    (hitem : ∀ k, c'.store.item? k = c.store.item? k) : c.Spares c' where
  latest := hlatest
  live? := fun time _ k => by rw [Store.live?, Store.live?, hitem]

theorem spares_missed (c : Cache K V) : c.Spares c.missed :=
  .same c.latest_le_read fun _ => rfl

/-- A sweep deletes what is expired, and the clock may be moved. -/
theorem spares_command (c : Cache K V) (what : Command) : c.Spares (c.command what).2 := by
  cases what with
  | sweep =>
      rw [command_sweep, sweep, sweepAt]
      have hthins : Thins c.now c.read (c.read.sweepWith id c.now).2 := thins_sweepWith id c.read
      have hidle := idle_sweepWith id c.read c.now
      generalize (c.read.sweepWith id c.now).2 = swept at hthins hidle
      rw [idle, Prod.mk.injEq] at hidle
      refine ⟨?_, fun time hle k => ?_⟩
      · rw [hidle.2]
        exact c.latest_le_read
      · rw [hidle.2] at hle
        exact hthins.live? hle k
  | advance ms => exact .same (Int.le_refl _) fun _ => rfl
  | setWall wall => exact .same (Int.le_refl _) fun _ => rfl

theorem spares_commands {B : Type} (view : Cache K V → B) (whats : List Command)
    (c : Cache K V) : c.Spares ((party view).runAll (whats.map .command) c).2 := by
  induction whats generalizing c with
  | nil =>
      simp only [List.map_nil, Party.runAll]
      exact .same (Int.le_refl _) fun _ => rfl
  | cons what rest ih =>
      simp only [List.map_cons, Party.runAll, Party.run_command]
      exact (c.spares_command what).trans (ih _)

/-- Removing a key that has not been live since the latest reading. -/
theorem spares_remove {c : Cache K V} {key : K}
    (hdead : c.store.live? c.clock.latest key = none) : c.Spares (c.remove [key]).2 := by
  refine ⟨latest_le_remove c [key], fun time hle k => ?_⟩
  rw [Store.live?, item?_remove]
  split
  · rename_i hk
    rw [List.mem_singleton.mp hk]
    cases hlive : c.store.live? time key with
    | none => rfl
    | some item =>
        have hpast := Int.le_trans (latest_le_remove c [key]) hle
        rw [Store.live?_of_le hpast hlive] at hdead
        cases hdead
  · rfl

/-- A value that is obtained under a negative lifetime is not stored, and the
    key is removed, if the call gets so far. -/
theorem spares_enter_negative {c : Cache K V} {key : K}
    (hdead : c.store.live? c.clock.latest key = none) (payload : Payload V) (asksStored : Bool) :
    c.Spares (c.enter ⟨key, payload, none, asksStored⟩).2 := by
  have hsame : c.Spares c := .same (Int.le_refl _) fun _ => rfl
  rw [enter]
  split
  · exact hsame
  · rename_i hfree
    cases payload with
    | given value =>
        simp only [Store.beginProduce, if_neg hfree]
        exact spares_remove hdead
    | produced =>
        simp only [Store.beginProduce, if_neg hfree]
        exact .same (Int.le_refl _) fun _ => rfl

/-- The end of a commission under a negative lifetime, whatever the
    computation has come to. -/
theorem spares_finish_negative {c : Cache K V} {key : K}
    (hdead : c.store.live? c.clock.latest key = none) {ttl : Duration}
    (hneg : ttl.isNegative = true) (asksStored : Bool) (ending : Ending V) :
    c.Spares (c.finish (.offer key ttl) ending).2 ∧
      c.Spares (c.finish (.lead ⟨key, .produced, none, asksStored⟩) ending).2 := by
  have hsame : c.Spares c := .same (Int.le_refl _) fun _ => rfl
  have hleft : c.Spares (c.withFlights (c.store.flights.leave key)) :=
    .same (Int.le_refl _) fun _ => rfl
  have hremoved : c.Spares ((c.withFlights (c.store.flights.leave key)).remove [key]).2 :=
    hleft.trans (spares_remove hdead)
  constructor
  · cases ending with
    | value v =>
        show c.Spares (c.enterNew key (.given v) ttl false).2
        rw [enterNew_of_negative c key ttl false hneg]
        exact spares_enter_negative hdead (.given v) false
    | nothing => exact hsame
    | failed failure => exact hsame
    | panicked text => exact hsame
  · cases ending with
    | value v => exact hremoved
    | nothing => exact hremoved
    | failed failure => exact hremoved
    | panicked text => exact hleft

/-- While a value is computed without calls, no live entry changes, and the
    key stays as dead as the call has found it. -/
theorem spares_during {B : Type} (view : Cache K V → B) {c start : Cache K V} {key : K}
    (hdead : c.store.live? c.now key = none) (hstart : c.missed.Spares start)
    (whats : List Command) :
    c.Spares ((party view).runAll (whats.map .command) start).2 ∧
      ((party view).runAll (whats.map .command) start).2.store.live?
        ((party view).runAll (whats.map .command) start).2.clock.latest key = none := by
  have hspares := hstart.trans (start.spares_commands view whats)
  generalize ((party view).runAll (whats.map .command) start).2 = ended at hspares
  refine ⟨c.spares_missed.trans hspares, ?_⟩
  rw [hspares.live? _ (Int.le_refl _)]
  cases hlive : c.missed.store.live? ended.clock.latest key with
  | none => rfl
  | some item =>
      -- the clock has not gone below the reading that the call took
      have hpast : c.now ≤ ended.clock.latest := hspares.latest
      have hlive' : c.store.live? c.now key = some item := Store.live?_of_le hpast hlive
      rw [hdead] at hlive'
      cases hlive'

/-- A call that is to obtain a value under a free flight and a negative
    lifetime registers the flight, with no expiry. -/
theorem enterNew_missed_negative {c : Cache K V} {key : K}
    (hfree : c.store.flights.isRunning key = false) {ttl : Duration}
    (hneg : ttl.isNegative = true) :
    c.missed.enterNew key .produced ttl false =
      (.producing (.lead ⟨key, .produced, none, false⟩), c.missed.led key) := by
  have hfree' : c.missed.store.flights.isRunning key = false := hfree
  rw [enterNew_of_negative _ _ _ _ hneg]
  simp only [enter, Store.beginProduce, hfree', Bool.false_eq_true, if_false]
  rfl

end Cache

/-! ## Whole calls -/

namespace Commission

open Cache

variable {B : Type}

/-- The call ran its computation once, handed on how it ended, and left the
    cache as it was when the computation ended, without the flight that it
    had registered.  So the key can be computed by any further call. -/
structure Traceless (kind : Commission) (view : Cache K V → B) (c : Cache K V) (key : K)
    (ttl : Duration) (body : List (Act K V Command)) (ending : Ending V) : Prop where
  run : (party view).run (.call (kind.request key ttl) body ending) c =
    (.call (ending.toExcept.map fun value => kind.reply value false)
        (some (kind.during view c key body).1)
        (view ((kind.during view c key body).2.withFlights c.store.flights)),
      (kind.during view c key body).2.withFlights c.store.flights)
  registered : (kind.during view c key body).2.store.flights =
    if kind.exclusive then c.store.flights.enter key else c.store.flights
  again : ∀ (further : Commission) (ttl' : Duration), ttl'.isNegative = false →
    (further.exclusive = true → c.store.flights.isRunning key = false) →
    (kind.during view c key body).2.store.live? (kind.during view c key body).2.now key = none →
      ∃ next start,
        ((kind.during view c key body).2.withFlights c.store.flights).begin
          (further.request key ttl') = (.producing next, start)

/-- Without a value, and with a lifetime that is not negative. -/
theorem traceless (kind : Commission) (view : Cache K V → B) {c : Cache K V} {key : K}
    (hdead : c.store.live? c.now key = none)
    (hfree : kind.exclusive = true → c.store.flights.isRunning key = false) {ttl : Duration}
    (hneg : ttl.isNegative = false) (body : List (Act K V Command)) {ending : Ending V}
    (hending : ∀ value, ending ≠ .value value) : kind.Traceless view c key ttl body ending where
  run := by
    rw [run_of_producing view (begin_request kind hdead hfree hneg)]
    have hflights : (kind.during view c key body).2.store.flights =
        if kind.exclusive then c.store.flights.enter key else c.store.flights :=
      flights_commissioned view kind body
    rw [during] at hflights
    rw [finish_failed kind key ttl _ hending hflights]
    rfl
  registered := flights_commissioned view kind body
  again := fun further ttl' hneg' hfree' hdead' =>
    ⟨_, _, begin_request (c := (kind.during view c key body).2.withFlights c.store.flights)
      further hdead' hfree' hneg'⟩

/-- Under a negative lifetime, no live entry changes. -/
theorem spares_negative (kind : Commission) (view : Cache K V → B) {c : Cache K V} {key : K}
    (hdead : c.store.live? c.now key = none)
    (hfree : kind.exclusive = true → c.store.flights.isRunning key = false) {ttl : Duration}
    (hneg : ttl.isNegative = true) (whats : List Command) (ending : Ending V) :
    c.Spares ((party view).run (.call (kind.request key ttl) (whats.map .command) ending) c).2 ∧
      (kind.asksStored = true →
        (party view).run (.call (kind.request key ttl) (whats.map .command) ending) c =
          (.call (.ok (.flag false)) none (view c.missed), c.missed)) := by
  have hget := get_eq_missed hdead
  -- a commission that answers the value runs its computation under a flight, or outside any
  have hleads : ∀ {request : Request K V},
      c.begin request = c.missed.enterNew key .produced ttl false →
      c.store.flights.isRunning key = false →
      c.Spares ((party view).run (.call request (whats.map .command) ending) c).2 := by
    intro request hbegin hrunning
    rw [enterNew_missed_negative hrunning hneg] at hbegin
    rw [run_of_producing view hbegin]
    have hled : c.missed.Spares (c.missed.led key) := .same (Int.le_refl _) fun _ => rfl
    obtain ⟨hspares, hstill⟩ := spares_during view hdead hled whats
    exact hspares.trans (spares_finish_negative hstill hneg false ending).2
  cases kind with
  | putIfAbsent exclusive =>
      have hbegin : c.begin ((putIfAbsent exclusive).request key ttl) =
          (.reply (.flag false), c.missed) := by
        show c.beginPutIfAbsentFrom key ttl exclusive = _
        rw [beginPutIfAbsentFrom, contains, hget]
        simp [hneg]
      rw [run_of_reply view hbegin]
      exact ⟨c.spares_missed, fun _ => rfl⟩
  | getOrPut =>
      refine ⟨hleads (beginGetOrPut_of_none hget _ ttl) (hfree rfl), fun hasks => ?_⟩
      cases hasks
  | getOrPutFrom exclusive => cases exclusive with
    | true =>
        refine ⟨hleads (beginGetOrPut_of_none hget _ ttl) (hfree rfl), fun hasks => ?_⟩
        cases hasks
    | false =>
        refine ⟨?_, fun hasks => absurd hasks Bool.false_ne_true⟩
        have hbegin : c.begin ((getOrPutFrom false).request key ttl) =
            (.producing (.offer key ttl), c.missed) := beginGetOrOffer_of_none hget ttl
        rw [run_of_producing view hbegin]
        obtain ⟨hspares, hstill⟩ :=
          spares_during view hdead (.same (Int.le_refl _) fun _ => rfl) whats
        exact hspares.trans (spares_finish_negative hstill hneg false ending).1

/-- Of a computation without a value, for a key that is not live, nothing is
    left but what it did itself.  Under a negative lifetime, a computation
    that makes no calls of its own changes no live entry whatever it comes
    to, and the calls that ask whether something was stored do not run it. -/
theorem failure_leaves_no_trace (kind : Commission) (view : Cache K V → B) (c : Cache K V)
    (key : K) (ttl : Duration) (ending : Ending V)
    (hdead : c.store.live? c.now key = none)
    (hfree : kind.exclusive = true → c.store.flights.isRunning key = false) :
    (ttl.isNegative = false → (∀ value, ending ≠ .value value) →
        ∀ body, kind.Traceless view c key ttl body ending) ∧
      (ttl.isNegative = true → ∀ whats : List Command,
        c.Spares
            ((party view).run (.call (kind.request key ttl) (whats.map .command) ending) c).2 ∧
          (kind.asksStored = true →
            (party view).run (.call (kind.request key ttl) (whats.map .command) ending) c =
              (.call (.ok (.flag false)) none (view c.missed), c.missed))) :=
  ⟨fun hneg hending body => kind.traceless view hdead hfree hneg body hending,
    fun hneg whats => kind.spares_negative view hdead hfree hneg whats ending⟩

/-- Under a flight, a computation stores another key and makes a call that
    fails, and then panics; and under a negative lifetime, a sweep passes
    while another one comes to a value. -/
theorem failure_leaves_no_trace_nested :
    (new 0 (.unread 1000) : Cache Nat Nat).store.live? 1000 1 = none ∧
      (getOrPutFrom true).Traceless Cache.shown (new 0 (.unread 1000) : Cache Nat Nat) 1 .zero
        [.call (.put 2 20 .zero) [] .nothing,
          .call (.putIfAbsentFrom 3 .zero true) [] (.failed ⟨"no value", []⟩)]
        (.panicked "out of luck") ∧
      (new 0 (.unread 1000) : Cache Nat Nat).Spares
        ((party Cache.shown).run
          (.call (getOrPut.request 1 ⟨-1, by decide⟩) ([.sweep].map .command) (.value 10))
          (new 0 (.unread 1000) : Cache Nat Nat)).2 :=
  ⟨rfl,
    (failure_leaves_no_trace (getOrPutFrom true) Cache.shown (new 0 (.unread 1000)) 1 .zero
      (.panicked "out of luck") rfl fun _ => rfl).1 rfl nofun _,
    ((failure_leaves_no_trace getOrPut Cache.shown (new 0 (.unread 1000)) 1 ⟨-1, by decide⟩
      (.value 10) rfl fun _ => rfl).2 rfl [.sweep]).1⟩

end Commission

end ExpiringCache
