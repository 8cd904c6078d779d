import ExpiringCache.Proofs.PlainCache.Operations

/-! # Calls on both sides

    A call gives the same result on a cache and on a plain cache that are
    alike, and leaves them alike, provided that the caller's computation does
    nothing to the cache.  What a snapshot lists may come in another order,
    and of the counters a plain cache knows the number of entries only.

    Alone, a caller that computes a value under a flight leads that flight:
    it finds it free, enters it, and ends it again, so in the end the
    registry of flights is as it was. -/

namespace ExpiringCache

variable {K V : Type}

/-! ## Results -/

/-- Two replies say the same, up to the order in which entries are listed
    and to counters that only one side keeps. -/
inductive Reply.Like : Reply K V → Reply K V → Prop where
  | same (reply : Reply K V) : Like reply reply
  | keys {ks ks' : List K} (h : ks.Perm ks') : Like (.keys ks) (.keys ks')
  | values {vs vs' : List V} (h : vs.Perm vs') : Like (.values vs) (.values vs')
  | data {es es' : List (K × V)} (h : es.Perm es') : Like (.data es) (.data es')
  | stats {s s' : Stats} (h : s.entries = s'.entries) : Like (.stats s) (.stats s')

/-- Two results are the same fault, or replies that say the same. -/
inductive ResultLike : Except Fault (Reply K V) → Except Fault (Reply K V) → Prop where
  | fault (f : Fault) : ResultLike (.error f) (.error f)
  | reply {r r' : Reply K V} (h : r.Like r') : ResultLike (.ok r) (.ok r')

/-- Equal results are alike. -/
theorem ResultLike.same (result : Except Fault (Reply K V)) : ResultLike result result := by
  cases result with
  | error f => exact .fault f
  | ok reply => exact .reply (.same reply)

variable [DecidableEq K]

/-- Two outcomes of a call: the results say the same, the computation has run
    on both sides or on neither, and the caches are alike. -/
structure Matches {R R' : Type} (o : (Except Fault (Reply K V) × Option R) × Cache K V)
    (o' : PlainCache.Outcome K V R') : Prop where
  result : ResultLike o.1.1 o'.1.1
  ran : o.1.2.isSome = o'.1.2.isSome
  alike : Alike o.2 o'.2

/-! ## Flights of a caller that is alone -/

/-- The cache while the flight of `key` is in progress. -/
def Cache.led (c : Cache K V) (key : K) : Cache K V :=
  { c with store := { c.store with flights := c.store.flights.enter key } }

namespace Cache

variable (c : Cache K V) (key : K) (ttl : Duration) (asks : Bool)

/-- With a negative lifetime a flight is entered without an expiry. -/
theorem enterNew_of_negative (h : ttl.isNegative = true) (payload : Payload V) :
    c.enterNew key payload ttl asks = c.enter ⟨key, payload, none, asks⟩ := by
  rw [enterNew, turn, if_pos h]

/-- With another lifetime a flight is entered once the expiry is fixed. -/
theorem enterNew_of_nonnegative (h : ttl.isNegative = false) (payload : Payload V) :
    c.enterNew key payload ttl asks =
      (c.expiryFrom ttl).2.enter ⟨key, payload, some (c.expiryFrom ttl).1, asks⟩ := by
  rw [enterNew, turn, if_neg (by rw [h]; exact Bool.false_ne_true)]

/-- A flight that ends leaves the registry as it was; its value is written
    like any other. -/
theorem leave_led (payload : Payload V) (expireAt : Int) (ending : Ending V) :
    (c.led key).leave ⟨key, payload, some expireAt, asks⟩ ending =
      (ending.toExcept.map fun value =>
          Turn.reply ⟨key, payload, some expireAt, asks⟩ value value.isSome,
        match ending with
        | .value value => c.write key value expireAt
        | _ => c) := by
  have hflights := c.store.flights.leave_enter key
  cases ending with
  | value v => 
      simp only [led, leave, Store.endSetUnlessLive, Ending.toExcept, Except.map, settle,
        Store.set, hflights]
      rfl
  | nothing =>
      simp only [led, leave, Store.endSetUnlessLive, Ending.toExcept, Except.map, settle,
        hflights]
      rfl
  | failed failure =>
      simp only [led, leave, Store.endSetUnlessLive, Ending.toExcept, Except.map, hflights]
  | panicked text =>
      simp only [led, leave, Store.endSetUnlessLive, Ending.toExcept, Except.map, hflights]

/-- Under a negative lifetime nothing is written, and the key is removed
    unless the computation panicked. -/
theorem leave_led_of_negative (payload : Payload V) (ending : Ending V) :
    (c.led key).leave ⟨key, payload, none, asks⟩ ending =
      (ending.toExcept.map fun value => Turn.reply ⟨key, payload, none, asks⟩ value false,
        match ending with
        | .panicked _ => c
        | _ => (c.remove [key]).2) := by
  have hflights := c.store.flights.leave_enter key
  cases ending with
  | value v => simp only [led, leave, Store.endProduce, Ending.toExcept, Except.map, settle,
      hflights]
  | nothing => simp only [led, leave, Store.endProduce, Ending.toExcept, Except.map, settle,
      hflights]
  | failed failure => simp only [led, leave, Store.endProduce, Ending.toExcept, Except.map,
      hflights]
  | panicked text => simp only [led, leave, Store.endProduce, Ending.toExcept, Except.map,
      hflights]

end Cache

namespace Alike

variable {c : Cache K V} {p : PlainCache K V} {key : K}

/-- No flight is in progress on a cache that is like a plain one. -/
theorem isRunning (h : Alike c p) (key : K) : c.store.flights.isRunning key = false := by
  simp [Flights.isRunning, h.running]

/-- A computation under a negative lifetime begins its flight. -/
theorem enter_produced_of_negative (h : Alike c p) (asks : Bool) :
    c.enter ⟨key, .produced, none, asks⟩ =
      (.producing (.lead ⟨key, .produced, none, asks⟩), c.led key) := by
  simp only [Cache.enter, Store.beginProduce, h.isRunning, Bool.false_eq_true, if_false]
  rfl

/-- A computation for a key that is not live begins its flight. -/
theorem enter_produced (h : Alike c p) (hdead : p.live? key = none) (expireAt : Int)
    (asks : Bool) :
    c.enter ⟨key, .produced, some expireAt, asks⟩ =
      (.producing (.lead ⟨key, .produced, some expireAt, asks⟩), c.read.led key) := by
  have hlive := h.read.live? key
  rw [hdead] at hlive
  simp only [Cache.enter, Store.beginSetUnlessLive, h.isRunning, h.read.isRunning,
    Bool.false_eq_true, if_false, hlive]
  rfl

/-- A value at hand is written under a flight if the key is not live. -/
theorem enter_given (h : Alike c p) (hdead : p.live? key = none) (value : V)
    (expireAt : Int) :
    c.enter ⟨key, .given value, some expireAt, false⟩ =
      (.reply (.value (some value)), c.read.write key value expireAt) := by
  have hlive := h.read.live? key
  rw [hdead] at hlive
  simp only [Cache.enter, Store.beginSetUnlessLive, h.isRunning, h.read.isRunning,
    Bool.false_eq_true, if_false, hlive]
  rfl

/-- Who has a value at hand and a negative lifetime answers the value and
    removes the key. -/
theorem enter_given_of_negative (h : Alike c p) (value : V) :
    c.enter ⟨key, .given value, none, false⟩ =
      (.reply (.value (some value)), (c.remove [key]).2) := by
  simp only [Cache.enter, Store.beginProduce, h.isRunning, Bool.false_eq_true, if_false]
  rfl

end Alike

/-! ## The course of a call -/

namespace Cache

variable {c c' : Cache K V} {request : Request K V} {R : Type}

/-- A call that is answered as it begins runs no computation. -/
theorem call_of_reply {reply : Reply K V} (h : c.begin request = (.reply reply, c'))
    (produce : Cache K V → (Ending V × R) × Cache K V) :
    c.call request produce = ((.ok reply, none), c') := by
  rw [call, h]
  rfl

/-- A computation that does nothing to the cache hands its ending on. -/
theorem call_of_producing {next : Pending K V} (h : c.begin request = (.producing next, c'))
    (ending : Ending V) (kept : R) :
    c.call request (fun c => ((ending, kept), c)) =
      (((c'.finish next ending).1.result, some kept), (c'.finish next ending).2) := by
  rw [call, h]

/-- A call that reads or stores answers a live value. -/
theorem beginGetOrPut_of_some {key : K} {value : V} (h : c.get key = (some value, c'))
    (payload : Payload V) (ttl : Duration) :
    c.beginGetOrPut key payload ttl = (.reply (.value (some value)), c') := by
  rw [beginGetOrPut, h]
  rfl

/-- A call that reads or stores enters a flight if its key is not live. -/
theorem beginGetOrPut_of_none {key : K} (h : c.get key = (none, c')) (payload : Payload V)
    (ttl : Duration) :
    c.beginGetOrPut key payload ttl = c'.enterNew key payload ttl false := by
  rw [beginGetOrPut, h]
  rfl

/-- A call that reads or offers answers a live value. -/
theorem beginGetOrOffer_of_some {key : K} {value : V} (h : c.get key = (some value, c'))
    (ttl : Duration) :
    c.beginGetOrOffer key ttl = (.reply (.value (some value)), c') := by
  rw [beginGetOrOffer, h]
  rfl

/-- A call that reads or offers has its value computed if its key is not live. -/
theorem beginGetOrOffer_of_none {key : K} (h : c.get key = (none, c')) (ttl : Duration) :
    c.beginGetOrOffer key ttl = (.producing (.offer key ttl), c') := by
  rw [beginGetOrOffer, h]
  rfl

end Cache

namespace Matches

variable {c : Cache K V} {p : PlainCache K V} {R R' : Type}

/-- A call that is over at once matches an answer. -/
theorem reply {r r' : Reply K V} (hr : r.Like r') (h : Alike c p) :
    Matches (R := R) ((.ok r, none), c) (PlainCache.answer (R := R') r' p) :=
  ⟨.reply hr, rfl, h⟩

end Matches

namespace Alike

variable {c : Cache K V} {p : PlainCache K V} {R R' : Type}

/-- A look-up of a live key moves it to the end on both sides. -/
theorem get_of_live (h : Alike c p) {key : K} {item : Item V} (hp : p.live? key = some item) :
    ∃ c', c.get key = (some item.value, c') ∧ Alike c' (p.place key item) := by
  obtain ⟨hvalue, halike⟩ := h.get key
  rw [PlainCache.get_of_live hp] at hvalue halike
  exact ⟨(c.get key).2, Prod.ext hvalue rfl, halike⟩

/-- A look-up of a key that is not live leaves a plain cache as it is. -/
theorem get_of_dead (h : Alike c p) {key : K} (hp : p.live? key = none) :
    ∃ c', c.get key = (none, c') ∧ Alike c' p := by
  obtain ⟨hvalue, halike⟩ := h.get key
  rw [PlainCache.get_of_dead hp] at hvalue halike
  exact ⟨(c.get key).2, Prod.ext hvalue rfl, halike⟩

/-- A leader under a negative lifetime removes the key. -/
theorem leave_of_negative (h : Alike c p) {ttl : Duration} (httl : ttl.isNegative = true)
    (key : K) (ending : Ending V) (kept : R) (kept' : R') :
    Matches
      ((((c.led key).leave ⟨key, .produced, none, false⟩ ending).1, some kept),
        ((c.led key).leave ⟨key, .produced, none, false⟩ ending).2)
      (p.answerProduced key ttl true fun p => ((ending, kept'), p)) := by
  rw [c.leave_led_of_negative]
  cases ending with
  | value v =>
      simp only [PlainCache.answerProduced, PlainCache.put_of_negative httl]
      exact ⟨.reply (.same _), rfl, h.erase key⟩
  | nothing =>
      simp only [PlainCache.answerProduced, httl]
      exact ⟨.same _, rfl, h.erase key⟩
  | failed failure =>
      simp only [PlainCache.answerProduced, httl]
      exact ⟨.same _, rfl, h.erase key⟩
  | panicked text => exact ⟨.same _, rfl, h⟩

/-- A leader that answers the value stores it. -/
theorem leave_answering (h : Alike c p) {ttl : Duration} (httl : ttl.isNegative = false)
    (key : K) (ending : Ending V) (kept : R) (kept' : R') :
    Matches
      ((((c.led key).leave ⟨key, .produced, some (ExpiringCache.expiryFrom p.now ttl), false⟩ ending).1,
          some kept),
        ((c.led key).leave ⟨key, .produced, some (ExpiringCache.expiryFrom p.now ttl), false⟩ ending).2)
      (p.answerProduced key ttl true fun p => ((ending, kept'), p)) := by
  rw [c.leave_led]
  cases ending with
  | value v =>
      simp only [PlainCache.answerProduced, PlainCache.put_of_nonnegative httl]
      exact ⟨.reply (.same _), rfl, h.write key v _⟩
  | nothing =>
      simp only [PlainCache.answerProduced, httl]
      exact ⟨.same _, rfl, h⟩
  | failed failure =>
      simp only [PlainCache.answerProduced, httl]
      exact ⟨.same _, rfl, h⟩
  | panicked text => exact ⟨.same _, rfl, h⟩

/-- A leader that says whether it stored the value stores it. -/
theorem leave_asking (h : Alike c p) {ttl : Duration} (httl : ttl.isNegative = false)
    (key : K) (ending : Ending V) (kept : R) (kept' : R') :
    Matches
      ((((c.led key).leave ⟨key, .produced, some (ExpiringCache.expiryFrom p.now ttl), true⟩ ending).1,
          some kept),
        ((c.led key).leave ⟨key, .produced, some (ExpiringCache.expiryFrom p.now ttl), true⟩ ending).2)
      (p.putProduced key ttl fun p => ((ending, kept'), p)) := by
  rw [c.leave_led]
  cases ending with
  | value v =>
      simp only [PlainCache.putProduced, PlainCache.put_of_nonnegative httl]
      exact ⟨.reply (.same _), rfl, h.write key v _⟩
  | nothing => exact ⟨.same _, rfl, h⟩
  | failed failure => exact ⟨.same _, rfl, h⟩
  | panicked text => exact ⟨.same _, rfl, h⟩

/-- A call that comes to a computation under a flight of its own, and answers
    the value. -/
theorem lead_answering (h : Alike c p) {c₀ : Cache K V} {request : Request K V} {key : K}
    {ttl : Duration} (hbegin : c₀.begin request = c.enterNew key .produced ttl false)
    (hdead : p.live? key = none) (ending : Ending V) (kept : R) (kept' : R') :
    Matches (c₀.call request fun c => ((ending, kept), c))
      (p.answerProduced key ttl true fun p => ((ending, kept'), p)) := by
  cases httl : ttl.isNegative with
  | true =>
      rw [c.enterNew_of_negative key ttl false httl, h.enter_produced_of_negative] at hbegin
      rw [Cache.call_of_producing hbegin]
      exact h.leave_of_negative httl key ending kept kept'
  | false =>
      obtain ⟨hexpiry, halike⟩ := h.expiryFrom ttl
      rw [c.enterNew_of_nonnegative key ttl false httl, halike.enter_produced hdead,
        hexpiry] at hbegin
      rw [Cache.call_of_producing hbegin]
      exact halike.read.leave_answering httl key ending kept kept'

/-- A call that comes to a computation under a flight of its own, and says
    whether the value was stored. -/
theorem lead_asking (h : Alike c p) {c₀ : Cache K V} {request : Request K V} {key : K}
    {ttl : Duration} (hbegin : c₀.begin request = c.enterNew key .produced ttl true)
    (hdead : p.live? key = none) (httl : ttl.isNegative = false) (ending : Ending V)
    (kept : R) (kept' : R') :
    Matches (c₀.call request fun c => ((ending, kept), c))
      (p.putProduced key ttl fun p => ((ending, kept'), p)) := by
  obtain ⟨hexpiry, halike⟩ := h.expiryFrom ttl
  rw [c.enterNew_of_nonnegative key ttl true httl, halike.enter_produced hdead,
    hexpiry] at hbegin
  rw [Cache.call_of_producing hbegin]
  exact halike.read.leave_asking httl key ending kept kept'

/-! ## Storing unless the key is live -/

/-- A call for an absent key that has its value at hand is the same on both
    sides. -/
theorem call_putIfAbsent (h : Alike c p) (key : K) (value : V) (ttl : Duration)
    (produce : Cache K V → (Ending V × R) × Cache K V)
    (produce' : PlainCache.Production K V R') :
    Matches (c.call (.putIfAbsent key value ttl) produce)
      (p.call (.putIfAbsent key value ttl) produce') := by
  show Matches ((.ok (.flag (c.putIfAbsent key value ttl).1), none),
    (c.putIfAbsent key value ttl).2) (p.unlessLive key ttl _)
  cases hp : p.live? key with
  | some item =>
      obtain ⟨c', hget, halike⟩ := h.get_of_live hp
      rw [PlainCache.unlessLive, PlainCache.get_of_live hp]
      simp only [Cache.putIfAbsent, Cache.contains, hget]
      exact .reply (.same _) halike
  | none =>
      obtain ⟨c', hget, halike⟩ := h.get_of_dead hp
      rw [PlainCache.unlessLive, PlainCache.get_of_dead hp]
      simp only [Cache.putIfAbsent, Cache.contains, hget]
      cases httl : ttl.isNegative with
      | true => exact .reply (.same _) halike
      | false => exact .reply (.same _) (halike.store httl key value)

/-- A computation outside any flight stores its value like any other. -/
theorem finishStore (h : Alike c p) {ttl : Duration} (httl : ttl.isNegative = false)
    (key : K) (ending : Ending V) (kept : R) (kept' : R') :
    Matches (((c.finishStore key ttl ending).1, some kept), (c.finishStore key ttl ending).2)
      (p.putProduced key ttl fun p => ((ending, kept'), p)) := by
  cases ending with
  | value v => exact ⟨.same _, rfl, h.store httl key v⟩
  | nothing => exact ⟨.same _, rfl, h⟩
  | failed failure => exact ⟨.same _, rfl, h⟩
  | panicked text => exact ⟨.same _, rfl, h⟩

/-- A call for an absent key that has its value computed is the same on both
    sides, whatever the computation comes to. -/
theorem call_putIfAbsentFrom (h : Alike c p) (key : K) (ttl : Duration) (exclusive : Bool)
    (ending : Ending V) (kept : R) (kept' : R') :
    Matches (c.call (.putIfAbsentFrom key ttl exclusive) fun c => ((ending, kept), c))
      (p.call (.putIfAbsentFrom key ttl exclusive) fun p => ((ending, kept'), p)) := by
  show Matches _ (p.unlessLive key ttl _)
  cases hp : p.live? key with
  | some item =>
      obtain ⟨c', hget, halike⟩ := h.get_of_live hp
      have hbegin : c.begin (.putIfAbsentFrom key ttl exclusive) = (.reply (.flag false), c') := by
        show c.beginPutIfAbsentFrom key ttl exclusive = _
        rw [Cache.beginPutIfAbsentFrom, Cache.contains, hget]
        rfl
      rw [PlainCache.unlessLive, PlainCache.get_of_live hp, Cache.call_of_reply hbegin]
      exact .reply (.same _) halike
  | none =>
      obtain ⟨c', hget, halike⟩ := h.get_of_dead hp
      have hbegin : c.begin (.putIfAbsentFrom key ttl exclusive) =
          if ttl.isNegative then (.reply (.flag false), c')
          else if exclusive then c'.enterNew key .produced ttl true
          else (.producing (.store key ttl), c') := by
        show c.beginPutIfAbsentFrom key ttl exclusive = _
        rw [Cache.beginPutIfAbsentFrom, Cache.contains, hget]
        rfl
      rw [PlainCache.unlessLive, PlainCache.get_of_dead hp]
      cases httl : ttl.isNegative with
      | true =>
          rw [httl] at hbegin
          rw [Cache.call_of_reply hbegin]
          exact .reply (.same _) halike
      | false =>
          rw [httl] at hbegin
          cases exclusive with
          | true => exact halike.lead_asking hbegin hp httl ending kept kept'
          | false =>
              rw [Cache.call_of_producing hbegin]
              exact halike.finishStore httl key ending kept kept'

/-! ## Getting or storing -/

/-- A value at hand is stored under the key's flight. -/
theorem enterNew_given (h : Alike c p) {key : K} (hdead : p.live? key = none) (value : V)
    (ttl : Duration) :
    ∃ c', c.enterNew key (.given value) ttl false = (.reply (.value (some value)), c') ∧
      Alike c' (p.put key value ttl) := by
  cases httl : ttl.isNegative with
  | true =>
      rw [c.enterNew_of_negative key ttl false httl, h.enter_given_of_negative,
        PlainCache.put_of_negative httl]
      exact ⟨_, rfl, h.erase key⟩
  | false =>
      obtain ⟨hexpiry, halike⟩ := h.expiryFrom ttl
      rw [c.enterNew_of_nonnegative key ttl false httl, halike.enter_given hdead, hexpiry,
        PlainCache.put_of_nonnegative httl]
      exact ⟨_, rfl, halike.read.write key value _⟩

/-- A call that reads or stores a value at hand is the same on both sides. -/
theorem call_getOrPut_given (h : Alike c p) (key : K) (value : V) (ttl : Duration)
    (produce : Cache K V → (Ending V × R) × Cache K V)
    (produce' : PlainCache.Production K V R') :
    Matches (c.call (.getOrPut key (.given value) ttl) produce)
      (p.call (.getOrPut key (.given value) ttl) produce') := by
  show Matches _ (p.getOr key _)
  cases hp : p.live? key with
  | some item =>
      obtain ⟨c', hget, halike⟩ := h.get_of_live hp
      have hbegin : c.begin (.getOrPut key (.given value) ttl) = _ :=
        Cache.beginGetOrPut_of_some hget (.given value) ttl
      rw [PlainCache.getOr, PlainCache.get_of_live hp, Cache.call_of_reply hbegin]
      exact .reply (.same _) halike
  | none =>
      obtain ⟨c', hget, halike⟩ := h.get_of_dead hp
      obtain ⟨c'', henter, halike'⟩ := halike.enterNew_given hp value ttl
      have hbegin : c.begin (.getOrPut key (.given value) ttl) = _ :=
        (Cache.beginGetOrPut_of_none hget (.given value) ttl).trans henter
      rw [PlainCache.getOr, PlainCache.get_of_dead hp, Cache.call_of_reply hbegin]
      exact .reply (.same _) halike'

/-- Both requests that compute under a flight begin in the same way. -/
theorem call_getOrProduce (h : Alike c p) {request : Request K V} {key : K} {ttl : Duration}
    (hrequest : c.begin request = c.beginGetOrPut key .produced ttl) (ending : Ending V)
    (kept : R) (kept' : R') :
    Matches (c.call request fun c => ((ending, kept), c))
      (p.getOr key (p.answerProduced key ttl true fun p => ((ending, kept'), p))) := by
  cases hp : p.live? key with
  | some item =>
      obtain ⟨c', hget, halike⟩ := h.get_of_live hp
      rw [PlainCache.getOr, PlainCache.get_of_live hp,
        Cache.call_of_reply (hrequest.trans (Cache.beginGetOrPut_of_some hget .produced ttl))]
      exact .reply (.same _) halike
  | none =>
      obtain ⟨c', hget, halike⟩ := h.get_of_dead hp
      rw [PlainCache.getOr, PlainCache.get_of_dead hp]
      exact halike.lead_answering
        (hrequest.trans (Cache.beginGetOrPut_of_none hget .produced ttl)) hp ending kept kept'

/-- A value that was computed outside any flight is stored under one. -/
theorem finishOffer (h : Alike c p) {key : K} (hdead : p.live? key = none) (ttl : Duration)
    (ending : Ending V) (kept : R) (kept' : R') :
    Matches (((c.finishOffer key ttl ending).1.result, some kept),
        (c.finishOffer key ttl ending).2)
      (p.answerProduced key ttl false fun p => ((ending, kept'), p)) := by
  cases ending with
  | value v =>
      obtain ⟨c', henter, halike⟩ := h.enterNew_given hdead v ttl
      have hpresent : (if ttl.isNegative = true then (none, p) else p.get key) = (none, p) := by
        rw [PlainCache.get_of_dead hdead]
        exact ite_self _
      simp only [Cache.finishOffer, Ending.toExcept, henter, PlainCache.answerProduced,
        Bool.false_or, hpresent]
      exact ⟨.same _, rfl, halike⟩
  | nothing => exact ⟨.same _, rfl, h⟩
  | failed failure => exact ⟨.same _, rfl, h⟩
  | panicked text => exact ⟨.same _, rfl, h⟩

/-- A call that reads or offers is the same on both sides, whatever the
    computation comes to. -/
theorem call_getOrOffer (h : Alike c p) (key : K) (ttl : Duration) (ending : Ending V)
    (kept : R) (kept' : R') :
    Matches (c.call (.getOrPutFrom key ttl false) fun c => ((ending, kept), c))
      (p.call (.getOrPutFrom key ttl false) fun p => ((ending, kept'), p)) := by
  show Matches _ (p.getOr key _)
  cases hp : p.live? key with
  | some item =>
      obtain ⟨c', hget, halike⟩ := h.get_of_live hp
      have hbegin : c.begin (.getOrPutFrom key ttl false) = _ :=
        Cache.beginGetOrOffer_of_some hget ttl
      rw [PlainCache.getOr, PlainCache.get_of_live hp, Cache.call_of_reply hbegin]
      exact .reply (.same _) halike
  | none =>
      obtain ⟨c', hget, halike⟩ := h.get_of_dead hp
      have hbegin : c.begin (.getOrPutFrom key ttl false) = _ :=
        Cache.beginGetOrOffer_of_none hget ttl
      rw [PlainCache.getOr, PlainCache.get_of_dead hp, Cache.call_of_producing hbegin]
      exact halike.finishOffer hp ttl ending kept kept'

/-! ## All calls -/

/-- Every call of a caller whose computation does nothing to the cache. -/
theorem call (h : Alike c p) (request : Request K V) (ending : Ending V) (kept : R)
    (kept' : R') :
    Matches (c.call request fun c => ((ending, kept), c))
      (p.call request fun p => ((ending, kept'), p)) := by
  cases request with
  | put key value ttl => exact .reply (.same _) (h.put key value ttl)
  | putAll entries ttl => exact .reply (.same _) (h.putAll entries ttl)
  | putIfAbsent key value ttl => exact h.call_putIfAbsent key value ttl _ _
  | putIfAbsentFrom key ttl exclusive =>
      exact h.call_putIfAbsentFrom key ttl exclusive ending kept kept'
  | get key =>
      obtain ⟨hvalue, halike⟩ := h.get key
      show Matches ((.ok (.value (c.get key).1), none), (c.get key).2)
        (PlainCache.answer (.value (p.get key).1) (p.get key).2)
      rw [hvalue]
      exact .reply (.same _) halike
  | getOrPut key payload ttl => cases payload with
    | given value => exact h.call_getOrPut_given key value ttl _ _
    | produced => exact h.call_getOrProduce rfl ending kept kept'
  | getOrPutFrom key ttl exclusive => cases exclusive with
    | true => exact h.call_getOrProduce rfl ending kept kept'
    | false => exact h.call_getOrOffer key ttl ending kept kept'
  | contains key =>
      obtain ⟨hflag, halike⟩ := h.contains key
      show Matches ((.ok (.flag (c.contains key).1), none), (c.contains key).2)
        (PlainCache.answer (.flag (p.get key).1.isSome) (p.get key).2)
      rw [hflag]
      exact .reply (.same _) halike
  | lifetime key =>
      obtain ⟨hspan, halike⟩ := h.lifetime key
      show Matches ((.ok (.span (c.lifetime key).1), none), (c.lifetime key).2)
        (PlainCache.answer (.span (p.span (p.live? key))) p)
      rw [hspan]
      exact .reply (.same _) halike
  | replace key value =>
      obtain ⟨hold, halike⟩ := h.replace key value
      show Matches ((.ok (.replaced (c.replace key value).1 (c.replace key value).1.isSome),
        none), (c.replace key value).2) _
      rw [hold, Option.isSome_map]
      exact .reply (.same _) halike
  | setLifetime key ttl =>
      obtain ⟨hspan, halike⟩ := h.setLifetime key ttl
      show Matches ((.ok (.span (c.setLifetime key ttl).1), none), (c.setLifetime key ttl).2) _
      rw [hspan]
      exact .reply (.same _) halike
  | remove keys =>
      obtain ⟨hlast, halike⟩ := h.remove keys
      show Matches ((.ok (.value (c.remove keys).1), none), (c.remove keys).2)
        (PlainCache.answer (.value (p.remove keys).1) (p.remove keys).2)
      rw [hlast]
      exact .reply (.same _) halike
  | size =>
      show Matches ((.ok (.count c.size), none), c) (PlainCache.answer (.count p.entries.length) p)
      rw [h.size_eq]
      exact .reply (.same _) h
  | keys => exact .reply (.keys h.perm_keys) h
  | values => exact .reply (.values h.perm_values) h
  | data => exact .reply (.data h.perm_data) h
  | clear => exact .reply (.same _) h.clear
  | close => exact .reply (.same _) (h.beside ⟨rfl, rfl, rfl, rfl, Int.le_refl _⟩ fun _ => rfl)
  | stats => exact .reply (.stats (congrArg UInt64.ofNat h.size_eq)) h

end Alike

end ExpiringCache
