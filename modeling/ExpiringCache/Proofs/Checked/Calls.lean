import ExpiringCache.Proofs.Checked.Cache

/-! # Calls without overflow

    The parts of a call calculate nothing themselves; they use the calls
    that need no computation, or parts of them.  A call that has come to wait
    or to compute has fixed its expiry before.  That expiry was in its range
    when it was fixed, and is so whenever the call goes on. -/

namespace ExpiringCache.Cache

variable {K V : Type} [DecidableEq K]

/-! ## Writes under a flight -/

/-- The checked `turn`. -/
def checkedTurn (c : Cache K V) (key : K) (payload : Payload V) (ttl : Duration)
    (asksStored : Bool) : Option (Turn K V × Cache K V) :=
  if ttl.isNegative then some (⟨key, payload, none, asksStored⟩, c)
  else do
    let (expireAt, c) ← c.checkedExpiryFrom ttl
    some (⟨key, payload, some expireAt, asksStored⟩, c)

/-- The checked `settle`. -/
def checkedSettle (c : Cache K V) (turn : Turn K V) (value : Option V) (stored : Bool) :
    Option (Reply K V × Cache K V) :=
  match turn.expireAt with
  | none => do
      let (_, c) ← c.checkedRemove [turn.key]
      some (turn.reply value false, c)
  | some expireAt => do
      let c := if stored then { c with notices := c.notices.push turn.key expireAt } else c
      let c ← if value.isSome then c.checkedTouch turn.key else some c
      some (turn.reply value stored, c)

/-- The checked `enter`. -/
def checkedEnter (c : Cache K V) (turn : Turn K V) : Option (Progress K V × Cache K V) :=
  if c.store.flights.isRunning turn.key then some (.waiting turn, c)
  else
    match turn.expireAt with
    | none =>
        match c.store.beginProduce turn.key turn.payload with
        | (.done value, store) => do
            let (reply, c) ← checkedSettle { c with store := store } turn value false
            some (.reply reply, c)
        | (.producing, store) => some (.producing (.lead turn), { c with store := store })
        | (.waiting, store) => some (.waiting turn, { c with store := store })
    | some expireAt =>
        let c := c.read
        match c.store.beginSetUnlessLive c.now turn.key turn.payload expireAt with
        | (.done (value, stored), store) => do
            let (reply, c) ← checkedSettle { c with store := store } turn value stored
            some (.reply reply, c)
        | (.producing, store) => some (.producing (.lead turn), { c with store := store })
        | (.waiting, store) => some (.waiting turn, { c with store := store })

/-- The checked `leave`. -/
def checkedLeave (c : Cache K V) (turn : Turn K V) (ending : Ending V) :
    Option (Except Fault (Reply K V) × Cache K V) :=
  match turn.expireAt with
  | none =>
      let (result, store) := c.store.endProduce turn.key ending
      let c := { c with store := store }
      match result with
      | .error (.error e) => do
          let (_, c) ← c.checkedRemove [turn.key]
          some (.error (.error e), c)
      | .error fault => some (.error fault, c)
      | .ok value => do
          let (reply, c) ← c.checkedSettle turn value false
          some (.ok reply, c)
  | some expireAt =>
      let (result, store) := c.store.endSetUnlessLive turn.key expireAt ending
      let c := { c with store := store }
      match result with
      | .error fault => some (.error fault, c)
      | .ok (value, stored) => do
          let (reply, c) ← c.checkedSettle turn value stored
          some (.ok reply, c)

/-- The checked `enterNew`. -/
def checkedEnterNew (c : Cache K V) (key : K) (payload : Payload V) (ttl : Duration)
    (asksStored : Bool) : Option (Progress K V × Cache K V) := do
  let (turn, c) ← c.checkedTurn key payload ttl asksStored
  c.checkedEnter turn

variable {c : Cache K V}

omit [DecidableEq K] in
theorem checkedTurn_eq (c : Cache K V) (key : K) (payload : Payload V) (ttl : Duration)
    (asksStored : Bool) :
    c.checkedTurn key payload ttl asksStored = some (c.turn key payload ttl asksStored) := by
  rw [checkedTurn, turn]
  split
  · rfl
  · rw [c.checkedExpiryFrom_eq]
    rfl

namespace Sound

theorem checkedSettle_eq (h : c.Sound) (turn : Turn K V) (value : Option V) (stored : Bool) :
    c.checkedSettle turn value stored = some (c.settle turn value stored) := by
  cases hexpire : turn.expireAt with
  | none =>
      simp only [checkedSettle, settle, hexpire, h.checkedRemove_eq, Option.bind_eq_bind,
        Option.bind_some]
  | some expireAt =>
      have hnoted : Sound
          (if stored then { c with notices := c.notices.push turn.key expireAt } else c) := by
        split
        · exact h.noted _
        · exact h
      cases value with
      | none => simp only [checkedSettle, settle, hexpire, Option.isSome_none]; rfl
      | some v =>
          simp only [checkedSettle, settle, hexpire, Option.isSome_some, if_true,
            hnoted.checkedTouch_eq turn.key, Option.bind_eq_bind, Option.bind_some]

/-- Which flights there are does not matter. -/
theorem flights (h : c.Sound) (flights : Flights K) :
    Sound { c with store := { c.store with flights := flights } } :=
  h.changes (changes_flights c flights)

/-- The value of a write under a flight is stored with the expiry that was
    fixed before. -/
theorem set (h : c.Sound) (key : K) (value : V) {expireAt : Int} (hranged : Ranged expireAt) :
    Sound { c with store := c.store.set key ⟨value, expireAt⟩ } :=
  h.changes (Changes.refl.store key ⟨value, expireAt⟩ hranged)

theorem checkedEnter_eq (h : c.Sound) {turn : Turn K V} (hturn : turn.Fixed Ranged) :
    c.checkedEnter turn = some (c.enter turn) := by
  rw [checkedEnter, enter]
  split
  · rfl
  · rename_i hfree
    cases hexpire : turn.expireAt with
    | none => cases hpayload : turn.payload with
      | given value =>
          simp only [Store.beginProduce, if_neg hfree, h.checkedSettle_eq, Option.bind_eq_bind,
            Option.bind_some]
      | produced => simp only [Store.beginProduce, if_neg hfree]
    | some expireAt =>
        have hfree' : ¬c.read.store.flights.isRunning turn.key = true := hfree
        cases hlive : c.read.store.live? c.read.now turn.key with
        | some item =>
            simp only [Store.beginSetUnlessLive, if_neg hfree', hlive, h.read.checkedSettle_eq,
              Option.bind_eq_bind, Option.bind_some]
        | none => cases hpayload : turn.payload with
          | given value =>
              have hset := h.read.set turn.key value (hturn expireAt hexpire)
              simp only [Store.beginSetUnlessLive, if_neg hfree', hlive, hset.checkedSettle_eq,
                Option.bind_eq_bind, Option.bind_some]
          | produced => simp only [Store.beginSetUnlessLive, if_neg hfree', hlive]

theorem checkedLeave_eq (h : c.Sound) {turn : Turn K V} (hturn : turn.Fixed Ranged)
    (ending : Ending V) : c.checkedLeave turn ending = some (c.leave turn ending) := by
  cases hexpire : turn.expireAt with
  | none =>
      have hleft : Sound { c with store := (c.store.endProduce turn.key ending).2 } :=
        h.flights _
      simp only [checkedLeave, leave, hexpire]
      generalize c.store.endProduce turn.key ending = left at hleft
      obtain ⟨result, store⟩ := left
      cases result with
      | ok value => simp only [hleft.checkedSettle_eq, Option.bind_eq_bind, Option.bind_some]
      | error fault => cases fault with
        | error e => simp only [hleft.checkedRemove_eq, Option.bind_eq_bind, Option.bind_some]
        | panic text => rfl
        | stuck => rfl
  | some expireAt =>
      have hleft : Sound
          { c with store := (c.store.endSetUnlessLive turn.key expireAt ending).2 } := by
        cases ending with
        | value v => exact (h.set turn.key v (hturn expireAt hexpire)).flights _
        | nothing => exact h.flights _
        | failed failure => exact h.flights _
        | panicked text => exact h.flights _
      simp only [checkedLeave, leave, hexpire]
      generalize c.store.endSetUnlessLive turn.key expireAt ending = left at hleft
      obtain ⟨result, store⟩ := left
      cases result with
      | ok settled => simp only [hleft.checkedSettle_eq, Option.bind_eq_bind, Option.bind_some]
      | error fault => rfl

/-- A turn that is taken now has its expiry in the range. -/
theorem turn (h : c.Sound) (key : K) (payload : Payload V) (ttl : Duration) (asksStored : Bool) :
    (c.turn key payload ttl asksStored).2.Sound ∧
      (c.turn key payload ttl asksStored).1.Fixed Ranged := by
  refine ⟨h.changes (changes_turn c key payload ttl asksStored), fun expireAt hmem => ?_⟩
  rw [((c.turn_cases key payload ttl asksStored).2 expireAt hmem).2]
  exact ranged_expiryFrom h.now_nonneg ttl

theorem checkedEnterNew_eq (h : c.Sound) (key : K) (payload : Payload V) (ttl : Duration)
    (asksStored : Bool) :
    c.checkedEnterNew key payload ttl asksStored =
      some (c.enterNew key payload ttl asksStored) := by
  obtain ⟨hsound, hfixed⟩ := h.turn key payload ttl asksStored
  rw [checkedEnterNew, c.checkedTurn_eq]
  exact hsound.checkedEnter_eq hfixed

end Sound

/-! ## The parts of a call -/

/-- The checked `beginPutIfAbsentFrom`. -/
def checkedBeginPutIfAbsentFrom (c : Cache K V) (key : K) (ttl : Duration) (exclusive : Bool) :
    Option (Progress K V × Cache K V) := do
  let (present, c) ← c.checkedContains key
  if present || ttl.isNegative then some (.reply (.flag false), c)
  else if exclusive then c.checkedEnterNew key .produced ttl true
  else some (.producing (.store key ttl), c)

/-- The checked `beginGetOrPut`. -/
def checkedBeginGetOrPut (c : Cache K V) (key : K) (payload : Payload V) (ttl : Duration) :
    Option (Progress K V × Cache K V) := do
  let (value, c) ← c.checkedGet key
  if value.isSome then some (.reply (.value value), c)
  else c.checkedEnterNew key payload ttl false

/-- The checked `beginGetOrOffer`. -/
def checkedBeginGetOrOffer (c : Cache K V) (key : K) (ttl : Duration) :
    Option (Progress K V × Cache K V) := do
  let (value, c) ← c.checkedGet key
  if value.isSome then some (.reply (.value value), c)
  else some (.producing (.offer key ttl), c)

/-- The checked `begin`; the calls that are not listed calculate nothing. -/
def checkedBegin (c : Cache K V) : Request K V → Option (Progress K V × Cache K V)
  | .put key value ttl => do
      let c ← c.checkedPut key value ttl
      some (.reply .done, c)
  | .putAll entries ttl => do
      let c ← c.checkedPutAll entries ttl
      some (.reply .done, c)
  | .putIfAbsent key value ttl => do
      let (stored, c) ← c.checkedPutIfAbsent key value ttl
      some (.reply (.flag stored), c)
  | .putIfAbsentFrom key ttl exclusive => c.checkedBeginPutIfAbsentFrom key ttl exclusive
  | .get key => do
      let (value, c) ← c.checkedGet key
      some (.reply (.value value), c)
  | .getOrPut key payload ttl => c.checkedBeginGetOrPut key payload ttl
  | .getOrPutFrom key ttl true => c.checkedBeginGetOrPut key .produced ttl
  | .getOrPutFrom key ttl false => c.checkedBeginGetOrOffer key ttl
  | .contains key => do
      let (present, c) ← c.checkedContains key
      some (.reply (.flag present), c)
  | .lifetime key => do
      let (span, c) ← c.checkedLifetime key
      some (.reply (.span span), c)
  | .replace key value => do
      let (old, c) ← c.checkedReplace key value
      some (.reply (.replaced old old.isSome), c)
  | .setLifetime key ttl => do
      let (span, c) ← c.checkedSetLifetime key ttl
      some (.reply (.span span), c)
  | .remove keys => do
      let (last, c) ← c.checkedRemove keys
      some (.reply (.value last), c)
  | request => some (c.begin request)

/-- The checked `finishStore`. -/
def checkedFinishStore (c : Cache K V) (key : K) (ttl : Duration) (ending : Ending V) :
    Option (Except Fault (Reply K V) × Cache K V) :=
  match ending.toExcept with
  | .error fault => some (.error fault, c)
  | .ok none => some (.ok (.flag false), c)
  | .ok (some value) => do
      let (expireAt, c) ← c.checkedExpiryFrom ttl
      let c ← c.checkedWrite key value expireAt
      some (.ok (.flag true), c)

/-- The checked `finishOffer`. -/
def checkedFinishOffer (c : Cache K V) (key : K) (ttl : Duration) (ending : Ending V) :
    Option (Progress K V × Cache K V) :=
  match ending.toExcept with
  | .error fault => some (.done (.error fault), c)
  | .ok none => some (.reply (.value none), c)
  | .ok (some value) => c.checkedEnterNew key (.given value) ttl false

/-- The checked `finish`. -/
def checkedFinish (c : Cache K V) (next : Pending K V) (ending : Ending V) :
    Option (Progress K V × Cache K V) :=
  match next with
  | .store key ttl => do
      let (result, c) ← c.checkedFinishStore key ttl ending
      some (.done result, c)
  | .offer key ttl => c.checkedFinishOffer key ttl ending
  | .lead turn => do
      let (result, c) ← c.checkedLeave turn ending
      some (.done result, c)

namespace Sound

theorem checkedBeginPutIfAbsentFrom_eq (h : c.Sound) (key : K) (ttl : Duration)
    (exclusive : Bool) :
    c.checkedBeginPutIfAbsentFrom key ttl exclusive =
      some (c.beginPutIfAbsentFrom key ttl exclusive) := by
  have hfound := h.contains key
  rw [checkedBeginPutIfAbsentFrom, h.checkedContains_eq, beginPutIfAbsentFrom]
  generalize c.contains key = found at hfound
  obtain ⟨present, c'⟩ := found
  simp only [Option.bind_eq_bind, Option.bind_some]
  split
  · rfl
  · split
    · exact hfound.checkedEnterNew_eq key .produced ttl true
    · rfl

theorem checkedBeginGetOrPut_eq (h : c.Sound) (key : K) (payload : Payload V) (ttl : Duration) :
    c.checkedBeginGetOrPut key payload ttl = some (c.beginGetOrPut key payload ttl) := by
  have hfound := h.get key
  rw [checkedBeginGetOrPut, h.checkedGet_eq, beginGetOrPut]
  generalize c.get key = found at hfound
  obtain ⟨value, c'⟩ := found
  cases value with
  | some v => rfl
  | none => exact hfound.checkedEnterNew_eq key payload ttl false

theorem checkedBeginGetOrOffer_eq (h : c.Sound) (key : K) (ttl : Duration) :
    c.checkedBeginGetOrOffer key ttl = some (c.beginGetOrOffer key ttl) := by
  rw [checkedBeginGetOrOffer, h.checkedGet_eq, beginGetOrOffer]
  generalize c.get key = found
  obtain ⟨value, c'⟩ := found
  cases value with
  | some v => rfl
  | none => rfl

/-- No call that begins leaves the range of a word. -/
theorem checkedBegin_eq (h : c.Sound) (request : Request K V) :
    c.checkedBegin request = some (c.begin request) := by
  cases request with
  | put key value ttl => rw [checkedBegin, h.checkedPut_eq]; rfl
  | putAll entries ttl => rw [checkedBegin, h.checkedPutAll_eq]; rfl
  | putIfAbsent key value ttl => rw [checkedBegin, h.checkedPutIfAbsent_eq]; rfl
  | putIfAbsentFrom key ttl exclusive => exact h.checkedBeginPutIfAbsentFrom_eq key ttl exclusive
  | get key => rw [checkedBegin, h.checkedGet_eq]; rfl
  | getOrPut key payload ttl => exact h.checkedBeginGetOrPut_eq key payload ttl
  | getOrPutFrom key ttl exclusive => cases exclusive with
    | true => exact h.checkedBeginGetOrPut_eq key .produced ttl
    | false => exact h.checkedBeginGetOrOffer_eq key ttl
  | contains key => rw [checkedBegin, h.checkedContains_eq]; rfl
  | lifetime key => rw [checkedBegin, h.checkedLifetime_eq]; rfl
  | replace key value => rw [checkedBegin, h.checkedReplace_eq]; rfl
  | setLifetime key ttl => rw [checkedBegin, h.checkedSetLifetime_eq]; rfl
  | remove keys => rw [checkedBegin, h.checkedRemove_eq]; rfl
  | size => rfl
  | keys => rfl
  | values => rfl
  | data => rfl
  | clear => rfl
  | close => rfl
  | stats => rfl

/-- Nor does one that goes on, if what it has fixed is in its range. -/
theorem checkedFinish_eq (h : c.Sound) {next : Pending K V} (hnext : next.Fixed Ranged)
    (ending : Ending V) : c.checkedFinish next ending = some (c.finish next ending) := by
  cases next with
  | store key ttl => cases ending with
    | value v =>
        have hwritten := (h.expiryFrom ttl).checkedWrite_eq key v (h.ranged ttl)
        simp only [checkedFinish, checkedFinishStore, finish, finishStore, Ending.toExcept,
          c.checkedExpiryFrom_eq, hwritten, Option.bind_eq_bind, Option.bind_some]
    | nothing => rfl
    | failed failure => rfl
    | panicked text => rfl
  | offer key ttl => cases ending with
    | value v => exact h.checkedEnterNew_eq key (.given v) ttl false
    | nothing => rfl
    | failed failure => rfl
    | panicked text => rfl
  | lead turn =>
      rw [checkedFinish, h.checkedLeave_eq hnext]
      rfl

end Sound

end ExpiringCache.Cache
