import ExpiringCache.Cache.Call
import ExpiringCache.Proofs.Changes.Basic

/-! # The changes that calls make

    Each part of each call comes to elementary changes, whatever was done
    before it.  An item is stored that takes no live one's place only by a
    call that says so: either the call is one that stores in any case, or its
    reply is affirmative.  The expiry of such an item is that of a lifetime
    which starts now, or the one that a write under a flight has fixed before.

    An expiry that is fixed and stays open with a call is of the first
    kind, too. -/

namespace ExpiringCache

variable {K V : Type}

/-! ## Calls that say that they have stored something -/

/-- A reply that a value is there now. -/
def Reply.Affirms : Reply K V → Prop
  | .flag b => b = true
  | .value v => v.isSome = true
  | _ => False

/-- The call is over, and its reply is affirmative. -/
def Progress.Affirms : Progress K V → Prop
  | .done (.ok reply) => reply.Affirms
  | _ => False

/-- A write under a flight says that `key` holds a value now. -/
def Turn.Stores (turn : Turn K V) (key : K) (progress : Progress K V) : Prop :=
  turn.key = key ∧ turn.expireAt.isSome = true ∧ progress.Affirms

/-- A call that goes on after its computation says so. -/
def Pending.Stores (key : K) (progress : Progress K V) : Pending K V → Prop
  | .store k _ => k = key ∧ progress.Affirms
  | .offer k ttl => k = key ∧ ttl.isNegative = false ∧ progress.Affirms
  | .lead turn => turn.Stores key progress

/-- A call that begins stores `key` in any case, or says that it holds a
    value now. -/
def Request.Stores (key : K) (progress : Progress K V) : Request K V → Prop
  | .put k _ ttl => k = key ∧ ttl.isNegative = false
  | .putAll entries ttl => key ∈ entries.map Prod.fst ∧ ttl.isNegative = false
  | .putIfAbsent k _ _ => k = key ∧ progress.Affirms
  | .putIfAbsentFrom k _ _ => k = key ∧ progress.Affirms
  | .getOrPut k _ ttl => k = key ∧ ttl.isNegative = false ∧ progress.Affirms
  | .getOrPutFrom k ttl _ => k = key ∧ ttl.isNegative = false ∧ progress.Affirms
  | _ => False

/-- The reply to a write that stored its value is affirmative. -/
theorem Turn.affirms_stored (turn : Turn K V) (value : V) :
    (turn.reply (some value) true).Affirms := by
  rw [reply]
  split
  · rfl
  · rfl

/-! ## Expiries that are fixed -/

/-- What is left of a call may store with this expiry: the one that it has
    fixed, or that of a lifetime which starts now. -/
def Pending.Expires (now expireAt : Int) : Pending K V → Prop
  | .lead turn => turn.expireAt = some expireAt
  | _ => ∃ ttl, expireAt = expiryFrom now ttl

/-- The expiry that a write under a flight has fixed is in `R`. -/
def Turn.Fixed (R : Int → Prop) (turn : Turn K V) : Prop := ∀ expireAt ∈ turn.expireAt, R expireAt

/-- So it is for what is left of a call whose computation is running. -/
def Pending.Fixed (R : Int → Prop) : Pending K V → Prop
  | .lead turn => turn.Fixed R
  | _ => True

/-- What is left of a call stores with an expiry in `R` if those are that are
    fixed, and those of lifetimes that start now. -/
theorem Pending.Fixed.of_expires {R : Int → Prop} {next : Pending K V} (h : next.Fixed R)
    {now : Int} (hR : ∀ ttl, R (expiryFrom now ttl)) {expireAt : Int}
    (hexpires : next.Expires now expireAt) : R expireAt := by
  cases next with
  | lead turn => exact h expireAt hexpires
  | store key ttl =>
      obtain ⟨ttl', rfl⟩ := hexpires
      exact hR ttl'
  | offer key ttl =>
      obtain ⟨ttl', rfl⟩ := hexpires
      exact hR ttl'

/-- So it is however far a call has come. -/
def Progress.Fixed (R : Int → Prop) : Progress K V → Prop
  | .done _ => True
  | .producing next => next.Fixed R
  | .waiting turn => turn.Fixed R

variable [DecidableEq K]

namespace Cache

variable {P : K → Int → Prop}

/-! ## Reading and writing -/

/-- To read the clock is a change of its own. -/
theorem changes_read (c : Cache K V) : Changes P c c.read := .read .refl

theorem changes_noted (c : Cache K V) (notices : NoticeQueue K) :
    Changes P c { c with notices := notices } :=
  Changes.refl.beside rfl (fun _ => rfl) rfl rfl

theorem changes_flights (c : Cache K V) (flights : Flights K) :
    Changes P c { c with store := { c.store with flights := flights } } :=
  Changes.refl.beside rfl (fun _ => rfl) rfl rfl

theorem changes_expiryFrom (c : Cache K V) (ttl : Duration) :
    Changes P c (c.expiryFrom ttl).2 := by
  show Changes P c (if _ then c else c.read)
  split
  · exact .refl
  · exact changes_read c

/-- A write stores an item, and its victims are deleted. -/
theorem changes_write (c : Cache K V) (key : K) (value : V) {expireAt : Int}
    (hP : P key expireAt) : Changes P c (c.write key value expireAt) := by
  have hset : Changes P c { c with store := c.store.set key ⟨value, expireAt⟩ } :=
    Changes.refl.store key ⟨value, expireAt⟩ hP
  exact (hset.trans (changes_noted _ _)).touch key

/-- Storing with an expiry that is fixed first. -/
theorem changes_store (c : Cache K V) (key : K) (value : V) (ttl : Duration)
    (hP : P key (ExpiringCache.expiryFrom c.now ttl)) :
    Changes P c ((c.expiryFrom ttl).2.write key value (c.expiryFrom ttl).1) :=
  (changes_expiryFrom c ttl).trans (changes_write _ key value hP)

/-- A key that is set takes the expiry of a lifetime which starts now; with a
    negative one it is removed. -/
theorem changes_put (c : Cache K V) (key : K) (value : V) (ttl : Duration)
    (hP : ttl.isNegative = false → P key (ExpiringCache.expiryFrom c.now ttl)) :
    Changes P c (c.put key value ttl) := by
  rw [put]
  split
  · exact .remove .refl [key]
  · rename_i hneg
    exact changes_store c key value ttl (hP (Bool.eq_false_iff.mpr hneg))

/-- Writes one after the other come to the changes of each. -/
theorem changes_foldl_write (c : Cache K V) (entries : List (K × V)) {expireAt : Int}
    (hP : ∀ key ∈ entries.map Prod.fst, P key expireAt) :
    Changes P c (entries.foldl (fun c entry => c.write entry.1 entry.2 expireAt) c) := by
  induction entries generalizing c with
  | nil => exact .refl
  | cons entry rest ih =>
      have hfirst := changes_write c entry.1 entry.2 (hP entry.1 List.mem_cons_self)
      exact hfirst.trans (ih _ fun key hmem => hP key (List.mem_cons_of_mem _ hmem))

/-- All keys of a batch take one expiry. -/
theorem changes_putAll (c : Cache K V) (entries : List (K × V)) (ttl : Duration)
    (hP : ∀ key, key ∈ entries.map Prod.fst ∧ ttl.isNegative = false →
      P key (ExpiringCache.expiryFrom c.now ttl)) :
    Changes P c (c.putAll entries ttl) := by
  rw [putAll]
  split
  · exact .remove .refl _
  · rename_i hneg
    refine (changes_expiryFrom c ttl).trans (changes_foldl_write _ entries fun key hmem => ?_)
    exact hP key ⟨hmem, Bool.eq_false_iff.mpr hneg⟩

/-- A look-up counts, and moves its key to the end of the recency list. -/
theorem changes_get (c : Cache K V) (key : K) : Changes P c (c.get key).2 := by
  have hcounted : ∀ counters, Changes P c { c.read with counters := counters } :=
    fun _ => (changes_read c).beside rfl (fun _ => rfl) rfl rfl
  rw [get]
  split
  · exact (hcounted _).touch key
  · exact hcounted _

theorem changes_contains (c : Cache K V) (key : K) : Changes P c (c.contains key).2 :=
  changes_get c key

/-- A value goes under an absent key only if the reply says so. -/
theorem changes_putIfAbsent (c : Cache K V) (key : K) (value : V) (ttl : Duration)
    (hP : (c.putIfAbsent key value ttl).1 = true →
      P key (ExpiringCache.expiryFrom c.now ttl)) :
    Changes P c (c.putIfAbsent key value ttl).2 := by
  have hcontains : Changes P c (c.contains key).2 := changes_contains c key
  rw [putIfAbsent] at hP ⊢
  generalize c.contains key = found at hcontains hP
  obtain ⟨present, c'⟩ := found
  show Changes P c (if _ then _ else _ : Bool × Cache K V).2
  split
  · exact hcontains
  · rename_i hstores
    have hkey := hP (congrArg Prod.fst (if_neg hstores))
    rw [← hcontains.now] at hkey
    exact hcontains.trans (changes_store c' key value ttl hkey)

/-- To ask for a lifetime changes the clock and nothing else. -/
theorem changes_lifetime (c : Cache K V) (key : K) : Changes P c (c.lifetime key).2 := by
  rw [lifetime]
  split
  · exact changes_read c
  · exact changes_read c

/-- A value that is replaced keeps the expiry of the one before, so nothing
    new is stored. -/
theorem changes_replace (c : Cache K V) (key : K) (value : V) :
    Changes P c (c.replace key value).2 := by
  cases hlive : c.read.store.live? c.read.now key with
  | none =>
      simp only [replace, Store.replaceValue, hlive]
      exact changes_read c
  | some item =>
      simp only [replace, Store.replaceValue, hlive]
      exact ((changes_read c).change hlive { item with value := value } (Or.inl rfl)).touch key

/-- Another lifetime is given to a live item only, which then takes its own
    place. -/
theorem changes_setLifetime (c : Cache K V) (key : K) (ttl : Duration) :
    Changes P c (c.setLifetime key ttl).2 := by
  have hread : Changes P c (c.expiryFrom ttl).2.read := (changes_expiryFrom c ttl).read
  cases hlive : (c.expiryFrom ttl).2.read.store.live? (c.expiryFrom ttl).2.read.now key with
  | none =>
      simp only [setLifetime, Store.replaceExpiry, hlive]
      exact hread
  | some item =>
      have hspan := Item.remainingAt_ne_absent (Store.live?_eq_some.mp hlive).2
      have hexpire : (c.expiryFrom ttl).1 =
          ExpiringCache.expiryFrom (c.expiryFrom ttl).2.read.now ttl := by
        rw [hread.now]
        rfl
      have hset := hread.change hlive { item with expireAt := (c.expiryFrom ttl).1 }
        (Or.inr ⟨ttl, hexpire⟩)
      simp only [setLifetime, Store.replaceExpiry, hlive, if_neg hspan]
      exact (hset.trans (changes_noted _ _)).touch key

/-! ## Writes under a flight -/

/-- To make a turn fixes an expiry at most. -/
theorem changes_turn (c : Cache K V) (key : K) (payload : Payload V) (ttl : Duration)
    (asksStored : Bool) : Changes P c (c.turn key payload ttl asksStored).2 := by
  rw [turn]
  split
  · exact .refl
  · exact changes_expiryFrom c ttl

omit [DecidableEq K] in
/-- A turn is taken for its key, with an expiry if the lifetime is not
    negative. -/
theorem turn_cases (c : Cache K V) (key : K) (payload : Payload V) (ttl : Duration)
    (asksStored : Bool) :
    (c.turn key payload ttl asksStored).1.key = key ∧
      ∀ expireAt ∈ (c.turn key payload ttl asksStored).1.expireAt,
        ttl.isNegative = false ∧ expireAt = ExpiringCache.expiryFrom c.now ttl := by
  rw [turn]
  split
  · exact ⟨rfl, fun expireAt h => nomatch h⟩
  · rename_i hneg
    refine ⟨rfl, fun expireAt h => ⟨Bool.eq_false_iff.mpr hneg, ?_⟩⟩
    cases h
    rfl

/-- Settling a value stores nothing. -/
theorem changes_settle (c : Cache K V) (turn : Turn K V) (value : Option V) (stored : Bool) :
    Changes P c (c.settle turn value stored).2 := by
  rw [settle]
  split
  · exact .remove .refl [turn.key]
  · cases stored with
    | false => cases value with
      | none => exact .refl
      | some v => exact .touch .refl turn.key
    | true => cases value with
      | none => exact changes_noted c _
      | some v => exact (changes_noted c _).touch turn.key

/-- A value that a write under a flight stores is settled with an affirmative
    reply. -/
theorem changes_settle_stored (c : Cache K V) {turn : Turn K V} {expireAt : Int}
    (hexpire : turn.expireAt = some expireAt) (value : V)
    (hP : turn.Stores turn.key (.reply
        (settle { c with store := c.store.set turn.key ⟨value, expireAt⟩ } turn (some value)
          true).1) → P turn.key expireAt) :
    Changes P c
      (settle { c with store := c.store.set turn.key ⟨value, expireAt⟩ } turn (some value)
        true).2 := by
  have haffirms : (settle { c with store := c.store.set turn.key ⟨value, expireAt⟩ } turn
      (some value) true).1.Affirms := by
    simp only [settle, hexpire]
    exact turn.affirms_stored value
  have hkey := hP ⟨rfl, by rw [hexpire]; rfl, haffirms⟩
  have hset : Changes P c { c with store := c.store.set turn.key ⟨value, expireAt⟩ } :=
    Changes.refl.store turn.key ⟨value, expireAt⟩ hkey
  exact hset.trans (changes_settle _ turn _ true)

/-- Entering a flight, as the leader or as somebody who waits. -/
theorem changes_enter (c : Cache K V) (turn : Turn K V)
    (hP : ∀ expireAt ∈ turn.expireAt, turn.Stores turn.key (c.enter turn).1 →
      P turn.key expireAt) :
    Changes P c (c.enter turn).2 := by
  rw [enter] at hP ⊢
  split
  · exact .refl
  · rename_i hfree
    rw [if_neg hfree] at hP
    split
    · cases hpayload : turn.payload with
      | given value =>
          simp only [Store.beginProduce, if_neg hfree]
          exact changes_settle c turn (some value) false
      | produced =>
          simp only [Store.beginProduce, if_neg hfree]
          exact changes_flights c _
    · rename_i expireAt hexpire
      have hread : Changes P c c.read := changes_read c
      have hfree' : ¬c.read.store.flights.isRunning turn.key = true := hfree
      cases hlive : c.read.store.live? c.read.now turn.key with
      | some item =>
          simp only [Store.beginSetUnlessLive, if_neg hfree', hlive]
          exact hread.trans (changes_settle c.read turn _ false)
      | none => cases hpayload : turn.payload with
        | given value =>
            have hP' := hP expireAt hexpire
            simp only [hexpire, Store.beginSetUnlessLive, if_neg hfree', hlive, hpayload] at hP'
            simp only [Store.beginSetUnlessLive, if_neg hfree', hlive]
            exact hread.trans (changes_settle_stored c.read hexpire value hP')
        | produced =>
            simp only [Store.beginSetUnlessLive, if_neg hfree', hlive]
            exact hread.trans (changes_flights c.read _)

/-- To enter a flight with a turn of its own stores a value only if the reply
    says so. -/
theorem changes_enterNew (c : Cache K V) (key : K) (payload : Payload V) (ttl : Duration)
    (asksStored : Bool)
    (hP : ttl.isNegative = false ∧ (c.enterNew key payload ttl asksStored).1.Affirms →
      P key (ExpiringCache.expiryFrom c.now ttl)) :
    Changes P c (c.enterNew key payload ttl asksStored).2 := by
  obtain ⟨hkey, hexpiries⟩ := c.turn_cases key payload ttl asksStored
  have henter : Changes P (c.turn key payload ttl asksStored).2
      (c.enterNew key payload ttl asksStored).2 := by
    refine changes_enter _ (c.turn key payload ttl asksStored).1 ?_
    rintro expireAt hmem ⟨-, -, haffirms⟩
    obtain ⟨hneg, hfrom⟩ := hexpiries expireAt hmem
    rw [hkey, hfrom]
    exact hP ⟨hneg, haffirms⟩
  exact (changes_turn c key payload ttl asksStored).trans henter

/-- Ending a flight. -/
theorem changes_leave (c : Cache K V) (turn : Turn K V) (ending : Ending V)
    (hP : ∀ expireAt ∈ turn.expireAt, turn.Stores turn.key (.done (c.leave turn ending).1) →
      P turn.key expireAt) :
    Changes P c (c.leave turn ending).2 := by
  have hleft : Changes P c
      { c with store := { c.store with flights := c.store.flights.leave turn.key } } :=
    changes_flights c _
  cases hexpire : turn.expireAt with
  | none =>
      simp only [leave, hexpire]
      cases ending with
      | value v => exact hleft.trans (changes_settle _ turn _ false)
      | nothing => exact hleft.trans (changes_settle _ turn _ false)
      | failed failure => exact hleft.remove [turn.key]
      | panicked text => exact hleft
  | some expireAt =>
      have hP' := hP expireAt hexpire
      simp only [leave, hexpire] at hP' ⊢
      cases ending with
      | value v => exact hleft.trans (changes_settle_stored _ hexpire v hP')
      | nothing => exact hleft.trans (changes_settle _ turn _ false)
      | failed failure => exact hleft
      | panicked text => exact hleft

/-- Who joins a flight touches the key, if anything. -/
theorem changes_join (c : Cache K V) (turn : Turn K V) (value : Option V) :
    Changes P c (c.join turn value).2 :=
  changes_settle c turn value false

/-! ## The parts of a call -/

/-- A call for an absent key that has begun has stored nothing, except where
    its reply says so. -/
theorem changes_beginPutIfAbsentFrom (c : Cache K V) (key : K) (ttl : Duration)
    (exclusive : Bool)
    (hP : (c.beginPutIfAbsentFrom key ttl exclusive).1.Affirms →
      P key (ExpiringCache.expiryFrom c.now ttl)) :
    Changes P c (c.beginPutIfAbsentFrom key ttl exclusive).2 := by
  have hcontains : Changes P c (c.contains key).2 := changes_contains c key
  rw [beginPutIfAbsentFrom] at hP ⊢
  rw [← hcontains.now] at hP
  generalize c.contains key = found at hcontains hP
  obtain ⟨present, c'⟩ := found
  show Changes P c (if _ then _ else _ : Progress K V × Cache K V).2
  split
  · exact hcontains
  · rename_i hproduces
    split
    · rename_i hexclusive
      refine hcontains.trans (changes_enterNew c' key .produced ttl true ?_)
      rintro ⟨-, haffirms⟩
      refine hP ?_
      show (if _ then _ else _ : Progress K V × Cache K V).1.Affirms
      rw [if_neg hproduces, if_pos hexclusive]
      exact haffirms
    · exact hcontains

/-- A call that reads or stores has stored something only with a lifetime that
    is not negative. -/
theorem changes_beginGetOrPut (c : Cache K V) (key : K) (payload : Payload V) (ttl : Duration)
    (hP : ttl.isNegative = false ∧ (c.beginGetOrPut key payload ttl).1.Affirms →
      P key (ExpiringCache.expiryFrom c.now ttl)) :
    Changes P c (c.beginGetOrPut key payload ttl).2 := by
  have hget : Changes P c (c.get key).2 := changes_get c key
  rw [beginGetOrPut] at hP ⊢
  rw [← hget.now] at hP
  generalize c.get key = found at hget hP
  obtain ⟨value, c'⟩ := found
  cases value with
  | some v => exact hget
  | none => exact hget.trans (changes_enterNew c' key payload ttl false hP)

/-- A call that reads or offers has stored nothing when it begins. -/
theorem changes_beginGetOrOffer (c : Cache K V) (key : K) (ttl : Duration) :
    Changes P c (c.beginGetOrOffer key ttl).2 := by
  have hget : Changes P c (c.get key).2 := changes_get c key
  rw [beginGetOrOffer]
  generalize c.get key = found at hget
  obtain ⟨value, c'⟩ := found
  cases value with
  | some v => exact hget
  | none => exact hget

/-- A call that begins makes elementary changes, and stores a key in place of
    no live item only if it says so. -/
theorem changes_begin (c : Cache K V) (request : Request K V)
    (hP : ∀ key ttl, request.Stores key (c.begin request).1 →
      P key (ExpiringCache.expiryFrom c.now ttl)) :
    Changes P c (c.begin request).2 := by
  cases request with
  | put key value ttl => exact changes_put c key value ttl fun hneg => hP key ttl ⟨rfl, hneg⟩
  | putAll entries ttl => exact changes_putAll c entries ttl fun key => hP key ttl
  | putIfAbsent key value ttl =>
      exact changes_putIfAbsent c key value ttl fun hstored => hP key ttl ⟨rfl, hstored⟩
  | putIfAbsentFrom key ttl exclusive =>
      exact changes_beginPutIfAbsentFrom c key ttl exclusive fun h => hP key ttl ⟨rfl, h⟩
  | get key => exact changes_get c key
  | getOrPut key payload ttl =>
      exact changes_beginGetOrPut c key payload ttl fun h => hP key ttl ⟨rfl, h⟩
  | getOrPutFrom key ttl exclusive => cases exclusive with
    | true => exact changes_beginGetOrPut c key .produced ttl fun h => hP key ttl ⟨rfl, h⟩
    | false => exact changes_beginGetOrOffer c key ttl
  | contains key => exact changes_contains c key
  | lifetime key => exact changes_lifetime c key
  | replace key value => exact changes_replace c key value
  | setLifetime key ttl => exact changes_setLifetime c key ttl
  | remove keys => exact .remove .refl keys
  | size => exact .refl
  | keys => exact .refl
  | values => exact .refl
  | data => exact .refl
  | clear => exact .clear .refl
  | close => exact Changes.refl.beside rfl (fun _ => rfl) rfl rfl
  | stats => exact .refl

/-- So does a call that goes on after its computation has ended. -/
theorem changes_finish (c : Cache K V) (next : Pending K V) (ending : Ending V)
    (hP : ∀ key expireAt, next.Stores key (c.finish next ending).1 →
      next.Expires c.now expireAt → P key expireAt) :
    Changes P c (c.finish next ending).2 := by
  cases next with
  | store key ttl => cases ending with
    | value v => exact changes_store c key v ttl (hP key _ ⟨rfl, rfl⟩ ⟨ttl, rfl⟩)
    | nothing => exact .refl
    | failed failure => exact .refl
    | panicked text => exact .refl
  | offer key ttl => cases ending with
    | value v =>
        exact changes_enterNew c key (.given v) ttl false fun h => hP key _ ⟨rfl, h⟩ ⟨ttl, rfl⟩
    | nothing => exact .refl
    | failed failure => exact .refl
    | panicked text => exact .refl
  | lead turn =>
      exact changes_leave c turn ending fun expireAt hmem hstores =>
        hP turn.key expireAt hstores hmem

/-! ## Expiries that stay open -/

variable {R : Int → Prop}

/-- Whoever waits or computes keeps the turn that it came with. -/
theorem fixed_enter (c : Cache K V) {turn : Turn K V} (h : turn.Fixed R) :
    (c.enter turn).1.Fixed R := by
  rw [enter]
  split
  · exact h
  · rename_i hfree
    split
    · cases hpayload : turn.payload with
      | given value =>
          simp only [Store.beginProduce, if_neg hfree]
          exact trivial
      | produced =>
          simp only [Store.beginProduce, if_neg hfree]
          exact h
    · have hfree' : ¬c.read.store.flights.isRunning turn.key = true := hfree
      cases hlive : c.read.store.live? c.read.now turn.key with
      | some item =>
          simp only [Store.beginSetUnlessLive, if_neg hfree', hlive]
          exact trivial
      | none => cases hpayload : turn.payload with
        | given value =>
            simp only [Store.beginSetUnlessLive, if_neg hfree', hlive]
            exact trivial
        | produced =>
            simp only [Store.beginSetUnlessLive, if_neg hfree', hlive]
            exact h

/-- A write under a flight keeps the expiry that was fixed as its flight
    began. -/
theorem fixed_enterNew (c : Cache K V) (hR : ∀ ttl, R (ExpiringCache.expiryFrom c.now ttl))
    (key : K) (payload : Payload V) (ttl : Duration) (asksStored : Bool) :
    (c.enterNew key payload ttl asksStored).1.Fixed R := by
  obtain ⟨-, hexpiries⟩ := c.turn_cases key payload ttl asksStored
  have hturn : (c.turn key payload ttl asksStored).1.Fixed R := by
    intro expireAt hmem
    rw [(hexpiries expireAt hmem).2]
    exact hR ttl
  exact (c.turn key payload ttl asksStored).2.fixed_enter hturn

theorem fixed_beginPutIfAbsentFrom (c : Cache K V)
    (hR : ∀ ttl, R (ExpiringCache.expiryFrom c.now ttl)) (key : K) (ttl : Duration)
    (exclusive : Bool) : (c.beginPutIfAbsentFrom key ttl exclusive).1.Fixed R := by
  have hcontains : Changes (fun _ _ => True) c (c.contains key).2 := changes_contains c key
  rw [← hcontains.now] at hR
  rw [beginPutIfAbsentFrom]
  generalize c.contains key = found at hR
  obtain ⟨present, c'⟩ := found
  show (if _ then _ else _ : Progress K V × Cache K V).1.Fixed R
  split
  · exact trivial
  · split
    · exact c'.fixed_enterNew hR key .produced ttl true
    · exact trivial

theorem fixed_beginGetOrPut (c : Cache K V)
    (hR : ∀ ttl, R (ExpiringCache.expiryFrom c.now ttl)) (key : K) (payload : Payload V)
    (ttl : Duration) : (c.beginGetOrPut key payload ttl).1.Fixed R := by
  have hget : Changes (fun _ _ => True) c (c.get key).2 := changes_get c key
  rw [← hget.now] at hR
  rw [beginGetOrPut]
  generalize c.get key = found at hR
  obtain ⟨value, c'⟩ := found
  cases value with
  | some v => exact trivial
  | none => exact c'.fixed_enterNew hR key payload ttl false

theorem fixed_beginGetOrOffer (c : Cache K V) (key : K) (ttl : Duration) :
    (c.beginGetOrOffer key ttl).1.Fixed R := by
  rw [beginGetOrOffer]
  generalize c.get key = found
  obtain ⟨value, c'⟩ := found
  cases value with
  | some v => exact trivial
  | none => exact trivial

/-- A call fixes no expiry but one of a lifetime that starts now. -/
theorem fixed_begin (c : Cache K V) (hR : ∀ ttl, R (ExpiringCache.expiryFrom c.now ttl))
    (request : Request K V) : (c.begin request).1.Fixed R := by
  cases request with
  | putIfAbsentFrom key ttl exclusive => exact c.fixed_beginPutIfAbsentFrom hR key ttl exclusive
  | getOrPut key payload ttl => exact c.fixed_beginGetOrPut hR key payload ttl
  | getOrPutFrom key ttl exclusive => cases exclusive with
    | true => exact c.fixed_beginGetOrPut hR key .produced ttl
    | false => exact c.fixed_beginGetOrOffer key ttl
  | _ => exact trivial

/-- What a call still has to do after a producer has ended was fixed at its
    beginning or just now. -/
theorem fixed_finish (c : Cache K V) (hR : ∀ ttl, R (ExpiringCache.expiryFrom c.now ttl))
    (next : Pending K V) (ending : Ending V) : (c.finish next ending).1.Fixed R := by
  cases next with
  | store key ttl => exact trivial
  | lead turn => exact trivial
  | offer key ttl => cases ending with
    | value v => exact c.fixed_enterNew hR key (.given v) ttl false
    | nothing => exact trivial
    | failed failure => exact trivial
    | panicked text => exact trivial

end Cache

end ExpiringCache
