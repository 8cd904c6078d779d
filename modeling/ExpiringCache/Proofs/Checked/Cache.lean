import ExpiringCache.Proofs.Changes.Calls
import ExpiringCache.Proofs.Checked.Recency

/-! # Caches without overflow

    Some differences of instants are taken without a stop at the ends of the
    range: what an item has left, and the date of the notice of a removed
    key.  They stay within a word because of what surrounds them.  The clock
    has not gone below zero; what an item has left is asked for only while it
    is live, and so is positive; no item expires after `never`.

    A cache is `Sound` if its clock, its items and its recency list are such
    that no calculation fails.  All elementary changes keep it so. -/

namespace ExpiringCache

/-! ## Instants and spans -/

/-- The range of the expiries with which items are stored: none is below the
    negative of the greatest word, and none is after `never`. -/
def Ranged (expireAt : Int) : Prop := -Word.greatest ≤ expireAt ∧ expireAt ≤ never

/-- The checked `expiryFrom`: the sum stops at the ends of the range. -/
def checkedExpiryFrom (now : Int) (d : Duration) : Option Int :=
  if d.isZero then some never
  else do
    let ms ← Word.checked d.millis
    some (min never (Word.add now ms))

/-- The milliseconds, if a duration can have so many. -/
def Duration.checkedMillis (ms : Int) : Option Int := (Duration.ofMillis? ms).map Duration.millis

/-- The whole milliseconds of a duration are a word, and so is their
    negative. -/
theorem Duration.millis_bounds (d : Duration) :
    -Word.greatest ≤ d.millis ∧ d.millis ≤ Word.greatest := by
  have hmillis : d.millis.natAbs = d.nanos.natAbs / 1000000 := Int.natAbs_tdiv d.nanos 1000000
  have hwithin := d.within
  rw [Duration.limit] at hwithin
  rw [Word.greatest]
  omega

/-- A lifetime whose milliseconds are those of a word can be made. -/
theorem Duration.checkedMillis_eq {ms : Int} (h : -Word.greatest ≤ ms ∧ ms ≤ Word.greatest) :
    Duration.checkedMillis ms = some ms := by
  obtain ⟨d, hd⟩ := Option.isSome_iff_exists.mp (Duration.ofMillis?_isSome.mpr h)
  rw [checkedMillis, hd, Option.map_some, Duration.millis_ofMillis? hd]

/-- Wherever the clock is, the expiry of a lifetime can be calculated: the sum
    stops at the ends of the range. -/
theorem checkedExpiryFrom_eq (now : Int) (d : Duration) :
    checkedExpiryFrom now d = some (expiryFrom now d) := by
  have hfits : Word.Fits d.millis := by
    have hbounds := d.millis_bounds
    simp only [Word.Fits, Word.greatest, Word.least] at hbounds ⊢
    omega
  rw [checkedExpiryFrom, expiryFrom, Word.checked_of_fits hfits]
  split
  · rfl
  · rfl

/-- The farthest lifetime into the past ends no earlier than the negative of
    the greatest word. -/
theorem ranged_expiryFrom {now : Int} (h : 0 ≤ now) (d : Duration) :
    Ranged (expiryFrom now d) := by
  refine ⟨?_, expiryFrom_le_never now d⟩
  have hbounds := d.millis_bounds
  rw [expiryFrom_eq_min h]
  rw [Word.greatest] at hbounds ⊢
  rw [never]
  split
  · decide
  · omega

/-! ## Items -/

variable {K V : Type}

/-- The checked `remainingAt`. -/
def Item.checkedRemainingAt (item : Item V) (now : Int) : Option Int :=
  if item.expireAt = never then some 0 else Word.checked (item.expireAt - now)

/-- What a live item has left is not negative and does not exceed `never`. -/
theorem Item.remainingAt_bounds {item : Item V} {now : Int} (hnow : 0 ≤ now)
    (hlive : now < item.expireAt) (hranged : Ranged item.expireAt) :
    0 ≤ item.remainingAt now ∧ item.remainingAt now ≤ never := by
  have hle := hranged.2
  rw [remainingAt]
  split
  · decide
  · omega

/-- What a live item has left can be calculated, as the clock is not below
    zero and no item expires after `never`. -/
theorem Item.checkedRemainingAt_eq {item : Item V} {now : Int} (hnow : 0 ≤ now)
    (hlive : now < item.expireAt) (hranged : Ranged item.expireAt) :
    item.checkedRemainingAt now = some (item.remainingAt now) := by
  have hle := hranged.2
  rw [checkedRemainingAt, remainingAt]
  split
  · rfl
  · refine Word.checked_of_fits ?_
    rw [never] at hle
    simp only [Word.Fits, Word.least, Word.greatest]
    omega

-- an item that is not live may have expired longer ago than a word counts
example : (⟨(), -Word.greatest⟩ : Item Unit).checkedRemainingAt 2 = none := by decide

namespace Cache

/-! ## Sound caches -/

variable [DecidableEq K]

/-- Clock, items and recency list are such that no calculation leaves its
    range. -/
structure Sound (c : Cache K V) : Prop where
  latest : 0 ≤ c.clock.latest
  now_le : c.now ≤ Word.greatest
  expiries : c.Expiries Ranged
  ranked : c.Ranked

variable {c d : Cache K V}

/-- A new cache is sound, whatever its wall clock shows. -/
theorem sound_new (capacity : Nat) {wall : Int} (h : Word.Fits wall) :
    (new capacity (.unread wall) : Cache K V).Sound where
  latest := Int.le_refl 0
  now_le := by
    have hle := h.2
    show max wall 0 ≤ Word.greatest
    rw [Word.greatest] at hle ⊢
    omega
  expiries := fun _ _ hitem => nomatch hitem
  ranked := ranked_new capacity _

namespace Sound

/-- The clock of a sound cache has not gone below zero. -/
theorem now_nonneg (h : c.Sound) : 0 ≤ c.now := Int.le_trans h.latest (Int.le_max_right _ _)

/-- Elementary changes keep a cache sound if they store with expiries in the
    range only. -/
theorem of_changes (h : c.Sound) {P : K → Int → Prop}
    (hP : ∀ key expireAt, P key expireAt → Ranged expireAt) (hchanges : Changes P c d) :
    d.Sound where
  latest := Int.le_trans h.latest hchanges.latest
  now_le := hchanges.now ▸ h.now_le
  expiries := hchanges.expiries hP (ranged_expiryFrom h.now_nonneg) h.expiries
  ranked := hchanges.ranked h.ranked

/-- Elementary changes that store ranged expiries only keep a cache sound. -/
theorem changes (h : c.Sound) (hchanges : Changes (fun _ => Ranged) c d) : d.Sound :=
  h.of_changes (fun _ _ hranged => hranged) hchanges

theorem read (h : c.Sound) : c.read.Sound := h.changes (changes_read c)

/-- To fix an expiry keeps a cache sound. -/
theorem expiryFrom (h : c.Sound) (ttl : Duration) : (c.expiryFrom ttl).2.Sound :=
  h.changes (changes_expiryFrom c ttl)

/-- An expiry that a sound cache fixes is in range. -/
theorem ranged (h : c.Sound) (ttl : Duration) : Ranged (c.expiryFrom ttl).1 :=
  ranged_expiryFrom h.now_nonneg ttl

/-- Notices have no part in what makes a cache sound. -/
theorem noted (h : c.Sound) (notices : NoticeQueue K) : Sound { c with notices := notices } :=
  h.changes (changes_noted c notices)

/-- Nothing but the clock, the items and the recency list matters. -/
theorem beside (h : c.Sound) (hcap : d.capacity = c.capacity)
    (hitem : ∀ k, d.store.item? k = c.store.item? k) (hrecency : d.recency = c.recency)
    (hclock : d.clock = c.clock) : d.Sound :=
  h.changes (Changes.refl.beside hcap hitem hrecency hclock)

/-- Whatever the wall clock is set to. -/
theorem setTo (h : c.Sound) {wall : Int} (hwall : Word.Fits wall) :
    Sound { c with clock := c.clock.setTo wall } where
  latest := h.latest
  now_le := by
    have hle := hwall.2
    have hnow : max c.clock.wall c.clock.latest ≤ Word.greatest := h.now_le
    show max wall c.clock.latest ≤ Word.greatest
    omega
  expiries := h.expiries
  ranked := h.ranked.same rfl rfl

/-- The date of a notice of a removed key is a word. -/
theorem checked_marker (h : c.Sound) :
    Word.checked (c.now - removalOffset) = some (c.now - removalOffset) := by
  have hlow := h.now_nonneg
  have hhigh := h.now_le
  refine Word.checked_of_fits ?_
  simp only [Word.Fits, Word.least, Word.greatest, removalOffset] at hhigh ⊢
  omega

/-- What a live item has left. -/
theorem remainingAt_bounds (h : c.Sound) {key : K} {item : Item V}
    (hlive : c.store.live? c.now key = some item) :
    0 ≤ item.remainingAt c.now ∧ item.remainingAt c.now ≤ never := by
  obtain ⟨hitem, hlt⟩ := Store.live?_eq_some.mp hlive
  exact Item.remainingAt_bounds h.now_nonneg hlt (h.expiries key item hitem)

/-- What a live item of a sound cache has left can be calculated. -/
theorem checkedRemainingAt_eq (h : c.Sound) {key : K} {item : Item V}
    (hlive : c.store.live? c.now key = some item) :
    item.checkedRemainingAt c.now = some (item.remainingAt c.now) := by
  obtain ⟨hitem, hlt⟩ := Store.live?_eq_some.mp hlive
  exact Item.checkedRemainingAt_eq h.now_nonneg hlt (h.expiries key item hitem)

/-- What a live item has left is a duration. -/
theorem checkedMillis_eq (h : c.Sound) {key : K} {item : Item V}
    (hlive : c.store.live? c.now key = some item) :
    Duration.checkedMillis (item.remainingAt c.now) = some (item.remainingAt c.now) := by
  obtain ⟨hlow, hhigh⟩ := h.remainingAt_bounds hlive
  refine Duration.checkedMillis_eq ⟨?_, Int.le_trans hhigh (by decide)⟩
  rw [Word.greatest]
  omega

end Sound

/-- So is what stands for no item. -/
theorem checkedMillis_absentSpan :
    Duration.checkedMillis Store.absentSpan = some Store.absentSpan :=
  Duration.checkedMillis_eq (by decide)

/-! ## Using the recency list -/

/-- The checked `expiryFrom`. -/
def checkedExpiryFrom (c : Cache K V) (ttl : Duration) : Option (Int × Cache K V) := do
  let expireAt ← ExpiringCache.checkedExpiryFrom c.now ttl
  some (expireAt, if ttl.isZero then c else c.read)

/-- The checked `dropEvicted`: the date of the notices is a word. -/
def checkedDropEvicted (c : Cache K V) (evicted : List K) : Option (Cache K V) := do
  let marker ← Word.checked (c.now - removalOffset)
  some
    { c with
      store := evicted.foldl (fun store key => (store.delete key).2) c.store
      notices := c.notices.pushAll evicted marker
      counters := c.counters.evicted evicted.length }

/-- The checked `touch`. -/
def checkedTouch (c : Cache K V) (key : K) : Option (Cache K V) :=
  match c.recency with
  | none => some c
  | some recency => do
      let (evicted, recency) ← recency.checkedTouch key
      let c := { c with recency := some recency }
      if evicted.isEmpty then some c else c.read.checkedDropEvicted evicted

/-- The checked `write`. -/
def checkedWrite (c : Cache K V) (key : K) (value : V) (expireAt : Int) : Option (Cache K V) :=
  checkedTouch
    { c with
      store := c.store.set key ⟨value, expireAt⟩
      notices := c.notices.push key expireAt }
    key

/-- The checked `remove`: the date of the notices is a word. -/
def checkedRemove (c : Cache K V) (keys : List K) : Option (Option V × Cache K V) :=
  if keys.isEmpty then some (none, c)
  else
    let c := c.read
    let ((deleted, last), store) := c.store.deleteAll c.now keys
    do
      let marker ← Word.checked (c.now - removalOffset)
      let recency ← c.recency.mapM fun recency => recency.checkedRemoveAll deleted
      some (last,
        { c with
          store := store
          notices := c.notices.pushAll deleted marker
          recency := recency })

omit [DecidableEq K] in
/-- To fix an expiry never fails in a cache. -/
theorem checkedExpiryFrom_eq (c : Cache K V) (ttl : Duration) :
    c.checkedExpiryFrom ttl = some (c.expiryFrom ttl) := by
  rw [checkedExpiryFrom, ExpiringCache.checkedExpiryFrom_eq]
  rfl

/-- What goes well with each list in good order goes well with that of a
    cache, if it has one. -/
theorem Ranked.mapM_eq {f : Recency K → Option (Recency K)} {g : Recency K → Recency K}
    (h : c.Ranked) (hf : ∀ r ks, r.Lists ks → f r = some (g r)) :
    c.recency.mapM f = some (c.recency.map g) := by
  obtain ⟨ks, ⟨-, hnone⟩ | ⟨r, -, hsome, -, hlists⟩⟩ := h
  · rw [hnone]
    rfl
  · rw [hsome]
    show (f r).map some = _
    rw [hf r ks hlists]
    rfl

namespace Sound

/-- No calculation fails as a key is touched, nor as its victims are deleted. -/
theorem checkedTouch_eq (h : c.Sound) (key : K) : c.checkedTouch key = some (c.touch key) := by
  obtain ⟨ks, ⟨-, hnone⟩ | ⟨r, -, hsome, -, hlists⟩⟩ := h.ranked
  · simp only [checkedTouch, Cache.touch, hnone]
  · have hdropped : ∀ recency evicted,
        checkedDropEvicted { c.read with recency := recency } evicted =
          some (dropEvicted { c.read with recency := recency } evicted) := by
      intro recency evicted
      have hmarker := h.read.checked_marker
      simp only [checkedDropEvicted, now] at hmarker ⊢
      rw [hmarker]
      rfl
    simp only [checkedTouch, Cache.touch, hsome, hlists.checkedTouch_eq, Option.bind_eq_bind,
      Option.bind_some]
    split
    · rfl
    · exact hdropped _ _

/-- A sound cache is sound after a write with an expiry in range. -/
theorem write (h : c.Sound) (key : K) (value : V) {expireAt : Int} (hranged : Ranged expireAt) :
    (c.write key value expireAt).Sound :=
  h.changes (changes_write c key value hranged)

/-- No calculation fails in a write to a sound cache. -/
theorem checkedWrite_eq (h : c.Sound) (key : K) (value : V) {expireAt : Int}
    (hranged : Ranged expireAt) :
    c.checkedWrite key value expireAt = some (c.write key value expireAt) := by
  have hstored : Sound
      { c with
        store := c.store.set key ⟨value, expireAt⟩
        notices := c.notices.push key expireAt } :=
    h.changes ((Changes.refl.store key ⟨value, expireAt⟩ hranged).trans (changes_noted _ _))
  exact hstored.checkedTouch_eq key

/-- No calculation fails in a removal, however many keys it names. -/
theorem checkedRemove_eq (h : c.Sound) (keys : List K) :
    c.checkedRemove keys = some (c.remove keys) := by
  rw [checkedRemove, Cache.remove]
  split
  · rfl
  · have hrecency := h.read.ranked.mapM_eq fun _ _ hlists =>
      hlists.checkedRemoveAll_eq (c.read.store.deleteAll c.read.now keys).1.1
    simp only [h.read.checked_marker, hrecency, Option.bind_eq_bind, Option.bind_some]

end Sound

/-! ## Calls that need no computation -/

/-- The checked `put`. -/
def checkedPut (c : Cache K V) (key : K) (value : V) (ttl : Duration) : Option (Cache K V) :=
  if ttl.isNegative then do
    let (_, c) ← c.checkedRemove [key]
    some c
  else do
    let (expireAt, c) ← c.checkedExpiryFrom ttl
    c.checkedWrite key value expireAt

/-- The checked `putAll`. -/
def checkedPutAll (c : Cache K V) (entries : List (K × V)) (ttl : Duration) :
    Option (Cache K V) :=
  if ttl.isNegative then do
    let (_, c) ← c.checkedRemove (entries.map Prod.fst)
    some c
  else do
    let (expireAt, c) ← c.checkedExpiryFrom ttl
    entries.foldlM (fun c entry => c.checkedWrite entry.1 entry.2 expireAt) c

/-- The checked `get`. -/
def checkedGet (c : Cache K V) (key : K) : Option (Option V × Cache K V) :=
  let c := c.read
  match c.store.live? c.now key with
  | some item => do
      let c ← checkedTouch { c with counters := c.counters.hit } key
      some (some item.value, c)
  | none => some (none, { c with counters := c.counters.miss })

/-- The checked `contains`. -/
def checkedContains (c : Cache K V) (key : K) : Option (Bool × Cache K V) := do
  let (value, c) ← c.checkedGet key
  some (value.isSome, c)

/-- The checked `putIfAbsent`. -/
def checkedPutIfAbsent (c : Cache K V) (key : K) (value : V) (ttl : Duration) :
    Option (Bool × Cache K V) := do
  let (present, c) ← c.checkedContains key
  if present || ttl.isNegative then some (false, c)
  else
    let (expireAt, c) ← c.checkedExpiryFrom ttl
    let c ← c.checkedWrite key value expireAt
    some (true, c)

/-- The checked `lifetime`: the answer is a duration. -/
def checkedLifetime (c : Cache K V) (key : K) : Option (Int × Cache K V) :=
  let c := c.read
  match c.store.live? c.now key with
  | some item => do
      let left ← item.checkedRemainingAt c.now
      let span ← Duration.checkedMillis left
      some (span, c)
  | none => do
      let span ← Duration.checkedMillis Store.absentSpan
      some (span, c)

/-- The checked `replace`. -/
def checkedReplace (c : Cache K V) (key : K) (value : V) : Option (Option V × Cache K V) :=
  let c := c.read
  let (old, store) := c.store.replaceValue c.now key value
  let c := { c with store := store }
  if old.isSome then do
    let c ← c.checkedTouch key
    some (old, c)
  else some (old, c)

/-- The checked `Store.replaceExpiry`. -/
def checkedReplaceExpiry (s : Store K V) (now : Int) (key : K) (expireAt : Int) :
    Option (Int × Store K V) :=
  match s.live? now key with
  | none => some (Store.absentSpan, s)
  | some item => do
      let left ← item.checkedRemainingAt now
      some (left, s.set key { item with expireAt := expireAt })

/-- The checked `setLifetime`: the answer is a duration. -/
def checkedSetLifetime (c : Cache K V) (key : K) (ttl : Duration) :
    Option (Int × Cache K V) := do
  let (expireAt, c) ← c.checkedExpiryFrom ttl
  let c := c.read
  let (left, store) ← checkedReplaceExpiry c.store c.now key expireAt
  let c := { c with store := store }
  let c ←
    if left = Store.absentSpan then some c
    else checkedTouch { c with notices := c.notices.push key expireAt } key
  let span ← Duration.checkedMillis left
  some (span, c)

namespace Sound

theorem checkedPut_eq (h : c.Sound) (key : K) (value : V) (ttl : Duration) :
    c.checkedPut key value ttl = some (c.put key value ttl) := by
  rw [checkedPut, Cache.put]
  split
  · rw [h.checkedRemove_eq]
    rfl
  · rw [c.checkedExpiryFrom_eq]
    exact (h.expiryFrom ttl).checkedWrite_eq key value (h.ranged ttl)

/-- No calculation fails in a row of writes, each to the cache that the last
    one left. -/
theorem checkedWriteAll_eq (h : c.Sound) (entries : List (K × V)) {expireAt : Int}
    (hranged : Ranged expireAt) :
    entries.foldlM (fun c entry => c.checkedWrite entry.1 entry.2 expireAt) c =
      some (entries.foldl (fun c entry => c.write entry.1 entry.2 expireAt) c) := by
  induction entries generalizing c with
  | nil => rfl
  | cons entry rest ih =>
      rw [List.foldlM_cons, h.checkedWrite_eq entry.1 entry.2 hranged, List.foldl_cons]
      exact ih (h.write entry.1 entry.2 hranged)

theorem checkedPutAll_eq (h : c.Sound) (entries : List (K × V)) (ttl : Duration) :
    c.checkedPutAll entries ttl = some (c.putAll entries ttl) := by
  rw [checkedPutAll, Cache.putAll]
  split
  · rw [h.checkedRemove_eq]
    rfl
  · rw [c.checkedExpiryFrom_eq]
    exact (h.expiryFrom ttl).checkedWriteAll_eq entries (h.ranged ttl)

/-- No calculation fails in a look-up, whether it is a hit or a miss. -/
theorem checkedGet_eq (h : c.Sound) (key : K) : c.checkedGet key = some (c.get key) := by
  cases hlive : c.read.store.live? c.read.now key with
  | some item =>
      have hcounted : Sound { c.read with counters := c.read.counters.hit } :=
        h.read.beside rfl (fun _ => rfl) rfl rfl
      have htouched := hcounted.checkedTouch_eq key
      simp only [checkedGet, Cache.get, hlive, htouched, Option.bind_eq_bind, Option.bind_some]
  | none => simp only [checkedGet, Cache.get, hlive]

theorem checkedContains_eq (h : c.Sound) (key : K) :
    c.checkedContains key = some (c.contains key) := by
  rw [checkedContains, h.checkedGet_eq]
  rfl

theorem get (h : c.Sound) (key : K) : (c.get key).2.Sound := h.changes (changes_get c key)

theorem contains (h : c.Sound) (key : K) : (c.contains key).2.Sound := h.get key

theorem checkedPutIfAbsent_eq (h : c.Sound) (key : K) (value : V) (ttl : Duration) :
    c.checkedPutIfAbsent key value ttl = some (c.putIfAbsent key value ttl) := by
  have hfound := h.contains key
  rw [checkedPutIfAbsent, h.checkedContains_eq, Cache.putIfAbsent]
  generalize c.contains key = found at hfound
  obtain ⟨present, c'⟩ := found
  simp only [Option.bind_eq_bind, Option.bind_some]
  split
  · rfl
  · have hwritten := (hfound.expiryFrom ttl).checkedWrite_eq key value (hfound.ranged ttl)
    simp only [c'.checkedExpiryFrom_eq, hwritten, Option.bind_some]

theorem checkedLifetime_eq (h : c.Sound) (key : K) :
    c.checkedLifetime key = some (c.lifetime key) := by
  cases hlive : c.read.store.live? c.read.now key with
  | some item =>
      simp only [checkedLifetime, Cache.lifetime, hlive, h.read.checkedRemainingAt_eq hlive,
        h.read.checkedMillis_eq hlive, Option.bind_eq_bind, Option.bind_some]
  | none =>
      simp only [checkedLifetime, Cache.lifetime, hlive, checkedMillis_absentSpan,
        Option.bind_eq_bind, Option.bind_some]

/-- No calculation fails as the value of a key is replaced. -/
theorem checkedReplace_eq (h : c.Sound) (key : K) (value : V) :
    c.checkedReplace key value = some (c.replace key value) := by
  cases hlive : c.read.store.live? c.read.now key with
  | none =>
      simp only [checkedReplace, Cache.replace, Store.replaceValue, hlive]
      rfl
  | some item =>
      have hset : Sound
          { c.read with store := c.read.store.set key { item with value := value } } :=
        h.read.changes (Changes.refl.change hlive { item with value := value } (Or.inl rfl))
      simp only [checkedReplace, Cache.replace, Store.replaceValue, hlive, Option.isSome_some,
        if_true, hset.checkedTouch_eq key, Option.bind_eq_bind, Option.bind_some]

/-- No calculation fails as a key gets another lifetime, whose old one is told
    as a span. -/
theorem checkedSetLifetime_eq (h : c.Sound) (key : K) (ttl : Duration) :
    c.checkedSetLifetime key ttl = some (c.setLifetime key ttl) := by
  have hread := (h.expiryFrom ttl).read
  have hranged := h.ranged ttl
  rw [checkedSetLifetime, c.checkedExpiryFrom_eq, Cache.setLifetime]
  generalize c.expiryFrom ttl = fixed at hread hranged
  obtain ⟨expireAt, c'⟩ := fixed
  cases hlive : c'.read.store.live? c'.read.now key with
  | none =>
      simp only [checkedReplaceExpiry, Store.replaceExpiry, hlive, checkedMillis_absentSpan,
        if_true, Option.bind_eq_bind, Option.bind_some]
  | some item =>
      have hspan := Item.remainingAt_ne_absent (Store.live?_eq_some.mp hlive).2
      have hset : Sound
          { c'.read with
            store := c'.read.store.set key { item with expireAt := expireAt }
            notices := c'.read.notices.push key expireAt } :=
        hread.changes
          ((Changes.refl.store key { item with expireAt := expireAt } hranged).trans
            (changes_noted _ _))
      simp only [checkedReplaceExpiry, Store.replaceExpiry, hlive,
        hread.checkedRemainingAt_eq hlive, hread.checkedMillis_eq hlive, if_neg hspan,
        hset.checkedTouch_eq key, Option.bind_eq_bind, Option.bind_some]

end Sound

end Cache

end ExpiringCache
