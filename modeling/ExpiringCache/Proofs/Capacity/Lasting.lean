import ExpiringCache.Proofs.Capacity.Inclusion
import ExpiringCache.Proofs.Order.Sweep
import ExpiringCache.Proofs.PlainCache.Calls

/-! # Caches in which nothing expires

    As long as every lifetime is zero or negative and the clock is short of
    `never`, the stored entries are just the live ones, and a cache is
    described by three things: its keys in order of use, the number of
    misses, and the flights in progress.  What a call does to the order is
    its `Effect`, which does not depend on the values; a miss is counted by
    some calls if their key is not there.  Sweeps and the clock change
    nothing, neither between calls nor while a computation runs. -/

namespace ExpiringCache

variable {K V : Type}

/-! ## What calls do where nothing expires -/

/-- A call whose entries last for ever or not at all. -/
def Request.Endless : Request K V → Prop
  | .put _ _ ttl => ttl.nanos ≤ 0
  | .putAll _ ttl => ttl.nanos ≤ 0
  | .putIfAbsent _ _ ttl => ttl.nanos ≤ 0
  | .putIfAbsentFrom _ ttl _ => ttl.nanos ≤ 0
  | .getOrPut _ _ ttl => ttl.nanos ≤ 0
  | .getOrPutFrom _ ttl _ => ttl.nanos ≤ 0
  | .setLifetime _ _ => False
  | _ => True

/-- Whether a computation has come to a value. -/
def Ending.isValue : Ending V → Bool
  | .value _ => true
  | .nothing => false
  | .failed _ => false
  | .panicked _ => false

/-- Whether there is a value to be stored once the computation has ended. -/
def Payload.yields (ending : Ending V) : Payload V → Bool
  | .given _ => true
  | .produced => ending.isValue

/-- What a call whose computation ends like that does to the order of use. -/
def Request.effect (ending : Ending V) : Request K V → Effect K
  | .put key _ ttl => if ttl.isNegative then .drop [key] else .fill [key]
  | .putAll entries ttl =>
      if ttl.isNegative then .drop (entries.map Prod.fst) else .fill (entries.map Prod.fst)
  | .putIfAbsent key _ ttl => .seek key (!ttl.isNegative)
  | .putIfAbsentFrom key ttl _ => .seek key (!ttl.isNegative && ending.isValue)
  | .get key => .seek key false
  | .getOrPut key payload ttl => .seek key (!ttl.isNegative && payload.yields ending)
  | .getOrPutFrom key ttl _ => .seek key (!ttl.isNegative && ending.isValue)
  | .contains key => .seek key false
  | .replace key _ => .seek key false
  | .remove dropped => .drop dropped
  | .clear => .wipe
  | _ => .idle

/-- The key of which a call counts whether it is found. -/
def Request.counted? : Request K V → Option K
  | .putIfAbsent key _ _ => some key
  | .putIfAbsentFrom key _ _ => some key
  | .get key => some key
  | .getOrPut key _ _ => some key
  | .getOrPutFrom key _ _ => some key
  | .contains key => some key
  | _ => none

/-- A lifetime that is neither positive nor negative never ends, and the
    clock is not read for it. -/
theorem Cache.expiryFrom_of_zero (c : Cache K V) {ttl : Duration} (httl : ttl.nanos ≤ 0)
    (hneg : ttl.isNegative = false) : c.expiryFrom ttl = (never, c) := by
  have hpos : ¬ttl.nanos < 0 := of_decide_eq_false hneg
  have hzero : ttl.isZero = true := by
    rw [Duration.isZero, beq_iff_eq]
    omega
  rw [expiryFrom, ExpiringCache.expiryFrom, if_pos hzero, if_pos hzero]

variable [DecidableEq K]

/-- The number of misses that a call counts if the keys are `ks`. -/
def Request.missed (request : Request K V) (ks : List K) : Nat :=
  match request.counted? with
  | some key => if key ∈ ks then 0 else 1
  | none => 0

namespace Recency

/-- A key that is there is used whether a value is stored or not. -/
theorem recalled_of_mem {key : K} {ks : List K} (h : key ∈ ks) (capacity : Nat)
    (stores : Bool) : recalled capacity key stores ks = used capacity key ks :=
  if_pos (Or.inl h)

/-- A key that is stored is used. -/
theorem recalled_of_stored (capacity : Nat) (key : K) (ks : List K) :
    recalled capacity key true ks = used capacity key ks :=
  if_pos (Or.inr rfl)

/-- A key that is not there, nor stored, changes nothing. -/
theorem recalled_of_not_mem {key : K} {ks : List K} (h : key ∉ ks) (capacity : Nat) :
    recalled capacity key false ks = ks :=
  if_neg (not_or.mpr ⟨h, Bool.false_ne_true⟩)

end Recency

namespace Cache

open Recency (used recalled kept)

/-! ## Lasting caches -/

/-- The cache holds the keys `ks`, the coldest first, none of which ever
    expires; it has counted some misses, and some flights are in progress. -/
structure Lasting (c : Cache K V) (capacity : Nat) (ks : List K) (misses : Nat)
    (flights : Flights K) : Prop where
  ordered : c.Ordered capacity ks
  endless : ∀ k item, c.store.item? k = some item → item.expireAt = never
  early : c.now < never
  counted : c.counters.misses = misses
  flown : c.store.flights = flights

/-- A new cache is lasting: it is empty, and has no misses. -/
theorem lasting_new (capacity : Nat) {clock : Clock} (h : clock.now < never) :
    (new capacity clock : Cache K V).Lasting capacity [] 0 .none where
  ordered := ordered_new capacity clock
  endless := fun _ _ hitem => by cases hitem
  early := h
  counted := rfl
  flown := rfl

namespace Lasting

variable {c : Cache K V} {capacity misses : Nat} {ks : List K} {flights : Flights K} {key : K}

/-! ## What is found -/

/-- Every stored key is live before `never`. -/
theorem live_of_mem (h : c.Lasting capacity ks misses flights) (hkey : key ∈ ks) {time : Int}
    (htime : time < never) :
    ∃ item, c.store.live? time key = some item ∧ item.expireAt = never := by
  obtain ⟨item, hitem⟩ := Option.isSome_iff_exists.mp ((h.ordered.stored key).mp hkey)
  have hend := h.endless key item hitem
  exact ⟨item, Store.live?_eq_some.mpr ⟨hitem, hend ▸ htime⟩, hend⟩

/-- A key that is not in the order is not live at any time. -/
theorem dead_of_not_mem (h : c.Lasting capacity ks misses flights) (hkey : key ∉ ks)
    (time : Int) : c.store.live? time key = none := by
  rw [Option.eq_none_iff_forall_not_mem]
  exact fun item hitem => hkey (h.ordered.mem_of_live hitem)

/-! ## Operations -/

/-- To read the clock changes neither keys nor misses. -/
theorem read (h : c.Lasting capacity ks misses flights) :
    c.read.Lasting capacity ks misses flights where
  ordered := h.ordered.read
  endless := h.endless
  early := by
    rw [now_read]
    exact h.early
  counted := h.counted
  flown := h.flown

/-- The clock may be set to any time short of `never`. -/
theorem setWall (h : c.Lasting capacity ks misses flights) {wall : Int} (hwall : wall < never) :
    Lasting { c with clock := c.clock.setTo wall } capacity ks misses flights where
  ordered := h.ordered.same rfl rfl fun _ => rfl
  endless := h.endless
  early := by
    have hlatest : c.clock.latest < never :=
      Int.lt_of_le_of_lt (Int.le_max_right _ _) h.early
    show max wall c.clock.latest < never
    omega
  counted := h.counted
  flown := h.flown

/-- A sweep finds nothing to delete. -/
theorem swept (h : c.Lasting capacity ks misses flights) (order : VisitingOrder K) :
    (c.swept order).Lasting capacity ks misses flights := by
  have hthins := c.thins_swept order
  have hitem : ∀ k, (c.swept order).store.item? k = c.store.item? k :=
    hthins.item?_eq fun k item hk => h.endless k item hk ▸ h.early
  obtain ⟨ks', hsub, hordered⟩ := hthins.order capacity ks h.ordered
  have hsame : ks' = ks := by
    refine hsub.eq_of_length_le ?_
    have hperm : ks.Perm ks' := (List.perm_ext_iff_of_nodup h.ordered.nodup hordered.nodup).mpr
      fun k => by rw [h.ordered.stored, hordered.stored, hitem]
    exact Nat.le_of_eq hperm.length_eq
  refine ⟨hsame ▸ hordered, fun k item hk => h.endless k item ((hitem k).symm.trans hk), ?_,
    hthins.misses.trans h.counted, hthins.flights.trans h.flown⟩
  show (c.swept order).clock.now < never
  rw [clock_swept, Clock.now_read]
  exact h.early

/-- Using a stored key. -/
theorem touch (h : c.Lasting capacity ks misses flights) (hkey : key ∈ ks) :
    (c.touch key).Lasting capacity (used capacity key ks) misses flights where
  ordered := h.ordered.touch hkey
  endless := by
    intro k item hitem
    rw [item?_touch] at hitem
    split at hitem
    · cases hitem
    · exact h.endless k item hitem
  early := by
    rw [now_touch]
    exact h.early
  counted := by
    rw [touch_eq]
    exact h.counted
  flown := by
    rw [flights_touch]
    exact h.flown

/-- Storing an item that never expires under a key, and using it. -/
theorem change (h : c.Lasting capacity ks misses flights) (key : K) (item : Item V)
    (hitem : item.expireAt = never) (notices : NoticeQueue K) :
    (Cache.touch { c with store := c.store.set key item, notices := notices } key).Lasting
      capacity (used capacity key ks) misses flights where
  ordered := h.ordered.change key item notices
  endless := by
    intro k found hfound
    rw [item?_touch] at hfound
    split at hfound
    · cases hfound
    · rw [Store.item?_set] at hfound
      split at hfound
      · cases hfound
        exact hitem
      · exact h.endless k found hfound
  early := by
    rw [now_touch]
    exact h.early
  counted := by
    rw [touch_eq]
    exact h.counted
  flown := by
    rw [flights_touch]
    exact h.flown

/-- A write without expiry uses its key. -/
theorem write (h : c.Lasting capacity ks misses flights) (key : K) (value : V) :
    (c.write key value never).Lasting capacity (used capacity key ks) misses flights :=
  h.change key ⟨value, never⟩ rfl _

/-- A removal takes its keys out of the order. -/
theorem remove (h : c.Lasting capacity ks misses flights) (keys : List K) :
    (c.remove keys).2.Lasting capacity (kept keys ks) misses flights where
  ordered := h.ordered.remove keys
  endless := by
    intro k item hitem
    rw [item?_remove] at hitem
    split at hitem
    · cases hitem
    · exact h.endless k item hitem
  early := by
    rw [now_remove]
    exact h.early
  counted := by
    rw [remove_eq]
    exact h.counted
  flown := by
    rw [flights_remove]
    exact h.flown

/-- To clear a cache empties the order, and keeps the misses. -/
theorem clear (h : c.Lasting capacity ks misses flights) :
    c.clear.Lasting capacity [] misses flights where
  ordered := h.ordered.clear
  endless := fun _ _ hitem => by cases hitem
  early := h.early
  counted := h.counted
  flown := h.flown

/-- Beginning or ending flights. -/
theorem flying (h : c.Lasting capacity ks misses flights) {now after : Flights K}
    (hnow : now = after) :
    Lasting { c with store := { c.store with flights := now } } capacity ks misses after :=
  ⟨h.ordered.flights now, h.endless, h.early, h.counted, hnow⟩

/-! ## Reading -/

/-- A look-up of a key that is there is a hit, and uses it. -/
theorem get_of_mem (h : c.Lasting capacity ks misses flights) (hkey : key ∈ ks) :
    ∃ value c', c.get key = (some value, c') ∧
      c'.Lasting capacity (used capacity key ks) misses flights := by
  obtain ⟨item, hlive, -⟩ := h.read.live_of_mem hkey h.read.early
  have hhit : Lasting { c.read with counters := c.read.counters.hit } capacity ks misses flights :=
    ⟨h.read.ordered.same rfl rfl fun _ => rfl, h.endless, h.read.early, h.counted, h.flown⟩
  refine ⟨item.value, _, ?_, hhit.touch hkey⟩
  simp only [get, hlive]

/-- A look-up of another key is a miss, and is counted. -/
theorem get_of_not_mem (h : c.Lasting capacity ks misses flights) (hkey : key ∉ ks) :
    ∃ c', c.get key = (none, c') ∧ c'.Lasting capacity ks (misses + 1) flights := by
  have hdead := h.read.dead_of_not_mem hkey c.read.now
  have hmiss : Lasting { c.read with counters := c.read.counters.miss } capacity ks (misses + 1)
      flights :=
    ⟨h.read.ordered.same rfl rfl fun _ => rfl, h.endless, h.read.early,
      congrArg (· + 1) h.counted, h.flown⟩
  refine ⟨_, ?_, hmiss⟩
  simp only [get, hdead]

end Lasting

end Cache

end ExpiringCache
