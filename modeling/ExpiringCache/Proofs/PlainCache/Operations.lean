import ExpiringCache.Proofs.PlainCache.Alike

/-! # Operations on both sides

    Each operation of a cache that needs no computation answers what the
    same operation of a plain cache answers, and leaves the two caches
    alike.  The clock is read by some operations and not by others; a
    reading changes no other reading, so this does not show. -/

namespace ExpiringCache

variable {K V : Type} [DecidableEq K]

namespace PlainCache

variable {p : PlainCache K V} {key : K}

/-- A key is live in a plain cache if its entry has not expired. -/
theorem live?_eq_some {item : Item V} :
    p.live? key = some item ↔
      Table.find? key p.entries = some item ∧ p.now < item.expireAt := by
  rw [live?, Option.filter_eq_some_iff]
  simp [Item.isExpiredAt]

theorem get_of_live {item : Item V} (h : p.live? key = some item) :
    p.get key = (some item.value, p.place key item) := by
  simp only [get, h]

theorem get_of_dead (h : p.live? key = none) : p.get key = (none, p) := by
  simp only [get, h]

theorem put_of_negative {ttl : Duration} (h : ttl.isNegative = true) (key : K) (value : V) :
    p.put key value ttl = p.erase key := by
  rw [put, if_pos h]

theorem put_of_nonnegative {ttl : Duration} (h : ttl.isNegative = false) (key : K)
    (value : V) :
    p.put key value ttl = p.place key ⟨value, expiryFrom p.now ttl⟩ := by
  rw [put, if_neg (by rw [h]; exact Bool.false_ne_true)]

/-- Putting under a negative lifetime removes the keys. -/
theorem foldl_put_of_negative {ttl : Duration} (h : ttl.isNegative = true)
    (entries : List (K × V)) (p : PlainCache K V) :
    entries.foldl (fun p entry => p.put entry.1 entry.2 ttl) p =
      (p.remove (entries.map Prod.fst)).2 := by
  induction entries generalizing p with
  | nil => rfl
  | cons entry rest ih =>
      rw [List.foldl_cons, put_of_negative h, ih]
      rfl

end PlainCache

namespace Alike

variable {c : Cache K V} {p : PlainCache K V}

/-- To read the clock of a cache leaves it like its plain one, which shows the
    same time. -/
theorem read (h : Alike c p) : Alike c.read p :=
  h.beside ⟨rfl, rfl, rfl, Cache.now_read c, c.latest_le_read⟩ fun _ => rfl

/-- Counters have no counterpart. -/
theorem counted (h : Alike c p) (counters : Counters) :
    Alike { c with counters := counters } p :=
  h.beside ⟨rfl, rfl, rfl, rfl, Int.le_refl _⟩ fun _ => rfl

/-- A cache that is cleared is like the plain one without entries. -/
theorem clear (h : Alike c p) : Alike c.clear { p with entries := [] } where
  capacity := h.capacity
  now := h.now
  latest := h.latest
  item? := fun _ => rfl
  nodup := List.nodup_nil
  running := h.running
  ranks := h.ranks.map (f := Recency.clear) (g := fun _ => [])
    (fun r _ _ => ⟨rfl, r.lists_clear⟩) rfl rfl

/-! ## Writing -/

/-- Both fix the same expiry, and it does not matter if the clock is read
    for it. -/
theorem expiryFrom (h : Alike c p) (ttl : Duration) :
    (c.expiryFrom ttl).1 = ExpiringCache.expiryFrom p.now ttl ∧
      Alike (c.expiryFrom ttl).2 p := by
  constructor
  · rw [h.now]
    rfl
  · show Alike (if _ then _ else _) p
    split
    · exact h
    · exact h.read

/-- A write places its item at the hot end. -/
theorem write (h : Alike c p) (key : K) (value : V) (expireAt : Int) :
    Alike (c.write key value expireAt) (p.place key ⟨value, expireAt⟩) :=
  h.place ⟨rfl, rfl, rfl, rfl, Int.le_refl _⟩ fun k => c.store.item?_set key k _

/-- Storing under a lifetime that is not negative, once the cache has fixed
    the expiry. -/
theorem store (h : Alike c p) {ttl : Duration} (httl : ttl.isNegative = false) (key : K)
    (value : V) :
    Alike ((c.expiryFrom ttl).2.write key value (c.expiryFrom ttl).1)
      (p.put key value ttl) := by
  obtain ⟨hexpiry, halike⟩ := h.expiryFrom ttl
  rw [hexpiry, PlainCache.put_of_nonnegative httl]
  exact halike.write key value _

/-- To remove a key takes it away on both sides. -/
theorem erase (h : Alike c p) (key : K) : Alike (c.remove [key]).2 (p.erase key) :=
  (h.remove [key]).2

/-- To set a key is the same on both sides, with any lifetime. -/
theorem put (h : Alike c p) (key : K) (value : V) (ttl : Duration) :
    Alike (c.put key value ttl) (p.put key value ttl) := by
  cases httl : ttl.isNegative with
  | true =>
      rw [PlainCache.put_of_negative httl, Cache.put, if_pos httl]
      exact h.erase key
  | false =>
      rw [Cache.put, if_neg (by rw [httl]; exact Bool.false_ne_true)]
      exact h.store httl key value

/-- Writing several entries with an expiry that was fixed before them. -/
theorem foldl_write (h : Alike c p) {ttl : Duration} (httl : ttl.isNegative = false)
    (entries : List (K × V)) :
    Alike
      (entries.foldl
        (fun c entry => c.write entry.1 entry.2 (ExpiringCache.expiryFrom p.now ttl)) c)
      (entries.foldl (fun p entry => p.put entry.1 entry.2 ttl) p) := by
  induction entries generalizing c p with
  | nil => exact h
  | cons entry rest ih =>
      have hstep := h.write entry.1 entry.2 (ExpiringCache.expiryFrom p.now ttl)
      rw [← PlainCache.put_of_nonnegative httl] at hstep
      have hnow : (p.put entry.1 entry.2 ttl).now = p.now := by
        rw [PlainCache.put_of_nonnegative httl]
        rfl
      have hrest := ih hstep
      rw [hnow] at hrest
      exact hrest

/-- Several entries get the expiry that each of them would get alone. -/
theorem putAll (h : Alike c p) (entries : List (K × V)) (ttl : Duration) :
    Alike (c.putAll entries ttl)
      (entries.foldl (fun p entry => p.put entry.1 entry.2 ttl) p) := by
  cases httl : ttl.isNegative with
  | true =>
      rw [PlainCache.foldl_put_of_negative httl, Cache.putAll, if_pos httl]
      exact (h.remove _).2
  | false =>
      obtain ⟨hexpiry, halike⟩ := h.expiryFrom ttl
      have hall := halike.foldl_write httl entries
      rw [← hexpiry] at hall
      rw [Cache.putAll, if_neg (by rw [httl]; exact Bool.false_ne_true)]
      exact hall

/-! ## Reading -/

/-- A live key is answered and moves to the hot end; any other key stays
    where it is. -/
theorem get (h : Alike c p) (key : K) :
    (c.get key).1 = (p.get key).1 ∧ Alike (c.get key).2 (p.get key).2 := by
  have hlive := h.read.live? key
  cases hp : p.live? key with
  | none =>
      rw [hp] at hlive
      rw [PlainCache.get_of_dead hp]
      simp only [Cache.get, hlive, true_and]
      exact h.read.counted _
  | some item =>
      rw [hp] at hlive
      rw [PlainCache.get_of_live hp]
      simp only [Cache.get, hlive, true_and]
      refine (h.read.counted c.read.counters.hit).place
        ⟨rfl, rfl, rfl, rfl, Int.le_refl _⟩ fun k => ?_
      split
      · rename_i hk
        rw [← hk]
        exact (Store.live?_eq_some.mp hlive).1
      · rfl

/-- The question whether a key is there is a look-up on both sides. -/
theorem contains (h : Alike c p) (key : K) :
    (c.contains key).1 = (p.get key).1.isSome ∧
      Alike (c.contains key).2 (p.get key).2 :=
  ⟨congrArg Option.isSome (h.get key).1, (h.get key).2⟩

/-- Asking for the time that is left moves nothing. -/
theorem lifetime (h : Alike c p) (key : K) :
    (c.lifetime key).1 = p.span (p.live? key) ∧ Alike (c.lifetime key).2 p := by
  have hlive := h.read.live? key
  cases hp : p.live? key with
  | none =>
      rw [hp] at hlive
      simp only [Cache.lifetime, hlive]
      exact ⟨rfl, h.read⟩
  | some item =>
      rw [hp] at hlive
      simp only [Cache.lifetime, hlive]
      refine ⟨?_, h.read⟩
      rw [← h.read.now]
      rfl

/-! ## Changing -/

/-- A live key gets its value in place of the old one. -/
theorem replace (h : Alike c p) (key : K) (value : V) :
    (c.replace key value).1 =
        ((p.change key fun item => { item with value := value }).1).map Item.value ∧
      Alike (c.replace key value).2
        (p.change key fun item => { item with value := value }).2 := by
  have hlive := h.read.live? key
  cases hp : p.live? key with
  | none =>
      rw [hp] at hlive
      simp only [Cache.replace, Store.replaceValue, hlive, PlainCache.change, hp]
      exact ⟨rfl, h.read⟩
  | some item =>
      rw [hp] at hlive
      simp only [Cache.replace, Store.replaceValue, hlive, PlainCache.change, hp]
      exact ⟨rfl, h.read.place ⟨rfl, rfl, rfl, rfl, Int.le_refl _⟩
        fun k => c.store.item?_set key k _⟩

/-- A live key gets its new expiry, which may be in the past. -/
theorem setLifetime (h : Alike c p) (key : K) (ttl : Duration) :
    (c.setLifetime key ttl).1 =
        (p.change key fun item =>
          { item with expireAt := ExpiringCache.expiryFrom p.now ttl }).2.span
          (p.change key fun item =>
            { item with expireAt := ExpiringCache.expiryFrom p.now ttl }).1 ∧
      Alike (c.setLifetime key ttl).2
        (p.change key fun item =>
          { item with expireAt := ExpiringCache.expiryFrom p.now ttl }).2 := by
  obtain ⟨hexpiry, halike⟩ := h.expiryFrom ttl
  have hread := halike.read
  have hlive := hread.live? key
  cases hp : p.live? key with
  | none =>
      rw [hp] at hlive
      simp only [Cache.setLifetime, Store.replaceExpiry, hlive, PlainCache.change, hp]
      exact ⟨rfl, hread⟩
  | some item =>
      rw [hp] at hlive
      have hleft := (PlainCache.live?_eq_some.mp hp).2
      rw [hread.now] at hleft
      have hspan := Item.remainingAt_ne_absent hleft
      simp only [Cache.setLifetime, Store.replaceExpiry, hlive, PlainCache.change, hp,
        if_neg hspan, hexpiry]
      refine ⟨?_, hread.place ⟨rfl, rfl, rfl, rfl, Int.le_refl _⟩
        fun k => (c.expiryFrom ttl).2.store.item?_set key k _⟩
      rw [← hread.now]
      rfl

end Alike

end ExpiringCache
