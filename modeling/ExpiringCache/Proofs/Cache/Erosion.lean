import ExpiringCache.Proofs.Cache.Effects

/-! # What a sweep is made of

    A sweep follows the notices and the index, whatever these say.  To the
    rest of the cache it does two things only: it deletes an item that is
    expired, which it counts, and it takes a key that has no item out of the
    recency list.  What both of them keep is kept by a sweep, so whoever does
    not care for the index need not follow the sweep. -/

namespace ExpiringCache

variable {K V : Type} [DecidableEq K]

theorem Store.item?_of_gone {s : Store K V} {key : K} (hgone : s.item? key = none) (k : K) :
    s.item? k = if key = k then none else s.item? k := by
  split
  · rename_i hk
    rw [← hk]
    exact hgone
  · rfl

namespace Cache

/-- Steps of a sweep at `now` have led from the first cache to the second, and
    `n` items have been deleted by them. -/
inductive Erodes (now : Int) : Cache K V → Nat → Cache K V → Prop where
  -- the index is set right, or what is taken to be right
  | reindex (c : Cache K V) (index : ExpiryIndex K) : Erodes now c 0 { c with index := index }
  -- a key that has no item leaves the recency list
  | unlink (c : Cache K V) (key : K) (hgone : c.store.item? key = none) :
      Erodes now c 0
        { c with recency := c.recency.map fun recency => recency.remove key }
  -- an item that is expired is deleted
  | expire (c : Cache K V) (key : K) {item : Item V} (hitem : c.store.item? key = some item)
      (hexpired : item.isExpiredAt now = true) :
      Erodes now c 1
        { c with
          store := (c.store.delete key).2
          recency := c.recency.map fun recency => recency.remove key }
  | trans {c c' c'' : Cache K V} {m n : Nat} (h : Erodes now c m c') (h' : Erodes now c' n c'') :
      Erodes now c (m + n) c''

theorem Erodes.refl {now : Int} (c : Cache K V) : c.Erodes now 0 c := .reindex c c.index

/-- What follows in the index is not counted. -/
theorem Erodes.thenReindex {now : Int} {c c' : Cache K V} {n : Nat} (h : c.Erodes now n c')
    (index : ExpiryIndex K) : c.Erodes now n { c' with index := index } :=
  h.trans (.reindex c' index)

/-! ## The steps of a sweep -/

/-- To collect a key deletes it if it is expired, and counts it then. -/
theorem erodes_collect (c : Cache K V) (now : Int) (key : K) :
    c.Erodes now (c.collect now key).1.toNat (c.collect now key).2 := by
  rw [collect_eq]
  cases hitem : c.store.item? key with
  | none => exact .refl c
  | some item =>
      split
      · rename_i hexpired
        exact .expire c key hitem hexpired
      · exact .refl c

/-- A notice leads to one deletion at most. -/
theorem erodes_handleNotice (c : Cache K V) (now oldest : Int) (notice : Notice K) :
    c.Erodes now (c.handleNotice now oldest notice).1.toNat
      (c.handleNotice now oldest notice).2 := by
  cases hitem : c.store.item? notice.key with
  | none =>
      simp only [handleNotice, hitem]
      exact (Erodes.unlink c notice.key hitem).thenReindex _
  | some item =>
      simp only [handleNotice, hitem]
      split
      · exact (erodes_collect c now notice.key).thenReindex _
      · exact .reindex c _

/-- A visit leads to one deletion at most. -/
theorem erodes_visit (c : Cache K V) (now bucket : Int) (key : K) :
    c.Erodes now (c.visit now bucket key).1.toNat (c.visit now bucket key).2 := by
  cases hlive : c.store.live? now key with
  | some item =>
      simp only [visit, hlive]
      split
      · exact .reindex c _
      · exact .refl c
  | none =>
      simp only [visit, hlive]
      split
      · exact (erodes_collect c now key).thenReindex _
      · exact erodes_collect c now key

/-- Steps that count what they delete count it all together. -/
theorem erodes_tally {α : Type} {now : Int} {step : Cache K V → α → Bool × Cache K V}
    (hstep : ∀ (c : Cache K V) a, c.Erodes now (step c a).1.toNat (step c a).2) (as : List α)
    (c : Cache K V) : c.Erodes now (tally step as c).1 (tally step as c).2 := by
  induction as generalizing c with
  | nil => exact .refl c
  | cons a rest ih =>
      have hcount : (tally step (a :: rest) c).1 =
          (step c a).1.toNat + (tally step rest (step c a).2).1 := by
        show (if (step c a).1 then _ else _) = _
        cases (step c a).1 with
        | true => exact Nat.add_comm _ 1
        | false => exact (Nat.zero_add _).symm
      rw [hcount]
      exact (hstep c a).trans (ih (step c a).2)

/-- The deletions of one bucket are those of its keys. -/
theorem erodes_scan (order : List K → List K) (c : Cache K V) (now bucket : Int) :
    c.Erodes now (c.scan order now bucket).1 (c.scan order now bucket).2 := by
  cases hdelete : c.index.deleteBucket bucket with
  | mk keys index => cases keys with
    | none =>
        simp only [scan, hdelete]
        exact .refl c
    | some keys =>
        simp only [scan, hdelete]
        have hvisited := erodes_tally (fun c key => erodes_visit c now bucket key) (order keys)
          { c with index := index }
        rw [← Nat.zero_add (tally _ (order keys) { c with index := index }).1]
        exact (Erodes.reindex c index).trans hvisited

/-- The deletions of all buckets are those of each. -/
theorem erodes_scanAll (order : List K → List K) (now current : Int) (offsets : List Int)
    (c : Cache K V) :
    c.Erodes now (scanAll order now current offsets c).1
      (scanAll order now current offsets c).2 := by
  induction offsets generalizing c with
  | nil => exact .refl c
  | cons offset rest ih => exact (erodes_scan order c now _).trans (ih _)

/-! ## Whole sweeps -/

/-- The oldest bucket that a sweep at `now` visits. -/
def oldestBucket (now : Int) : Int := bucketOf now - Int.ofNat scanWindow * bucketWidth

/-- The cache in the middle of a sweep: the notices have been worked off, and
    no bucket has been visited yet. -/
def noticed (c : Cache K V) (now : Int) : Cache K V :=
  (tally (fun c notice => c.handleNotice now (oldestBucket now) notice) c.notices.waiting
    { c with notices := .empty }).2

/-- Handling the notices deletes nothing but what is expired. -/
theorem erodes_noticed (c : Cache K V) (now : Int) :
    ∃ n, Erodes now { c with notices := .empty } n (c.noticed now) :=
  ⟨_, erodes_tally (fun c notice => erodes_handleNotice c now (oldestBucket now) notice)
    c.notices.waiting { c with notices := .empty }⟩

/-- A sweep works off the notices and then visits the buckets; in the end it
    counts what it deleted. -/
theorem sweepWith_eq (order : List K → List K) (c : Cache K V) (now : Int) :
    ∃ counters, (c.sweepWith order now).2 =
      { (scanAll order now (bucketOf now) scanOffsets (c.noticed now)).2 with
        counters := counters } := by
  simp only [sweepWith, noticed, oldestBucket]
  -- the scan is not to be carried out on the offsets that there happen to be
  generalize scanOffsets = offsets
  generalize bucketOf now = current
  exact ⟨_, rfl⟩

/-- A sweep leaves the index as its buckets do, after the notices. -/
theorem index_sweepWith (order : List K → List K) (c : Cache K V) (now : Int) :
    (c.sweepWith order now).2.index =
      (scanAll order now (bucketOf now) scanOffsets (c.noticed now)).2.index := by
  obtain ⟨counters, heq⟩ := sweepWith_eq order c now
  rw [heq]

/-- A sweep takes the notices that waited.  It reports how many they were and
    how many items it has deleted, and the counter goes up by as many. -/
theorem erodes_sweepWith (order : List K → List K) (c : Cache K V) (now : Int) :
    ∃ n c', Erodes now { c with notices := .empty } n c' ∧ c.sweepWith order now =
      (⟨c.notices.waiting.length, n⟩, { c' with counters := c'.counters.swept n }) := by
  have hnoticed := erodes_tally
    (fun c notice => erodes_handleNotice c now (oldestBucket now) notice)
    c.notices.waiting { c with notices := .empty }
  refine ⟨_, _, hnoticed.trans (erodes_scanAll order now (bucketOf now) scanOffsets _), ?_⟩
  simp only [sweepWith, oldestBucket]
  -- again, not on the offsets that there happen to be
  generalize scanOffsets = offsets
  generalize bucketOf now = current
  rfl

/-- The parts of a cache that a sweep leaves alone once it has taken the
    notices. -/
def idle (c : Cache K V) : NoticeQueue K × Clock := (c.notices, c.clock)

theorem Erodes.idle_eq {now : Int} {c c' : Cache K V} {n : Nat} (h : c.Erodes now n c') :
    c'.idle = c.idle := by
  induction h with
  | reindex c index => rfl
  | unlink c key hgone => rfl
  | expire c key hitem hexpired => rfl
  | trans _ _ ih ih' => exact ih'.trans ih

/-- After a sweep no notice waits, and the clock is as it was. -/
theorem idle_sweepWith (order : List K → List K) (c : Cache K V) (now : Int) :
    (c.sweepWith order now).2.idle = (.empty, c.clock) := by
  obtain ⟨n, c', herodes, heq⟩ := erodes_sweepWith order c now
  rw [heq]
  exact herodes.idle_eq

end Cache

end ExpiringCache
