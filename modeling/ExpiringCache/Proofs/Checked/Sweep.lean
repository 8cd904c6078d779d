import ExpiringCache.Proofs.Changes.Session
import ExpiringCache.Proofs.Checked.Cache
import ExpiringCache.Proofs.Expiry.Bucket
import ExpiringCache.Proofs.Janitor.Count

/-! # Sweeps without overflow

    The labels of buckets stop at the ends of the range, but the labels that
    a sweep visits are got by going back from the present one without a stop.
    They stay within a word because the clock has not gone below zero, and so
    the present label lies above zero.

    A sweep counts the entries that it deletes.  There are no more of them
    than there were entries: each that is counted leaves one entry less. -/

namespace ExpiringCache

/-! ## Labels of buckets -/

/-- The checked `bucketOf`: the quotient is a word; sum and product stop at
    the ends of the range. -/
def checkedBucketOf (instant : Int) : Option Int := do
  let second ← Word.checked ((Word.add instant (bucketWidth - 1)).ediv bucketWidth)
  some (Word.mul (Word.add second 1) bucketWidth)

/-- The label of any instant can be calculated: its steps stop at the ends of
    the range. -/
theorem checkedBucketOf_eq (instant : Int) : checkedBucketOf instant = some (bucketOf instant) := by
  have hsecond : Word.Fits ((Word.add instant (bucketWidth - 1)).ediv bucketWidth) := by
    obtain ⟨hlow, hhigh⟩ := Word.fits_clamp (instant + (bucketWidth - 1))
    show Word.least ≤ Word.add instant (bucketWidth - 1) / 1000 ∧
      Word.add instant (bucketWidth - 1) / 1000 ≤ Word.greatest
    rw [Word.add]
    rw [Word.least] at hlow ⊢
    rw [Word.greatest] at hhigh ⊢
    omega
  rw [checkedBucketOf, Word.checked_of_fits hsecond]
  rfl

/-- The label of an instant that is not before the epoch is positive, and a
    word. -/
theorem bucketOf_bounds {instant : Int} (h : 0 ≤ instant) :
    1000 ≤ bucketOf instant ∧ bucketOf instant ≤ Word.greatest := by
  have hmono := bucketOf_mono h
  have hzero : bucketOf 0 = 1000 := by decide
  rw [hzero] at hmono
  exact ⟨hmono, (Word.fits_clamp _).2⟩

/-- Going back from such a label, as far as the scan window reaches. -/
theorem checked_label {instant : Int} (h : 0 ≤ instant) {offset : Int} (hlow : 0 ≤ offset)
    (hhigh : offset ≤ Int.ofNat scanWindow) :
    Word.checked (offset * bucketWidth) = some (offset * bucketWidth) ∧
      Word.checked (bucketOf instant - offset * bucketWidth) =
        some (bucketOf instant - offset * bucketWidth) := by
  obtain ⟨hpos, hword⟩ := bucketOf_bounds h
  have hwindow : offset ≤ 5 := hhigh
  rw [Word.greatest] at hword
  constructor
  · refine Word.checked_of_fits ?_
    simp only [Word.Fits, Word.least, Word.greatest, bucketWidth]
    omega
  · refine Word.checked_of_fits ?_
    simp only [Word.Fits, Word.least, Word.greatest, bucketWidth]
    omega

/-- The offsets of a scan lie within its window. -/
theorem scanOffsets_bounds {offset : Int} (h : offset ∈ Cache.scanOffsets) :
    0 ≤ offset ∧ offset ≤ Int.ofNat scanWindow := by
  obtain ⟨i, hi, rfl⟩ := List.mem_map.mp h
  rw [List.mem_range] at hi
  exact ⟨Int.natCast_nonneg _, Int.ofNat_le.mpr hi⟩

variable {K V : Type} [DecidableEq K]

/-! ## Entries that are left -/

namespace Cache

variable {now : Int}

/-- Each key that is counted leaves one entry less. -/
def Counts (c : Cache K V) (o : Bool × Cache K V) : Prop := o.2.size + o.1.toNat ≤ c.size

omit [DecidableEq K] in
/-- What sheds an entry for each one it counts counts no more than there were. -/
theorem Sheds.counts {c : Cache K V} {o : Bool × Cache K V} (h : c.Sheds o.1.toNat o.2) :
    c.Counts o :=
  Nat.le_of_eq h.size

/-! ## The steps of a sweep -/

/-- The checked `collect`. -/
def checkedCollect (c : Cache K V) (now : Int) (key : K) : Option (Bool × Cache K V) :=
  match c.store.deleteExpired now key with
  | (false, _) => some (false, c)
  | (true, store) => do
      let recency ← c.recency.mapM fun recency => recency.checkedRemove key
      some (true, { c with store := store, recency := recency })

/-- The checked `handleNotice`. -/
def checkedHandleNotice (c : Cache K V) (now oldest : Int) (notice : Notice K) :
    Option (Bool × Cache K V) :=
  match c.store.item? notice.key with
  | none => do
      let recency ← c.recency.mapM fun recency => recency.checkedRemove notice.key
      some (false,
        { c with
          recency := recency
          index := c.index.unindex notice.key })
  | some item =>
      if item.isExpiredAt now then do
        let (deleted, c) ← c.checkedCollect now notice.key
        some (deleted, { c with index := c.index.unindex notice.key })
      else do
        let noticed ← checkedBucketOf notice.expireAt
        let bucket ← if noticed < oldest then checkedBucketOf item.expireAt else some noticed
        some (false, { c with index := (c.index.reindex notice.key bucket).2 })

/-- The checked `visit`. -/
def checkedVisit (c : Cache K V) (now bucket : Int) (key : K) : Option (Bool × Cache K V) :=
  match c.store.live? now key with
  | some item =>
      if c.index.bucket key = bucket then do
        let bucket ← checkedBucketOf item.expireAt
        some (false, { c with index := (c.index.reindex key bucket).2 })
      else some (false, c)
  | none => do
      let (deleted, c) ← c.checkedCollect now key
      if deleted || !c.store.contains key then
        some (deleted, { c with index := (c.index.unassignFrom key bucket).2 })
      else some (deleted, c)

/-- The checked `tally`, where the count goes on from one that is given and
    stays within `limit`. -/
def checkedTally {α : Type} (limit : Nat) (step : Cache K V → α → Option (Bool × Cache K V)) :
    List α → Nat × Cache K V → Option (Nat × Cache K V)
  | [], counted => some counted
  | a :: rest, (count, c) => do
      let (counts, c) ← step c a
      let count ← if counts then Word.checkedSucc count limit else some count
      checkedTally limit step rest (count, c)

namespace Sound

variable {c : Cache K V}

/-- No calculation fails as an expired key is collected. -/
theorem checkedCollect_eq (h : c.Sound) (key : K) :
    c.checkedCollect now key = some (c.collect now key) := by
  have hrecency := h.ranked.mapM_eq fun _ _ hlists => hlists.checkedRemove_eq key
  rw [checkedCollect, collect]
  generalize c.store.deleteExpired now key = deleted
  obtain ⟨expired, store⟩ := deleted
  cases expired with
  | false => rfl
  | true => simp only [hrecency, Option.bind_eq_bind, Option.bind_some]

/-- No calculation fails as a notice is handled. -/
theorem checkedHandleNotice_eq (h : c.Sound) (oldest : Int) (notice : Notice K) :
    c.checkedHandleNotice now oldest notice = some (c.handleNotice now oldest notice) := by
  cases hitem : c.store.item? notice.key with
  | none =>
      have hrecency := h.ranked.mapM_eq fun _ _ hlists => hlists.checkedRemove_eq notice.key
      simp only [checkedHandleNotice, handleNotice, hitem, hrecency, Option.bind_eq_bind,
        Option.bind_some]
  | some item =>
      simp only [checkedHandleNotice, handleNotice, hitem, h.checkedCollect_eq,
        checkedBucketOf_eq, Option.bind_eq_bind, Option.bind_some]
      split
      · rfl
      · split
        · rfl
        · rfl

/-- No calculation fails as a key of a bucket is visited. -/
theorem checkedVisit_eq (h : c.Sound) (bucket : Int) (key : K) :
    c.checkedVisit now bucket key = some (c.visit now bucket key) := by
  cases hlive : c.store.live? now key with
  | some item =>
      simp only [checkedVisit, visit, hlive, checkedBucketOf_eq, Option.bind_eq_bind,
        Option.bind_some]
      split
      · rfl
      · rfl
  | none =>
      simp only [checkedVisit, visit, hlive, h.checkedCollect_eq, Option.bind_eq_bind,
        Option.bind_some]
      split
      · rfl
      · rfl

end Sound

/-! ## Steps that are counted -/

/-- Steps that can be carried out on a sound cache, keep it sound, and leave
    one entry less for each that they count. -/
structure Tallies {α : Type} (checkedStep : Cache K V → α → Option (Bool × Cache K V))
    (step : Cache K V → α → Bool × Cache K V) : Prop where
  eq : ∀ {c : Cache K V} (a : α), c.Sound → checkedStep c a = some (step c a)
  changes : ∀ (c : Cache K V) (a : α), Changes (fun _ => Ranged) c (step c a).2
  counts : ∀ (c : Cache K V) (a : α), c.Counts (step c a)

/-- Notices are tallied without a failure. -/
theorem tallies_handleNotice (now oldest : Int) :
    Tallies (fun (c : Cache K V) notice => c.checkedHandleNotice now oldest notice)
      fun c notice => c.handleNotice now oldest notice where
  eq := fun notice h => h.checkedHandleNotice_eq oldest notice
  changes := fun c notice => (erodes_handleNotice c now oldest notice).changes
  counts := fun c notice => (erodes_handleNotice c now oldest notice).sheds.counts

/-- The keys of a bucket are tallied without a failure. -/
theorem tallies_visit (now bucket : Int) :
    Tallies (fun (c : Cache K V) key => c.checkedVisit now bucket key)
      fun c key => c.visit now bucket key where
  eq := fun key h => h.checkedVisit_eq bucket key
  changes := fun c key => (erodes_visit c now bucket key).changes
  counts := fun c key => (erodes_visit c now bucket key).sheds.counts

namespace Tallies

variable {α : Type} {checkedStep : Cache K V → α → Option (Bool × Cache K V)}
  {step : Cache K V → α → Bool × Cache K V}

/-- The count goes on within its limit, which is never less than what was
    counted and what is left. -/
theorem checked_eq (h : Tallies checkedStep step) {c : Cache K V} (hc : c.Sound) (as : List α)
    {count limit : Nat} (hlimit : count + c.size ≤ limit) :
    checkedTally limit checkedStep as (count, c) =
      some (count + (tally step as c).1, (tally step as c).2) := by
  induction as generalizing c count with
  | nil => rfl
  | cons a rest ih =>
      have hfirst : (step c a).2.size + (step c a).1.toNat ≤ c.size := h.counts c a
      have hsound := hc.changes (h.changes c a)
      simp only [checkedTally, tally, h.eq a hc, Option.bind_eq_bind, Option.bind_some]
      cases hcounted : (step c a).1 with
      | false =>
          rw [hcounted, Bool.toNat_false] at hfirst
          exact ih hsound (by omega)
      | true =>
          rw [hcounted, Bool.toNat_true] at hfirst
          have hrest := ih hsound (show count + 1 + (step c a).2.size ≤ limit by omega)
          simp only [if_true, Word.checkedSucc_of_lt (show count < limit by omega),
            Option.bind_some, hrest]
          rw [Nat.add_right_comm, Nat.add_assoc]

end Tallies

/-! ## Sweeps -/

/-- The checked `scan`, where the count goes on. -/
def checkedScan (limit : Nat) (order : List K → List K) (now bucket : Int) :
    Nat × Cache K V → Option (Nat × Cache K V)
  | (count, c) =>
      match c.index.deleteBucket bucket with
      | (none, _) => some (count, c)
      | (some keys, index) =>
          checkedTally limit (fun c key => c.checkedVisit now bucket key) (order keys)
            (count, { c with index := index })

/-- The checked `scanAll`, where the count goes on: the labels are words. -/
def checkedScanAll (limit : Nat) (order : List K → List K) (now current : Int) :
    List Int → Nat × Cache K V → Option (Nat × Cache K V)
  | [], counted => some counted
  | offset :: rest, counted => do
      let back ← Word.checked (offset * bucketWidth)
      let bucket ← Word.checked (current - back)
      let counted ← checkedScan limit order now bucket counted
      checkedScanAll limit order now current rest counted

/-- The checked `sweepWith`: the notices are counted, and the entries that
    are deleted. -/
def checkedSweepWith (order : List K → List K) (c : Cache K V) (now : Int) :
    Option (SweepReport × Cache K V) := do
  let current ← checkedBucketOf now
  let back ← Word.checked (Int.ofNat scanWindow * bucketWidth)
  let oldest ← Word.checked (current - back)
  let (notices, queue) := c.notices.drain
  let worked ← notices.foldlM (fun count _ => Word.checkedSucc count notices.length) 0
  let noticed ← checkedTally c.size (fun c notice => c.checkedHandleNotice now oldest notice)
    notices (0, { c with notices := queue })
  let (expired, swept) ← checkedScanAll c.size order now current scanOffsets noticed
  some (⟨worked, expired⟩, { swept with counters := swept.counters.swept expired })

/-- The checked `swept`. -/
def checkedSwept (c : Cache K V) (order : VisitingOrder K) : Option (Cache K V) := do
  let (_, c) ← c.read.checkedSweepWith order.arrange c.now
  some c

/-- As many elements as a list has can be counted. -/
theorem foldlM_checkedSucc {α : Type} (as : List α) {count limit : Nat}
    (h : count + as.length ≤ limit) :
    as.foldlM (fun count _ => Word.checkedSucc count limit) count = some (count + as.length) := by
  induction as generalizing count with
  | nil => rfl
  | cons a rest ih =>
      rw [List.length_cons] at h ⊢
      rw [List.foldlM_cons, Word.checkedSucc_of_lt (by omega)]
      exact (ih (by omega)).trans (congrArg some (by omega))

theorem size_scan (order : List K → List K) (c : Cache K V) (now bucket : Int) :
    (c.scan order now bucket).2.size + (c.scan order now bucket).1 ≤ c.size :=
  Nat.le_of_eq (erodes_scan order c now bucket).sheds.size

namespace Sound

variable {c : Cache K V}

/-- The count of one bucket stays within the limit if there is room for all
    entries that are left. -/
theorem checkedScan_eq (h : c.Sound) (order : List K → List K) (now bucket : Int)
    {count limit : Nat} (hlimit : count + c.size ≤ limit) :
    checkedScan limit order now bucket (count, c) =
      some (count + (c.scan order now bucket).1, (c.scan order now bucket).2) := by
  rw [checkedScan, scan]
  generalize c.index.deleteBucket bucket = found
  obtain ⟨keys, index⟩ := found
  cases keys with
  | none => rfl
  | some keys =>
      have hindexed : Sound { c with index := index } := h.changes (changes_index c index)
      exact (tallies_visit now bucket).checked_eq hindexed (order keys) hlimit

/-- The count of all buckets stays within the limit, and so do their labels. -/
theorem checkedScanAll_eq (h : c.Sound) (order : List K → List K) {now : Int} (hnow : 0 ≤ now)
    {offsets : List Int}
    (hoffsets : ∀ offset ∈ offsets, 0 ≤ offset ∧ offset ≤ Int.ofNat scanWindow)
    {count limit : Nat} (hlimit : count + c.size ≤ limit) :
    checkedScanAll limit order now (bucketOf now) offsets (count, c) =
      some (count + (scanAll order now (bucketOf now) offsets c).1,
        (scanAll order now (bucketOf now) offsets c).2) := by
  induction offsets generalizing c count with
  | nil => rfl
  | cons offset rest ih =>
      obtain ⟨hlow, hhigh⟩ := hoffsets offset List.mem_cons_self
      obtain ⟨hback, hlabel⟩ := checked_label hnow hlow hhigh
      have hsize := c.size_scan order now (bucketOf now - offset * bucketWidth)
      have hscanned : (c.scan order now (bucketOf now - offset * bucketWidth)).2.Sound :=
        h.changes (erodes_scan order c now _).changes
      have hfirst := h.checkedScan_eq order now (bucketOf now - offset * bucketWidth) hlimit
      simp only [checkedScanAll, scanAll, hback, hlabel, hfirst, Option.bind_eq_bind,
        Option.bind_some]
      generalize c.scan order now (bucketOf now - offset * bucketWidth) = scanned
        at hsize hscanned
      rw [ih hscanned (fun o ho => hoffsets o (List.mem_cons_of_mem _ ho)) (by omega),
        Nat.add_assoc]

/-- Working off the notices comes to a sound cache, and counts within the
    entries that there were. -/
theorem checkedNoticed_eq (h : c.Sound) (now : Int) :
    ∃ noticed : Nat × Cache K V,
      checkedTally c.size (fun c notice => c.checkedHandleNotice now (oldestBucket now) notice)
        c.notices.waiting (0, { c with notices := .empty }) = some noticed ∧
      tally (fun c notice => c.handleNotice now (oldestBucket now) notice) c.notices.waiting
        { c with notices := .empty } = noticed ∧
      noticed.2.Sound ∧ noticed.1 + noticed.2.size ≤ c.size := by
  have htallies : Tallies (K := K) (V := V) _ _ := tallies_handleNotice now (oldestBucket now)
  have hchecked := htallies.checked_eq (h.noted .empty) c.notices.waiting
    (show 0 + c.size ≤ c.size by omega)
  have hsize := (erodes_tally
    (fun c notice => erodes_handleNotice c now (oldestBucket now) notice)
    c.notices.waiting { c with notices := .empty }).sheds.size
  have hsound : (c.noticed now).Sound := h.changes (changes_noticed c)
  rw [Nat.zero_add] at hchecked
  refine ⟨_, hchecked, rfl, hsound, ?_⟩
  rw [Nat.add_comm]
  exact Nat.le_of_eq hsize

/-- No sweep leaves the range of a word. -/
theorem checkedSweepWith_eq (h : c.Sound) (order : List K → List K) {now : Int}
    (hnow : 0 ≤ now) : c.checkedSweepWith order now = some (c.sweepWith order now) := by
  have hwindow : 0 ≤ Int.ofNat scanWindow := by decide
  obtain ⟨hback, holdest⟩ := checked_label hnow hwindow (Int.le_refl _)
  obtain ⟨noticed, hchecked, htally, hsound, hsize⟩ := h.checkedNoticed_eq now
  have hworked := foldlM_checkedSucc c.notices.waiting (Nat.le_of_eq (Nat.zero_add _))
  have hscanned := hsound.checkedScanAll_eq order hnow (fun _ => scanOffsets_bounds) hsize
  rw [oldestBucket] at hchecked htally
  simp only [checkedSweepWith, sweepWith, checkedBucketOf_eq, hback, holdest, NoticeQueue.drain,
    hworked, hchecked, htally, Option.bind_eq_bind, Option.bind_some]
  -- the scan is not to be carried out on the offsets that there happen to be
  generalize scanOffsets = offsets at hscanned
  simp only [hscanned, Option.bind_some, Nat.zero_add]

/-- No calculation fails in a sweep of a sound cache. -/
theorem checkedSwept_eq (h : c.Sound) (order : VisitingOrder K) :
    c.checkedSwept order = some (c.swept order) := by
  rw [checkedSwept, h.read.checkedSweepWith_eq order.arrange h.now_nonneg, swept]
  generalize c.read.sweepWith order.arrange c.now = swept
  rfl

end Sound

end Cache

end ExpiringCache
