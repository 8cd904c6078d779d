import ExpiringCache.Proofs.Janitor.Combing
import ExpiringCache.Proofs.Janitor.Converges

/-! # The buckets that the index holds

    A bucket comes into the index when a key is filed under it, and then it
    is there for as long as it is not deleted: that its last key has moved
    away, or was taken out, makes no difference.  So which buckets are held
    does not depend on which keys are filed now, but on which ever were.

    In a sweep this means that buckets are opened only while the notices are
    worked off, one at most for each notice of a live key, and deleted only
    by the visits of the window. -/

namespace ExpiringCache

variable {K V : Type}

namespace ExpiryIndex

variable {ix : ExpiryIndex K} {b : Int}

/-- The index has a list of keys for the bucket, be it empty. -/
def Holds (ix : ExpiryIndex K) (b : Int) : Prop := (ix.members.get? b).isSome = true

instance (ix : ExpiryIndex K) (b : Int) : Decidable (ix.Holds b) :=
  inferInstanceAs (Decidable ((ix.members.get? b).isSome = true))

theorem holds_iff_mem_keys : ix.Holds b ↔ b ∈ ix.members.keys := Table.find?_isSome

/-- A bucket that lists a key is held. -/
theorem holds_of_mem_listed {key : K} (h : key ∈ ix.listed b) : ix.Holds b := by
  rw [listed] at h
  rw [Holds]
  cases hget : ix.members.get? b with
  | none =>
      rw [hget] at h
      exact absurd h List.not_mem_nil
  | some keys => rfl

theorem not_holds_empty : ¬(empty : ExpiryIndex K).Holds b := Bool.false_ne_true

/-- Keeping other keys under a bucket opens it if it is not open. -/
theorem holds_insert (ix : ExpiryIndex K) (bucket : Int) (keys : KeySet K) :
    Holds { ix with members := ix.members.insert bucket keys } b ↔ b = bucket ∨ ix.Holds b := by
  rw [Holds, Table.get?_insert]
  split
  · rename_i hb
    exact ⟨fun _ => Or.inl hb.symm, fun _ => rfl⟩
  · rename_i hb
    exact ⟨Or.inr, fun h => h.resolve_left fun e => hb e.symm⟩

/-- A bucket is held until it is deleted. -/
theorem holds_deleteBucket (ix : ExpiryIndex K) (bucket : Int) :
    (ix.deleteBucket bucket).2.Holds b ↔ b ≠ bucket ∧ ix.Holds b := by
  rw [Holds, members_deleteBucket]
  split
  · rename_i hb
    exact ⟨fun h => absurd h Bool.false_ne_true, fun h => absurd hb.symm h.1⟩
  · rename_i hb
    exact ⟨fun h => ⟨fun e => hb e.symm, h⟩, And.right⟩

variable [DecidableEq K]

theorem holds_list (ix : ExpiryIndex K) (bucket : Int) (key : K) :
    (ix.list bucket key).Holds b ↔ b = bucket ∨ ix.Holds b :=
  ix.holds_insert bucket _

/-- Taking a key off the list of a bucket leaves the list there, even when
    it was the last key. -/
theorem holds_unlist (ix : ExpiryIndex K) (bucket : Int) (key : K) :
    (ix.unlist bucket key).Holds b ↔ ix.Holds b := by
  cases hget : ix.members.get? bucket with
  | none => rw [unlist, hget]
  | some keys =>
      rw [unlist, hget, holds_insert]
      refine or_iff_right_of_imp ?_
      rintro rfl
      rw [Holds, hget]
      rfl

theorem holds_unindex (ix : ExpiryIndex K) (key : K) :
    (ix.unindex key).Holds b ↔ ix.Holds b := by
  rw [unindex_eq]
  split
  · rfl
  · exact holds_unlist _ _ key

/-- Filing a key opens its new bucket and closes none, the old one
    included. -/
theorem Sound.holds_reindex (h : ix.Sound) {bucket : Int} (hbucket : bucket ≠ noBucket)
    (key : K) : (ix.reindex key bucket).2.Holds b ↔ b = bucket ∨ ix.Holds b := by
  by_cases hold : ix.bucket key = bucket
  · rw [ExpiryIndex.reindex, if_pos hold]
    refine (or_iff_right_of_imp ?_).symm
    rintro rfl
    exact holds_of_mem_listed (h.mem_listed_iff.mpr ⟨hbucket, hold⟩)
  · rw [reindex_eq ix key hold]
    show Holds (if ix.bucket key = noBucket then ix.list bucket key
      else (ix.list bucket key).unlist (ix.bucket key) key) b ↔ _
    split
    · exact ix.holds_list bucket key
    · rw [holds_unlist, holds_list]

end ExpiryIndex

variable [DecidableEq K]

namespace Cache

variable {c : Cache K V} {now b : Int}

/-! ## Working off the notices -/

/-- The bucket under which a sweep at `now` files the key of a notice; none
    if the key is not live. -/
def filing? (c : Cache K V) (now : Int) (notice : Notice K) : Option Int :=
  (c.store.live? now notice.key).map fun item =>
    if bucketOf notice.expireAt < oldestBucket now then bucketOf item.expireAt
    else bucketOf notice.expireAt

/-- A notice waits whose key will be filed under the bucket. -/
def Files (c : Cache K V) (now b : Int) : Prop :=
  ∃ notice ∈ c.notices.waiting, c.filing? now notice = some b

/-- While the notices are worked off, live keys stay live. -/
theorem filing?_handleNotice (c : Cache K V) (now oldest : Int) (notice other : Notice K) :
    (c.handleNotice now oldest notice).2.filing? now other = c.filing? now other := by
  have hlive : (c.handleNotice now oldest notice).2.store.live? now other.key =
      c.store.live? now other.key := by
    rw [Store.live?, item?_handleNotice]
    split
    · rw [Store.live?, Option.filter_filter]
      simp only [Bool.and_self]
    · rfl
  rw [filing?, filing?, hlive]

/-- What is filed goes to a proper bucket. -/
theorem ne_noBucket_of_filing? {notice : Notice K} (hnow : earliestSweep ≤ now)
    (h : c.filing? now notice = some b) : b ≠ noBucket := by
  rw [filing?, Option.map_eq_some_iff] at h
  obtain ⟨item, hlive, rfl⟩ := h
  have hafter := (Store.live?_eq_some.mp hlive).2
  split
  · refine bucketOf_ne_noBucket ?_
    rw [earliestSweep] at hnow
    omega
  · have hpos := oldestBucket_pos hnow
    omega

/-- Working off a notice opens the bucket that its key is filed under. -/
theorem Filed.holds_handleNotice {notice : Notice K} {rest : List (Notice K)}
    (h : c.Filed (notice :: rest)) (hnow : earliestSweep ≤ now) :
    (c.handleNotice now (oldestBucket now) notice).2.index.Holds b ↔
      c.filing? now notice = some b ∨ c.index.Holds b := by
  cases hlive : c.store.live? now notice.key with
  | none =>
      have hnone : c.filing? now notice = none := by
        rw [filing?, hlive]
        rfl
      rw [index_handleNotice_of_dead (oldestBucket now) hlive, ExpiryIndex.holds_unindex, hnone]
      exact (or_iff_right nofun).symm
  | some item =>
      have hsome : c.filing? now notice =
          some (if bucketOf notice.expireAt < oldestBucket now then bucketOf item.expireAt
            else bucketOf notice.expireAt) := by
        rw [filing?, hlive]
        rfl
      rw [index_handleNotice_of_live (oldestBucket now) hlive,
        h.sound.holds_reindex (ne_noBucket_of_filing? hnow hsome), hsome, Option.some_inj, eq_comm]

/-- So do several notices, each for itself. -/
theorem Filed.holds_tally_handleNotice {pending : List (Notice K)} (h : c.Filed pending)
    (hnow : earliestSweep ≤ now) :
    (tally (fun c notice => c.handleNotice now (oldestBucket now) notice)
        pending c).2.index.Holds b ↔
      (∃ notice ∈ pending, c.filing? now notice = some b) ∨ c.index.Holds b := by
  induction pending generalizing c with
  | nil => exact (or_iff_right fun ⟨notice, hmem, _⟩ => nomatch hmem).symm
  | cons notice rest ih =>
      show (tally _ rest (c.handleNotice now (oldestBucket now) notice).2).2.index.Holds b ↔ _
      rw [ih (h.handleNotice hnow), h.holds_handleNotice hnow, or_left_comm, ← or_assoc]
      simp only [filing?_handleNotice, List.mem_cons, exists_eq_or_imp]

/-! ## Visiting the window -/

/-- An expired key that is visited is not filed anew. -/
theorem Visiting.members_visit {bucket : Int} {key : K} {rest : List K}
    (h : c.Visiting bucket (key :: rest))
    (hexpired : ∀ expireAt, bucketOf expireAt = bucket → expireAt ≤ now) :
    (c.visit now bucket key).2.index.members = c.index.members := by
  rcases index_visit c now bucket key with hmembers | ⟨item, hlive, -⟩
  · exact hmembers
  · -- the key is in the bucket of its expiry, so it cannot be live
    obtain ⟨hitem, hafter⟩ := Store.live?_eq_some.mp hlive
    have hsettled := h.settled key
    rw [(h.todo key).mp List.mem_cons_self, expiry?_eq_some hitem] at hsettled
    have hle := hexpired item.expireAt (Option.some.inj hsettled).symm
    omega

theorem Visiting.members_visits {bucket : Int} {todo : List K} (h : c.Visiting bucket todo)
    (hnodup : todo.Nodup) (hexpired : ∀ expireAt, bucketOf expireAt = bucket → expireAt ≤ now) :
    (tally (fun c key => c.visit now bucket key) todo c).2.index.members = c.index.members := by
  induction todo generalizing c with
  | nil => rfl
  | cons key rest ih =>
      rw [List.nodup_cons] at hnodup
      have hrest := ih (h.visit hnodup.1 hexpired).1 hnodup.2
      exact hrest.trans (h.members_visit hexpired)

variable {order : List K → List K}

/-- Visiting a bucket deletes it, and opens or deletes no other. -/
theorem Filed.holds_scan (h : c.Filed []) (horder : ∀ keys, (order keys).Perm keys)
    {bucket : Int} (hexpired : ∀ expireAt, bucketOf expireAt = bucket → expireAt ≤ now) :
    (c.scan order now bucket).2.index.Holds b ↔ b ≠ bucket ∧ c.index.Holds b := by
  have hvisiting : Visiting bucket (order (c.index.listed bucket))
      { c with index := (c.index.deleteBucket bucket).2 } :=
    h.delete fun key => (horder _).mem_iff
  have hmembers := hvisiting.members_visits
    ((horder _).nodup_iff.mpr (c.index.nodup_listed bucket)) hexpired
  rw [scan_eq horder, ExpiryIndex.Holds, hmembers]
  exact c.index.holds_deleteBucket bucket

theorem Filed.holds_scanAll (h : c.Filed []) (horder : ∀ keys, (order keys).Perm keys)
    {current : Int} (offsets : List Int)
    (hexpired : ∀ expireAt,
      bucketOf expireAt ∈ offsets.map (fun offset => current - offset * bucketWidth) →
        expireAt ≤ now) :
    (Cache.scanAll order now current offsets c).2.index.Holds b ↔
      b ∉ offsets.map (fun offset => current - offset * bucketWidth) ∧ c.index.Holds b := by
  induction offsets generalizing c with
  | nil => exact (and_iff_right List.not_mem_nil).symm
  | cons offset rest ih =>
      have hbucket : ∀ expireAt, bucketOf expireAt = current - offset * bucketWidth →
          expireAt ≤ now :=
        fun expireAt heq => hexpired expireAt (List.mem_cons.mpr (Or.inl heq))
      have hrest := ih (h.scan horder hbucket).1 fun expireAt hmem =>
        hexpired expireAt (List.mem_cons_of_mem _ hmem)
      rw [h.holds_scan horder hbucket] at hrest
      refine hrest.trans ?_
      rw [List.map_cons, List.mem_cons, not_or, and_assoc, and_left_comm]

/-! ## Whole sweeps -/

/-- After a sweep those buckets are held that were held before or under which
    a notice has filed a key, if the sweep did not visit them. -/
theorem holds_swept (h : c.Filed c.notices.waiting) (hnow : earliestSweep ≤ c.now)
    (order : VisitingOrder K) :
    (c.swept order).index.Holds b ↔
      (c.Files c.now b ∨ c.index.Holds b) ∧ b ∉ window c.now := by
  have hfiled : Filed c.read.notices.waiting c.read := h.clock c.clock.read
  have hnoticed : (c.read.noticed c.now).index.Holds b ↔ c.Files c.now b ∨ c.index.Holds b :=
    Filed.holds_tally_handleNotice (c := { c.read with notices := .empty })
      ⟨hfiled.sound, hfiled.settled, hfiled.told⟩ hnow
  have hwindow : ∀ expireAt, bucketOf expireAt ∈ window c.now → expireAt ≤ c.now :=
    fun _ hmem => le_of_mem_window hmem
  have hscanned := (filed_noticed hnow hfiled).1.holds_scanAll (b := b) order.perm scanOffsets
    hwindow
  rw [swept, index_sweepWith, hscanned, hnoticed, and_comm]
  rfl

end Cache

end ExpiringCache
