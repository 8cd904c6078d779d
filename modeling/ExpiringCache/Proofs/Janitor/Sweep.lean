import ExpiringCache.Proofs.Janitor.Filed

/-! # What a sweep deletes

    Once the notices have been worked off, the index is right about every
    key.  From then on a sweep finds exactly the keys whose buckets it
    visits: all keys of such a bucket are expired, so each visit deletes an
    item and ends an assignment, and none ever files a key anew.

    So a sweep deletes the expired items of which a notice had been left, and
    the items whose buckets lie in its window.  It leaves behind a cache that
    is `Settled`. -/

namespace ExpiringCache.Cache

variable {K V : Type} [DecidableEq K]

/-- Nothing is left to be told: no notice waits, the assigned keys are those
    with an item, each of them is assigned to the bucket of its expiry, and
    each bucket lists the keys that are assigned to it. -/
structure Settled (c : Cache K V) : Prop where
  quiet : c.notices.waiting = []
  assigned : ∀ key, c.index.assigned.get? key =
    (c.store.item? key).map fun item => bucketOf item.expireAt
  listed : ∀ bucket key, key ∈ c.index.listed bucket ↔
    c.index.assigned.get? key = some bucket

/-- The buckets that a sweep at `now` visits. -/
def window (now : Int) : List Int :=
  scanOffsets.map fun offset => bucketOf now - offset * bucketWidth

/-- A bucket is visited if it elapsed during the scan window. -/
theorem mem_window {now bucket : Int} :
    bucket ∈ window now ↔
      bucket = bucketOf now - 1000 ∨ bucket = bucketOf now - 2000 ∨
        bucket = bucketOf now - 3000 ∨ bucket = bucketOf now - 4000 ∨
          bucket = bucketOf now - 5000 := by
  have hoffsets : scanOffsets = [1, 2, 3, 4, 5] := by decide
  rw [window, hoffsets]
  simp [bucketWidth]

/-- What is in a visited bucket is expired. -/
theorem le_of_mem_window {now expireAt : Int} (h : bucketOf expireAt ∈ window now) :
    expireAt ≤ now := by
  rw [mem_window] at h
  refine le_of_bucketOf_lt ?_
  omega

/-! ## Visiting the keys of a bucket -/

/-- In the middle of a visit of `bucket`, which is deleted: exactly the keys
    `todo` are still assigned to it, and everything else is in order. -/
structure Visiting (bucket : Int) (todo : List K) (c : Cache K V) : Prop where
  sides : ∀ b key, key ∈ c.index.listed b ↔
    b ≠ bucket ∧ c.index.assigned.get? key = some b
  isBucket : ∀ key, c.index.assigned.get? key ≠ some noBucket
  settled : ∀ key, c.index.assigned.get? key = (c.expiry? key).map bucketOf
  todo : ∀ key, key ∈ todo ↔ c.index.assigned.get? key = some bucket

variable {c : Cache K V} {now bucket : Int}

/-- Visiting an expired key deletes its item and ends its assignment. -/
theorem visit_eq {key : K} {item : Item V} (hitem : c.store.item? key = some item)
    (hexp : item.isExpiredAt now = true)
    (hassigned : c.index.assigned.get? key = some bucket) :
    (c.visit now bucket key).2 =
      { (c.collect now key).2 with index := (c.index.unassign key).2 } := by
  have hdead : c.store.live? now key = none := by
    rw [Store.live?, hitem]
    simp [Option.filter, hexp]
  have hdeleted : (c.collect now key).1 = true := by
    rw [collect_eq, hitem]
    simp [hexp]
  simp only [Cache.visit, hdead, hdeleted, Bool.true_or, if_true, index_collect,
    ExpiryIndex.unassignFrom, hassigned]

/-- When a key of the bucket has lost both its item and its assignment, the
    others remain to be visited. -/
theorem Visiting.rest {c' : Cache K V} {key : K} {rest : List K}
    (h : c.Visiting bucket (key :: rest)) (hkey : key ∉ rest)
    (hindex : c'.index = (c.index.unassign key).2)
    (hexpiry : ∀ k, c'.expiry? k = if key = k then none else c.expiry? k) :
    Visiting bucket rest c' := by
  have hassigned := (h.todo key).mp List.mem_cons_self
  have hget : ∀ k, c'.index.assigned.get? k =
      if key = k then none else c.index.assigned.get? k := by
    intro k
    rw [hindex]
    exact c.index.assigned.get?_erase key k
  have hlisted : ∀ b, c'.index.listed b = c.index.listed b := by
    intro b
    rw [hindex]
    rfl
  refine ⟨fun b k => ?_, fun k => ?_, fun k => ?_, fun k => ?_⟩
  · -- the bucket of the key is not one of those that still list what is assigned
    rw [hlisted, h.sides, hget]
    by_cases hk : key = k
    · rw [if_pos hk, ← hk, hassigned]
      constructor
      · rintro ⟨hb, e⟩
        exact absurd (Option.some.inj e).symm hb
      · rintro ⟨-, e⟩
        cases e
    · rw [if_neg hk]
  · rw [hget]
    by_cases hk : key = k
    · rw [if_pos hk]
      intro e
      cases e
    · rw [if_neg hk]
      exact h.isBucket k
  · rw [hget, hexpiry]
    by_cases hk : key = k
    · rw [if_pos hk, if_pos hk]
      rfl
    · rw [if_neg hk, if_neg hk]
      exact h.settled k
  · rw [hget]
    by_cases hk : key = k
    · rw [if_pos hk, ← hk]
      constructor
      · intro e
        exact absurd e hkey
      · intro e
        cases e
    · rw [if_neg hk, ← h.todo k, List.mem_cons]
      constructor
      · exact Or.inr
      · rintro (e | e)
        · exact absurd e.symm hk
        · exact e

/-- A key of a visited bucket is expired; its item is deleted and its
    assignment ends. -/
theorem Visiting.visit {key : K} {rest : List K} (h : c.Visiting bucket (key :: rest))
    (hkey : key ∉ rest) (hexpired : ∀ expireAt, bucketOf expireAt = bucket → expireAt ≤ now) :
    Visiting bucket rest (c.visit now bucket key).2 ∧
      ∀ k, (c.visit now bucket key).2.store.item? k =
        if key = k then c.store.live? now k else c.store.item? k := by
  have hassigned := (h.todo key).mp List.mem_cons_self
  have hbucket := h.settled key
  rw [hassigned, expiry?] at hbucket
  cases hitem : c.store.item? key with
  | none =>
      rw [hitem] at hbucket
      cases hbucket
  | some item =>
      rw [hitem] at hbucket
      have hexp : item.isExpiredAt now = true := by
        have hle := hexpired item.expireAt (Option.some.inj hbucket).symm
        simpa [Item.isExpiredAt] using hle
      rw [visit_eq hitem hexp hassigned]
      refine ⟨h.rest hkey rfl fun k => ?_, item?_collect c now key⟩
      show ((c.collect now key).2.store.item? k).map Item.expireAt = _
      rw [item?_collect]
      split
      · rename_i hk
        rw [← hk, Store.live?, hitem]
        simp [Option.filter, hexp]
      · rfl

/-- When all keys of the bucket have been visited, none is assigned to it. -/
theorem Visiting.visitAll {todo : List K} (h : c.Visiting bucket todo)
    (hnodup : todo.Nodup) (hexpired : ∀ expireAt, bucketOf expireAt = bucket → expireAt ≤ now) :
    Visiting bucket [] (tally (fun c key => c.visit now bucket key) todo c).2 ∧
      Keeps (fun key item => key ∈ todo → now < item.expireAt) c
        (tally (fun c key => c.visit now bucket key) todo c).2 := by
  induction todo generalizing c with
  | nil =>
      refine ⟨h, fun key item => ?_⟩
      exact (and_iff_left fun hmem => nomatch hmem).symm
  | cons key rest ih =>
      rw [List.nodup_cons] at hnodup
      obtain ⟨hvisited, hitem⟩ := h.visit hnodup.1 hexpired
      obtain ⟨hdone, hkeeps⟩ := ih hvisited hnodup.2
      refine ⟨hdone, ((keeps_of_live hitem).trans hkeeps).congr fun k item => ?_⟩
      rw [List.mem_cons]
      constructor
      · rintro ⟨hown, hrest⟩ (hk | hk)
        · exact hown hk.symm
        · exact hrest hk
      · intro hlive
        exact ⟨fun hk => hlive (Or.inl hk.symm), fun hk => hlive (Or.inr hk)⟩

/-! ## Visiting buckets -/

variable {order : List K → List K}

/-- A bucket is deleted, and then the keys that it listed are visited; if it
    was not there, there are none. -/
theorem scan_eq (horder : ∀ keys, (order keys).Perm keys) (c : Cache K V) (now bucket : Int) :
    (c.scan order now bucket).2 =
      (tally (fun c key => c.visit now bucket key) (order (c.index.listed bucket))
        { c with index := (c.index.deleteBucket bucket).2 }).2 := by
  cases hget : c.index.members.get? bucket with
  | none =>
      have hlisted : c.index.listed bucket = [] := by
        rw [ExpiryIndex.listed, hget]
        rfl
      rw [hlisted, (horder []).eq_nil]
      simp only [Cache.scan, ExpiryIndex.deleteBucket, hget, tally]
  | some keys =>
      have hlisted : c.index.listed bucket = keys.keys := by
        rw [ExpiryIndex.listed, hget]
        rfl
      rw [hlisted]
      simp only [Cache.scan, ExpiryIndex.deleteBucket, hget]

/-- Deleting a bucket leaves its keys to be visited. -/
theorem Filed.delete (h : c.Filed []) {todo : List K}
    (htodo : ∀ key, key ∈ todo ↔ key ∈ c.index.listed bucket) :
    Visiting bucket todo { c with index := (c.index.deleteBucket bucket).2 } := by
  refine ⟨fun b key => ?_, fun key => ?_, fun key => ?_, fun key => ?_⟩
  · rw [ExpiryIndex.mem_listed_deleteBucket, ExpiryIndex.assigned_deleteBucket, h.sound.sides]
  · rw [ExpiryIndex.assigned_deleteBucket]
    exact h.sound.isBucket key
  · rw [ExpiryIndex.assigned_deleteBucket]
    exact h.settled key rfl
  · rw [ExpiryIndex.assigned_deleteBucket, htodo, h.sound.sides]

/-- When no key is left to be visited, the index is right again. -/
theorem Visiting.filed (h : c.Visiting bucket []) : c.Filed [] := by
  refine ⟨⟨fun b key => ?_, h.isBucket⟩, fun key _ => h.settled key, fun key told expireAt e =>
    nomatch e⟩
  rw [h.sides]
  refine and_iff_right_of_imp fun hkey => ?_
  rintro rfl
  exact nomatch (h.todo key).mpr hkey

/-- A key is listed in the bucket of its expiry. -/
theorem Filed.mem_listed (h : c.Filed []) {key : K} {item : Item V}
    (hitem : c.store.item? key = some item) :
    key ∈ c.index.listed bucket ↔ bucketOf item.expireAt = bucket := by
  rw [h.sound.sides, h.settled key rfl, expiry?, hitem]
  exact Option.some_inj

/-- Visiting a bucket whose keys are all expired deletes the items of these
    keys and leaves the index right about every key. -/
theorem Filed.scan (h : c.Filed []) (horder : ∀ keys, (order keys).Perm keys)
    (hexpired : ∀ expireAt, bucketOf expireAt = bucket → expireAt ≤ now) :
    Filed [] (c.scan order now bucket).2 ∧
      Keeps (fun _ item => bucketOf item.expireAt ≠ bucket) c
        (c.scan order now bucket).2 := by
  have htodo : ∀ key, key ∈ order (c.index.listed bucket) ↔ key ∈ c.index.listed bucket :=
    fun key => (horder _).mem_iff
  obtain ⟨hdone, hkeeps⟩ := (h.delete htodo).visitAll
    ((horder _).nodup_iff.mpr (c.index.nodup_listed bucket)) hexpired
  rw [scan_eq horder]
  refine ⟨hdone.filed, fun key item => (hkeeps key item).trans ?_⟩
  refine and_congr_right fun hitem => ?_
  show (key ∈ order (c.index.listed bucket) → now < item.expireAt) ↔
    bucketOf item.expireAt ≠ bucket
  rw [htodo, h.mem_listed hitem]
  constructor
  · intro hlive hbucket
    have hle := hexpired item.expireAt hbucket
    have hlt := hlive hbucket
    omega
  · intro hne hbucket
    exact absurd hbucket hne

/-- Visiting several such buckets, one after another. -/
theorem Filed.scanAll (h : c.Filed []) (horder : ∀ keys, (order keys).Perm keys)
    {current : Int} (offsets : List Int)
    (hexpired : ∀ expireAt,
      bucketOf expireAt ∈ offsets.map (fun offset => current - offset * bucketWidth) →
        expireAt ≤ now) :
    Filed [] (Cache.scanAll order now current offsets c).2 ∧
      Keeps (fun _ item => bucketOf item.expireAt ∉
          offsets.map fun offset => current - offset * bucketWidth) c
        (Cache.scanAll order now current offsets c).2 := by
  induction offsets generalizing c with
  | nil =>
      refine ⟨h, fun key item => ?_⟩
      exact (and_iff_left List.not_mem_nil).symm
  | cons offset rest ih =>
      have hbucket : ∀ expireAt, bucketOf expireAt = current - offset * bucketWidth →
          expireAt ≤ now :=
        fun expireAt heq => hexpired expireAt (List.mem_cons.mpr (Or.inl heq))
      obtain ⟨hscanned, hfirst⟩ := h.scan horder hbucket
      obtain ⟨hdone, hkeeps⟩ := ih hscanned fun expireAt hmem =>
        hexpired expireAt (List.mem_cons_of_mem _ hmem)
      refine ⟨hdone, (hfirst.trans hkeeps).congr fun key item => ?_⟩
      rw [List.map_cons, List.mem_cons, not_or]

/-! ## Whole sweeps -/

/-- The items that stay when a cache is swept at `now`: those of which a
    notice had been left must be live, and the buckets of the others must
    lie outside the window. -/
def Survives (c : Cache K V) (now : Int) (key : K) (item : Item V) : Prop :=
  ((lastNotice? key c.notices.waiting).isSome = true → now < item.expireAt) ∧
    bucketOf item.expireAt ∉ window now

/-- Where no notice waits and the index is right, all is settled. -/
theorem Filed.toSettled (h : c.Filed []) (hquiet : c.notices.waiting = []) : c.Settled := by
  refine ⟨hquiet, fun key => ?_, h.sound.sides⟩
  rw [h.settled key rfl, expiry?, Option.map_map]
  rfl

/-- A sweep deletes what its notices and its window show to be expired, and
    nothing else; afterwards no notice waits and the index is right. -/
theorem filed_sweepWith (h : c.Filed c.notices.waiting) (hnow : earliestSweep ≤ now)
    (horder : ∀ keys, (order keys).Perm keys) :
    (c.sweepWith order now).2.notices.waiting = [] ∧
      Filed [] (c.sweepWith order now).2 ∧
      Keeps (c.Survives now) c (c.sweepWith order now).2 := by
  obtain ⟨counters, heq⟩ := sweepWith_eq order c now
  have hidle := idle_sweepWith order c now
  obtain ⟨hnoticed, hkeeps⟩ := filed_noticed hnow h
  have hwindow : ∀ expireAt, bucketOf expireAt ∈ window now → expireAt ≤ now :=
    fun _ hmem => le_of_mem_window hmem
  obtain ⟨hdone, hkeeps'⟩ := hnoticed.scanAll horder scanOffsets hwindow
  generalize (c.sweepWith order now).2 = swept at heq hidle ⊢
  generalize (Cache.scanAll order now (bucketOf now) scanOffsets (c.noticed now)).2 = scanned
    at heq hdone hkeeps'
  subst heq
  refine ⟨?_, ⟨hdone.sound, hdone.settled, hdone.told⟩, hkeeps.trans hkeeps'⟩
  exact congrArg (fun parts => NoticeQueue.waiting parts.1) hidle

end ExpiringCache.Cache
