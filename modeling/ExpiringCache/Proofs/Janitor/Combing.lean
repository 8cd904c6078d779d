import ExpiringCache.Proofs.Janitor.Sweep

/-! # The keys that a sweep comes across

    Nothing is assumed here about the notices and the index: they may
    contradict each other and the store.  Still each step of a sweep does
    what it is meant to do with the keys that it comes across.  Those that
    are expired it deletes, and it leaves every other item alone.

    Two facts make up for what the index does not promise.  A key that is
    expired is never filed anew, so as long as it is stored it stays listed
    where it was, and no step takes it away from a later one.  And a key that
    is filed anew is live, so it goes to a bucket that has not elapsed; a
    bucket of the window that was deleted does not come back. -/

namespace ExpiringCache

variable {K V : Type} [DecidableEq K]

namespace ExpiryIndex

variable {ix : ExpiryIndex K}

/-! ## Other keys of the index -/

/-- Filing a key leaves the others where they are listed. -/
theorem mem_listed_reindex_of_ne (ix : ExpiryIndex K) {key k : K} (hk : k ≠ key)
    (bucket b : Int) : k ∈ (ix.reindex key bucket).2.listed b ↔ k ∈ ix.listed b := by
  by_cases hold : ix.bucket key = bucket
  · rw [reindex, if_pos hold]
  · simp [mem_listed_reindex ix hold, hk]

/-- So does taking it out. -/
theorem mem_listed_unindex_of_ne (ix : ExpiryIndex K) {key k : K} (hk : k ≠ key) (b : Int) :
    k ∈ (ix.unindex key).listed b ↔ k ∈ ix.listed b := by
  simp [mem_listed_unindex, hk]

/-- Ending an assignment lists and deletes nothing. -/
theorem members_unassignFrom (ix : ExpiryIndex K) (key : K) (bucket : Int) :
    (ix.unassignFrom key bucket).2.members = ix.members := by
  rw [unassignFrom]
  split
  · rfl
  · rfl

/-! ## Buckets that are not there -/

omit [DecidableEq K] in
theorem members_deleteBucket (ix : ExpiryIndex K) (bucket b : Int) :
    (ix.deleteBucket bucket).2.members.get? b =
      if bucket = b then none else ix.members.get? b := by
  cases hget : ix.members.get? bucket with
  | none =>
      rw [deleteBucket, hget]
      show ix.members.get? b = _
      split
      · rename_i hb
        rw [← hb]
        exact hget
      · rfl
  | some keys =>
      rw [deleteBucket, hget]
      exact ix.members.get?_erase bucket b

/-- A key is taken off the list of a bucket only where there is such a list. -/
theorem members_unlist_of_none {b : Int} (h : ix.members.get? b = none) (bucket : Int)
    (key : K) : (ix.unlist bucket key).members.get? b = none := by
  cases hget : ix.members.get? bucket with
  | none =>
      rw [unlist, hget]
      exact h
  | some keys =>
      have hb : bucket ≠ b := by
        rintro rfl
        rw [h] at hget
        cases hget
      rw [unlist, hget]
      show (ix.members.insert bucket (keys.erase key)).get? b = none
      rw [Table.get?_insert, if_neg hb]
      exact h

/-- Filing a key creates no bucket but the one that it is filed under. -/
theorem members_reindex_of_none {b bucket : Int} (h : ix.members.get? b = none)
    (hb : bucket ≠ b) (key : K) : (ix.reindex key bucket).2.members.get? b = none := by
  by_cases hold : ix.bucket key = bucket
  · rw [reindex, if_pos hold]
    exact h
  · rw [reindex_eq ix key hold]
    have hlist : (ix.list bucket key).members.get? b = none := by
      rw [list, Table.get?_insert, if_neg hb]
      exact h
    show (if ix.bucket key = noBucket then ix.list bucket key
      else (ix.list bucket key).unlist (ix.bucket key) key).members.get? b = none
    split
    · exact hlist
    · exact members_unlist_of_none hlist (ix.bucket key) key

end ExpiryIndex

namespace Cache

variable {c c' c'' : Cache K V} {now : Int}

/-- What has not elapsed is in none of the buckets that a sweep visits. -/
theorem bucketOf_ne_of_mem_window {bucket expireAt : Int} (hwindow : bucket ∈ window now)
    (hlive : now < expireAt) : bucketOf expireAt ≠ bucket := by
  rintro rfl
  have hle := le_of_mem_window hwindow
  omega

/-! ## Coming across keys -/

/-- On the way from the first cache to the second, a sweep at `now` has come
    across the keys `met`: those of them that are expired are deleted, and
    all other items are there.  An expired key that is still stored is listed
    where it was. -/
structure Combs (now : Int) (met : K → Prop) (c c' : Cache K V) : Prop where
  keeps : Keeps (fun k item => met k → now < item.expireAt) c c'
  listed : ∀ k item, c'.store.item? k = some item → item.expireAt ≤ now →
    ∀ b, k ∈ c'.index.listed b ↔ k ∈ c.index.listed b

namespace Combs

variable {met met' later : K → Prop}

/-- The sweep comes across more keys.  Which ones may be said beforehand, as
    far as expired keys that it has not come across yet are concerned. -/
theorem trans (h : Combs now met c c') (h' : Combs now later c' c'')
    (heq : ∀ k item, c'.store.item? k = some item → item.expireAt ≤ now →
      (met' k ↔ later k)) :
    Combs now (fun k => met k ∨ met' k) c c'' where
  keeps := by
    intro k item
    rw [h'.keeps k item, h.keeps k item, and_assoc]
    refine and_congr_right fun hitem => ?_
    by_cases hlive : now < item.expireAt
    · exact ⟨fun _ _ => hlive, fun _ => ⟨fun _ => hlive, fun _ => hlive⟩⟩
    · have hsame : ¬met k → (met' k ↔ later k) := by
        intro hmet
        have hstored := (h.keeps k item).mpr ⟨hitem, fun hk => absurd hk hmet⟩
        exact heq k item hstored (by omega)
      constructor
      · rintro ⟨hmet, hlater⟩ (hk | hk)
        · exact hmet hk
        · exact hlater ((hsame fun hk' => hlive (hmet hk')).mp hk)
      · intro hboth
        refine ⟨fun hk => hboth (Or.inl hk), fun hk => ?_⟩
        exact hboth (Or.inr ((hsame fun hk' => hlive (hboth (Or.inl hk'))).mpr hk))
  listed := by
    intro k item hitem hexp b
    have hstored := ((h'.keeps k item).mp hitem).1
    rw [h'.listed k item hitem hexp b, h.listed k item hstored hexp b]

/-- Which keys these are can be said in other words. -/
theorem congr (h : Combs now met c c') (heq : ∀ k, met k ↔ met' k) : Combs now met' c c' where
  keeps := h.keeps.congr fun k _ => imp_congr_left (heq k)
  listed := h.listed

/-- The sweep comes across no key. -/
theorem refl (c : Cache K V) (hmet : ∀ k, ¬met k) : Combs now met c c where
  keeps := fun k _ => (and_iff_left fun hk => absurd hk (hmet k)).symm
  listed := fun _ _ _ _ _ => Iff.rfl

/-- What the buckets list that are visited next may be read off before: an
    expired key that is still stored has stayed where it was listed. -/
theorem thenBuckets {buckets : List Int} (h : Combs now met c c')
    (h' : Combs now (fun k => ∃ b ∈ buckets, k ∈ c'.index.listed b) c' c'') :
    Combs now (fun k => met k ∨ ∃ b ∈ buckets, k ∈ c.index.listed b) c c'' := by
  refine h.trans h' fun k item hitem hexp => ?_
  have hlisted := h.listed k item hitem hexp
  constructor
  · rintro ⟨b, hb, hk⟩
    exact ⟨b, hb, (hlisted b).mpr hk⟩
  · rintro ⟨b, hb, hk⟩
    exact ⟨b, hb, (hlisted b).mp hk⟩

end Combs

/-- One key is come across, and nothing happens to where others are listed. -/
theorem combs_key {key : K}
    (hitem : ∀ k, c'.store.item? k = if key = k then c.store.live? now k else c.store.item? k)
    (hlisted : ∀ k, k ≠ key → ∀ b, k ∈ c'.index.listed b ↔ k ∈ c.index.listed b) :
    Combs now (fun k => key = k) c c' where
  keeps := keeps_of_live hitem
  listed := by
    intro k item hstored hexp b
    refine hlisted k ?_ b
    rintro rfl
    rw [hitem k, if_pos rfl, Store.live?_eq_some] at hstored
    omega

/-- Steps that each come across one key. -/
theorem combs_tally {α : Type} {step : Cache K V → α → Bool × Cache K V} {keyOf : α → K}
    (hstep : ∀ (c : Cache K V) a, Combs now (fun k => keyOf a = k) c (step c a).2) (as : List α)
    (c : Cache K V) : Combs now (fun k => k ∈ as.map keyOf) c (tally step as c).2 := by
  induction as generalizing c with
  | nil => exact .refl c fun _ => List.not_mem_nil
  | cons a rest ih =>
      have hall := (hstep c a).trans (ih (step c a).2) fun _ _ _ _ => Iff.rfl
      refine hall.congr fun k => ?_
      rw [List.map_cons, List.mem_cons, eq_comm]

/-! ## Notices -/

theorem combs_handleNotice (c : Cache K V) (now oldest : Int) (notice : Notice K) :
    Combs now (fun k => notice.key = k) c (c.handleNotice now oldest notice).2 := by
  refine combs_key (item?_handleNotice c now oldest notice) fun k hk b => ?_
  cases hlive : c.store.live? now notice.key with
  | none =>
      rw [index_handleNotice_of_dead oldest hlive]
      exact c.index.mem_listed_unindex_of_ne hk b
  | some item =>
      rw [index_handleNotice_of_live oldest hlive]
      exact c.index.mem_listed_reindex_of_ne hk _ b

/-! ## Keys of a bucket -/

theorem item?_visit (c : Cache K V) (now bucket : Int) (key k : K) :
    (c.visit now bucket key).2.store.item? k =
      if key = k then c.store.live? now k else c.store.item? k := by
  cases hlive : c.store.live? now key with
  | some item =>
      have hstore : (c.visit now bucket key).2.store = c.store := by
        simp only [visit, hlive]
        split
        · rfl
        · rfl
      rw [hstore]
      split
      · rename_i hk
        rw [← hk, hlive]
        exact (Store.live?_eq_some.mp hlive).1
      · rfl
  | none =>
      have hstore : (c.visit now bucket key).2.store = (c.collect now key).2.store := by
        simp only [visit, hlive]
        split
        · rfl
        · rfl
      rw [hstore]
      exact item?_collect c now key k

/-- A visited key that is filed anew is live, and it is filed under its own
    expiry. -/
theorem index_visit (c : Cache K V) (now bucket : Int) (key : K) :
    (c.visit now bucket key).2.index.members = c.index.members ∨
      ∃ item, c.store.live? now key = some item ∧
        (c.visit now bucket key).2.index =
          (c.index.reindex key (bucketOf item.expireAt)).2 := by
  cases hlive : c.store.live? now key with
  | some item =>
      simp only [visit, hlive]
      split
      · exact Or.inr ⟨item, rfl, rfl⟩
      · exact Or.inl rfl
  | none =>
      left
      simp only [visit, hlive]
      split
      · rw [ExpiryIndex.members_unassignFrom, index_collect]
      · rw [index_collect]

theorem combs_visit (c : Cache K V) (now bucket : Int) (key : K) :
    Combs now (fun k => key = k) c (c.visit now bucket key).2 := by
  refine combs_key (item?_visit c now bucket key) fun k hk b => ?_
  rcases index_visit c now bucket key with hmembers | ⟨item, -, hindex⟩
  · rw [ExpiryIndex.listed_of_members hmembers]
  · rw [hindex]
    exact c.index.mem_listed_reindex_of_ne hk _ b

/-- A bucket of the window that is not there does not come back. -/
theorem members_visit {b : Int} (h : c.index.members.get? b = none) (hwindow : b ∈ window now)
    (bucket : Int) (key : K) : (c.visit now bucket key).2.index.members.get? b = none := by
  rcases index_visit c now bucket key with hmembers | ⟨item, hlive, hindex⟩
  · rw [hmembers]
    exact h
  · rw [hindex]
    have hafter := (Store.live?_eq_some.mp hlive).2
    exact ExpiryIndex.members_reindex_of_none h (bucketOf_ne_of_mem_window hwindow hafter) key

theorem members_visits {b : Int} (h : c.index.members.get? b = none) (hwindow : b ∈ window now)
    (bucket : Int) (keys : List K) :
    (tally (fun c key => c.visit now bucket key) keys c).2.index.members.get? b = none := by
  induction keys generalizing c with
  | nil => exact h
  | cons key rest ih => exact ih (members_visit h hwindow bucket key)

/-! ## Buckets -/

variable {order : List K → List K}

/-- Visiting a bucket comes across the keys that it lists. -/
theorem combs_scan (horder : ∀ keys, (order keys).Perm keys) (c : Cache K V)
    (now bucket : Int) :
    Combs now (fun k => k ∈ c.index.listed bucket) c (c.scan order now bucket).2 := by
  have hmet : ∀ k, k ∈ (order (c.index.listed bucket)).map id ↔ k ∈ c.index.listed bucket := by
    intro k
    rw [List.map_id, (horder _).mem_iff]
  have hvisited := (combs_tally (fun c key => combs_visit c now bucket key)
    (order (c.index.listed bucket)) { c with index := (c.index.deleteBucket bucket).2 }).congr hmet
  rw [scan_eq horder]
  refine ⟨hvisited.keeps, fun k item hitem hexp b => ?_⟩
  rw [hvisited.listed k item hitem hexp b, ExpiryIndex.mem_listed_deleteBucket]
  refine and_iff_right_of_imp fun hk => ?_
  -- an expired key of the bucket itself would not be there any more
  rintro rfl
  have hlive := ((hvisited.keeps k item).mp hitem).2 hk
  omega

/-- Visiting a bucket deletes it for good, and it brings no other bucket of
    the window back. -/
theorem members_scan {b : Int} (horder : ∀ keys, (order keys).Perm keys) (bucket : Int)
    (hwindow : b ∈ window now) (h : bucket = b ∨ c.index.members.get? b = none) :
    (c.scan order now bucket).2.index.members.get? b = none := by
  have hdeleted : (c.index.deleteBucket bucket).2.members.get? b = none := by
    rw [ExpiryIndex.members_deleteBucket]
    split
    · rfl
    · rename_i hb
      exact h.resolve_left hb
  rw [scan_eq horder]
  exact members_visits (c := { c with index := (c.index.deleteBucket bucket).2 }) hdeleted hwindow
    bucket _

end Cache

end ExpiringCache
