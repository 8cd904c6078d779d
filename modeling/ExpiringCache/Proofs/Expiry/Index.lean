import ExpiringCache.Expiry.Index

/-! # The two sides of the expiry index

    The index keeps two tables that say the same thing in two directions:
    which bucket each key is assigned to, and which keys each bucket lists.
    An index is `Sound` if the two sides agree and no key is assigned to the
    label that stands for "in no bucket".

    Filing a key and taking it out keep an index sound.  Deleting a bucket
    does not: the keys that it listed stay assigned to it until each of them
    is dealt with. -/

namespace ExpiringCache.ExpiryIndex

variable {K : Type}

/-! ## What each step lists -/

/-- What a bucket lists depends on the side of the buckets only. -/
theorem listed_of_members {ix ix' : ExpiryIndex K} (h : ix'.members = ix.members)
    (bucket : Int) : ix'.listed bucket = ix.listed bucket := by
  rw [listed, listed, h]

/-- Keeping other keys under a bucket changes the list of this bucket
    only. -/
theorem listed_insert (ix : ExpiryIndex K) (bucket b : Int) (keys : KeySet K) :
    listed { ix with members := ix.members.insert bucket keys } b =
      if bucket = b then keys.keys else ix.listed b := by
  rw [listed, Table.get?_insert]
  split
  · rfl
  · rfl

/-- A bucket that is not held lists nothing. -/
theorem not_mem_listed {ix : ExpiryIndex K} {bucket : Int}
    (h : ix.members.get? bucket = none) (k : K) : k ∉ ix.listed bucket := by
  rw [listed, h]
  exact List.not_mem_nil

/-- No bucket lists a key twice. -/
theorem nodup_listed (ix : ExpiryIndex K) (bucket : Int) : (ix.listed bucket).Nodup := by
  rw [listed]
  cases ix.members.get? bucket with
  | none => exact List.nodup_nil
  | some keys => exact keys.nodup

/-- What a deletion answers are the keys that the bucket listed. -/
theorem deleteBucket_fst (ix : ExpiryIndex K) (bucket : Int) :
    (ix.deleteBucket bucket).1.getD [] = ix.listed bucket := by
  rw [deleteBucket, listed]
  cases ix.members.get? bucket with
  | none => rfl
  | some keys => rfl

/-- A deleted bucket lists nothing, and the others list what they did. -/
theorem mem_listed_deleteBucket (ix : ExpiryIndex K) (bucket b : Int) (k : K) :
    k ∈ (ix.deleteBucket bucket).2.listed b ↔ b ≠ bucket ∧ k ∈ ix.listed b := by
  cases hget : ix.members.get? bucket with
  | none =>
      rw [deleteBucket, hget]
      show k ∈ ix.listed b ↔ _
      constructor
      · intro h
        refine ⟨?_, h⟩
        rintro rfl
        exact not_mem_listed hget k h
      · exact And.right
  | some keys =>
      rw [deleteBucket, hget]
      show k ∈ listed { ix with members := ix.members.erase bucket } b ↔ _
      rw [listed, Table.get?_erase]
      by_cases hb : bucket = b
      · simp [hb]
      · rw [if_neg hb]
        constructor
        · intro h
          exact ⟨fun e => hb e.symm, h⟩
        · exact And.right

/-- The keys of a deleted bucket stay assigned to it. -/
theorem assigned_deleteBucket (ix : ExpiryIndex K) (bucket : Int) :
    (ix.deleteBucket bucket).2.assigned = ix.assigned := by
  rw [deleteBucket]
  split
  · rfl
  · rfl

variable [DecidableEq K]

/-- To list a key in a bucket adds it to that bucket and to no other. -/
theorem mem_listed_list (ix : ExpiryIndex K) (bucket b : Int) (key k : K) :
    k ∈ (ix.list bucket key).listed b ↔ (k = key ∧ b = bucket) ∨ k ∈ ix.listed b := by
  by_cases hb : bucket = b
  · subst hb
    rw [listed_list]
    simp
  · have hlisted : (ix.list bucket key).listed b = ix.listed b := by
      rw [list, listed_insert, if_neg hb]
    rw [hlisted]
    constructor
    · exact Or.inr
    · rintro (⟨-, h⟩ | h)
      · exact absurd h.symm hb
      · exact h

/-- A key that is taken out of a set is gone, and no other is. -/
theorem mem_keys_erase {keys : KeySet K} {key k : K} :
    k ∈ (keys.erase key).keys ↔ k ≠ key ∧ k ∈ keys.keys := by
  rw [← Table.contains_iff, ← Table.contains_iff, Table.contains, Table.contains,
    Table.get?_erase]
  by_cases hk : key = k
  · simp [hk]
  · rw [if_neg hk]
    constructor
    · intro h
      exact ⟨fun e => hk e.symm, h⟩
    · exact And.right

/-- To take a key off a bucket takes it off that bucket and no other. -/
theorem mem_listed_unlist (ix : ExpiryIndex K) (bucket b : Int) (key k : K) :
    k ∈ (ix.unlist bucket key).listed b ↔ ¬(k = key ∧ b = bucket) ∧ k ∈ ix.listed b := by
  cases hget : ix.members.get? bucket with
  | none =>
      rw [unlist, hget]
      show k ∈ ix.listed b ↔ _
      constructor
      · intro h
        refine ⟨?_, h⟩
        rintro ⟨-, rfl⟩
        exact not_mem_listed hget k h
      · exact And.right
  | some keys =>
      have hkeys : ix.listed bucket = keys.keys := by
        rw [listed, hget]
        rfl
      rw [unlist, hget]
      show k ∈ listed { ix with members := ix.members.insert bucket (keys.erase key) } b ↔ _
      rw [listed_insert]
      by_cases hb : bucket = b
      · subst hb
        rw [if_pos rfl, mem_keys_erase, hkeys]
        simp
      · rw [if_neg hb]
        constructor
        · intro h
          exact ⟨fun e => hb e.2.symm, h⟩
        · exact And.right

/-- To take a key off a bucket leaves its assignment. -/
theorem assigned_unlist (ix : ExpiryIndex K) (bucket : Int) (key : K) :
    (ix.unlist bucket key).assigned = ix.assigned := by
  rw [unlist]
  split
  · rfl
  · rfl

/-- A key without an assignment is in no bucket. -/
theorem bucket_eq_iff {ix : ExpiryIndex K} {key : K} {bucket : Int} (hb : bucket ≠ noBucket) :
    ix.bucket key = bucket ↔ ix.assigned.get? key = some bucket := by
  rw [ExpiryIndex.bucket]
  cases ix.assigned.get? key with
  | none =>
      constructor
      · intro h
        exact absurd h.symm hb
      · intro h
        exact nomatch h
  | some b =>
      constructor
      · intro h
        exact congrArg some h
      · intro h
        exact Option.some.inj h

/-- A key that is in a bucket is in one only. -/
theorem get?_eq_some_iff {ix : ExpiryIndex K} {key : K}
    (h : ix.assigned.get? key ≠ some noBucket) (bucket : Int) :
    ix.assigned.get? key = some bucket ↔ bucket = ix.bucket key ∧ bucket ≠ noBucket := by
  by_cases hb : bucket = noBucket
  · subst hb
    constructor
    · intro hkey
      exact absurd hkey h
    · intro hkey
      exact absurd rfl hkey.2
  · rw [← bucket_eq_iff hb, eq_comm]
    exact (and_iff_left hb).symm

/-! ## Filing a key and taking it out -/

/-- The index in which `key` is filed under `bucket`, and no longer under the
    bucket it was in. -/
theorem reindex_eq (ix : ExpiryIndex K) (key : K) {bucket : Int}
    (h : ix.bucket key ≠ bucket) :
    (ix.reindex key bucket).2 =
      (if ix.bucket key = noBucket then ix.list bucket key
        else (ix.list bucket key).unlist (ix.bucket key) key).assign key bucket := by
  rw [reindex, if_neg h]

/-- To take a key out of the index is to drop its assignment and, if it had
    one, to take it off that bucket. -/
theorem unindex_eq (ix : ExpiryIndex K) (key : K) :
    ix.unindex key =
      if ix.bucket key = noBucket then (ix.unassign key).2
      else (ix.unassign key).2.unlist (ix.bucket key) key := rfl

/-- A key that moves is assigned to where it goes, `noBucket` included. -/
theorem assigned_reindex_of_ne (ix : ExpiryIndex K) {key : K} {bucket : Int}
    (h : ix.bucket key ≠ bucket) (k : K) :
    (ix.reindex key bucket).2.assigned.get? k =
      if key = k then some bucket else ix.assigned.get? k := by
  rw [reindex_eq ix key h, assign, Table.get?_insert]
  split
  · rfl
  · split
    · rfl
    · rw [assigned_unlist]
      rfl

/-- Filing a key concerns its own assignment only. -/
theorem assigned_reindex (ix : ExpiryIndex K) {bucket : Int} (hb : bucket ≠ noBucket)
    (key k : K) :
    (ix.reindex key bucket).2.assigned.get? k =
      if key = k then some bucket else ix.assigned.get? k := by
  by_cases hold : ix.bucket key = bucket
  · have hassigned := (bucket_eq_iff hb).mp hold
    rw [reindex, if_pos hold]
    split
    · rename_i hk
      rw [← hk]
      exact hassigned
    · rfl
  · exact ix.assigned_reindex_of_ne hold k

/-- So does taking it out. -/
theorem assigned_unindex (ix : ExpiryIndex K) (key k : K) :
    (ix.unindex key).assigned.get? k = if key = k then none else ix.assigned.get? k := by
  have hassigned : (ix.unindex key).assigned = ix.assigned.erase key := by
    rw [unindex_eq]
    split
    · rfl
    · rw [assigned_unlist]
      rfl
  rw [hassigned, Table.get?_erase]

/-- A key that moves is listed where it goes, and struck off the list of the
    bucket it was in; that of `noBucket` is left alone. -/
theorem mem_listed_reindex (ix : ExpiryIndex K) {key : K} {bucket : Int}
    (h : ix.bucket key ≠ bucket) (b : Int) (k : K) :
    k ∈ (ix.reindex key bucket).2.listed b ↔
      (k = key ∧ b = bucket) ∨
        k ∈ ix.listed b ∧ ¬(k = key ∧ b = ix.bucket key ∧ b ≠ noBucket) := by
  rw [reindex_eq ix key h]
  show k ∈ listed (if ix.bucket key = noBucket then ix.list bucket key
    else (ix.list bucket key).unlist (ix.bucket key) key) b ↔ _
  split
  · rename_i hnone
    rw [mem_listed_list, hnone]
    refine or_congr_right (and_iff_left ?_).symm
    rintro ⟨-, hb, hne⟩
    exact hne hb
  · rename_i hsome
    rw [mem_listed_unlist, mem_listed_list]
    constructor
    · rintro ⟨hstruck, hnew | hold⟩
      · exact Or.inl hnew
      · exact Or.inr ⟨hold, fun hk => hstruck ⟨hk.1, hk.2.1⟩⟩
    · rintro (⟨hk, hb⟩ | ⟨hold, hkept⟩)
      · refine ⟨?_, Or.inl ⟨hk, hb⟩⟩
        rintro ⟨-, hb'⟩
        exact h (hb'.symm.trans hb)
      · refine ⟨?_, Or.inr hold⟩
        rintro ⟨hk, hb⟩
        exact hkept ⟨hk, hb, fun hnone => hsome (hb.symm.trans hnone)⟩

/-- Taking a key out strikes it off the list of its bucket; that of
    `noBucket` is left alone. -/
theorem mem_listed_unindex (ix : ExpiryIndex K) (key : K) (b : Int) (k : K) :
    k ∈ (ix.unindex key).listed b ↔
      k ∈ ix.listed b ∧ ¬(k = key ∧ b = ix.bucket key ∧ b ≠ noBucket) := by
  have hmembers : (ix.unassign key).2.listed b = ix.listed b := listed_of_members rfl b
  rw [unindex_eq]
  split
  · rename_i hnone
    rw [hmembers, hnone]
    refine (and_iff_left ?_).symm
    rintro ⟨-, hb, hne⟩
    exact hne hb
  · rename_i hsome
    rw [mem_listed_unlist, hmembers, and_comm]
    refine and_congr_right fun _ => not_congr (and_congr_right fun _ => ?_)
    exact (and_iff_left_of_imp fun hb hnone => hsome (hb.symm.trans hnone)).symm

/-! ## Sides that agree -/

/-- The two sides agree: a bucket lists the keys that are assigned to it. -/
def Agrees (ix : ExpiryIndex K) : Prop :=
  ∀ bucket key, key ∈ ix.listed bucket ↔ ix.assigned.get? key = some bucket

/-- The sides of an empty index agree. -/
theorem agrees_empty : (empty : ExpiryIndex K).Agrees := by
  intro bucket key
  constructor
  · intro h
    exact nomatch h
  · intro h
    exact nomatch h

namespace Agrees

variable {ix : ExpiryIndex K} {key : K}

/-- Filing a key keeps the sides in agreement if it is not assigned to
    `noBucket`. -/
theorem reindex (h : ix.Agrees) (hkey : ix.assigned.get? key ≠ some noBucket) (bucket : Int) :
    (ix.reindex key bucket).2.Agrees := by
  by_cases hold : ix.bucket key = bucket
  · rw [ExpiryIndex.reindex, if_pos hold]
    exact h
  · intro b k
    rw [ix.mem_listed_reindex hold, ix.assigned_reindex_of_ne hold, h]
    by_cases hk : key = k
    · -- of the buckets that list the key, the old one is struck out
      subst hk
      rw [if_pos rfl, Option.some_inj, get?_eq_some_iff hkey, eq_self, true_and, true_and,
        and_not_self_iff, or_false, eq_comm]
    · have hk' : k ≠ key := fun e => hk e.symm
      rw [if_neg hk]
      simp [hk']

/-- So does taking it out. -/
theorem unindex (h : ix.Agrees) (hkey : ix.assigned.get? key ≠ some noBucket) :
    (ix.unindex key).Agrees := by
  intro b k
  rw [mem_listed_unindex, assigned_unindex, h]
  by_cases hk : key = k
  · subst hk
    rw [if_pos rfl, get?_eq_some_iff hkey, eq_self, true_and, and_not_self_iff]
    exact iff_of_false not_false nofun
  · have hk' : k ≠ key := fun e => hk e.symm
    rw [if_neg hk]
    simp [hk']

end Agrees

/-! ## Sound indexes -/

/-- The two sides agree, and every assignment is to a bucket. -/
structure Sound (ix : ExpiryIndex K) : Prop where
  sides : ∀ bucket key, key ∈ ix.listed bucket ↔ ix.assigned.get? key = some bucket
  isBucket : ∀ key, ix.assigned.get? key ≠ some noBucket

theorem sound_empty : (empty : ExpiryIndex K).Sound where
  sides := agrees_empty
  isBucket := by
    intro key h
    exact nomatch h

namespace Sound

variable {ix : ExpiryIndex K}

/-- The bucket that a key is in is the only one that lists it. -/
theorem mem_listed_iff (h : ix.Sound) {bucket : Int} {key : K} :
    key ∈ ix.listed bucket ↔ bucket ≠ noBucket ∧ ix.bucket key = bucket := by
  rw [h.sides, get?_eq_some_iff (h.isBucket key), and_comm, eq_comm]

theorem reindex (h : ix.Sound) {bucket : Int} (hb : bucket ≠ noBucket) (key : K) :
    (ix.reindex key bucket).2.Sound := by
  refine ⟨Agrees.reindex h.sides (h.isBucket key) bucket, fun k => ?_⟩
  rw [assigned_reindex ix hb]
  split
  · exact fun e => hb (Option.some.inj e)
  · exact h.isBucket k

theorem unindex (h : ix.Sound) (key : K) : (ix.unindex key).Sound := by
  refine ⟨Agrees.unindex h.sides (h.isBucket key), fun k => ?_⟩
  rw [assigned_unindex]
  split
  · intro e
    cases e
  · exact h.isBucket k

end Sound

end ExpiringCache.ExpiryIndex
