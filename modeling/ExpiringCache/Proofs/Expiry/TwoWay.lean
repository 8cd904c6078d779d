import ExpiringCache.Proofs.EntryList
import ExpiringCache.Proofs.Expiry.Index
import ExpiringCache.Proofs.Janitor.Session
import Mathlib.Algebra.GroupWithZero.Nat

/-! # An index that is read both ways

    Keys are filed and taken out one by one, while a bucket is deleted as a
    whole.  Its keys are dealt with after that: each of them is filed
    elsewhere, or its assignment ends.  In between the two sides of the index
    say different things, so that deleting a bucket and dealing with its keys
    counts as one operation here.

    Between the operations the two sides agree.  There is one exception.  A
    key of a deleted bucket may be filed under `noBucket`, as under any other
    label.  From then on it is taken for a key that is in no bucket, and when
    it is filed again, or taken out, nobody strikes it off that list.  This
    is the only way in which the sides come to disagree. -/

namespace ExpiringCache

namespace ExpiryIndex

variable {K : Type}

/-! ## Operations -/

/-- An operation on an index. -/
inductive Operation (K : Type) where
  /-- A key is filed under a bucket. -/
  | file (key : K) (bucket : Int) (isBucket : bucket ≠ noBucket)
  /-- A key is taken out. -/
  | takeOut (key : K)
  /-- All keys and buckets are forgotten. -/
  | clear
  /-- A bucket is deleted and its keys are dealt with, in some order: a key is
      filed elsewhere, or its assignment to the bucket ends. -/
  | dissolve (bucket : Int) (order : VisitingOrder K) (elsewhere : K → Option Int)
      (leaves : ∀ key, elsewhere key ≠ some bucket)

variable [DecidableEq K]

/-- Deals with one key of the deleted bucket. -/
def settle (ix : ExpiryIndex K) (bucket : Int) (elsewhere : K → Option Int) (key : K) :
    ExpiryIndex K :=
  match elsewhere key with
  | none => (ix.unassignFrom key bucket).2
  | some other => (ix.reindex key other).2

/-- Deals with several of its keys. -/
def settleAll (ix : ExpiryIndex K) (bucket : Int) (elsewhere : K → Option Int) (keys : List K) :
    ExpiryIndex K :=
  keys.foldl (fun ix key => ix.settle bucket elsewhere key) ix

/-- Carries out an operation. -/
def perform (ix : ExpiryIndex K) : Operation K → ExpiryIndex K
  | .file key bucket _ => (ix.reindex key bucket).2
  | .takeOut key => ix.unindex key
  | .clear => ix.clear
  | .dissolve bucket order elsewhere _ =>
      let (keys, ix) := ix.deleteBucket bucket
      ix.settleAll bucket elsewhere (order.arrange (keys.getD []))

/-- The operation files or takes out, on its own, a key that is assigned to
    `noBucket`. -/
def Operation.Disturbs (ix : ExpiryIndex K) : Operation K → Prop
  | .file key _ _ => ix.assigned.get? key = some noBucket
  | .takeOut key => ix.assigned.get? key = some noBucket
  | .clear => False
  | .dissolve _ _ _ _ => False

instance (ix : ExpiryIndex K) : (op : Operation K) → Decidable (op.Disturbs ix)
  | .file key _ _ => inferInstanceAs (Decidable (ix.assigned.get? key = some noBucket))
  | .takeOut key => inferInstanceAs (Decidable (ix.assigned.get? key = some noBucket))
  | .clear => inferInstanceAs (Decidable False)
  | .dissolve _ _ _ _ => inferInstanceAs (Decidable False)

omit [DecidableEq K] in
/-- The operation files no key under `noBucket`. -/
def Operation.StaysInBuckets : Operation K → Prop
  | .dissolve _ _ elsewhere _ => ∀ key, elsewhere key ≠ some noBucket
  | _ => True

/-! ## Deleting a bucket -/

/-- In the middle of dealing with the keys of `bucket`, which is deleted:
    exactly the keys `todo` are still assigned to it. -/
structure Dissolving (bucket : Int) (todo : List K) (ix : ExpiryIndex K) : Prop where
  sides : ∀ b key, key ∈ ix.listed b ↔ b ≠ bucket ∧ ix.assigned.get? key = some b
  todo : ∀ key, key ∈ todo ↔ ix.assigned.get? key = some bucket

namespace Dissolving

variable {ix : ExpiryIndex K} {bucket : Int} {elsewhere : K → Option Int}

theorem bucket_eq {key : K} {rest : List K} (h : ix.Dissolving bucket (key :: rest)) :
    ix.bucket key = bucket := by
  rw [ExpiryIndex.bucket, (h.todo key).mp List.mem_cons_self]
  rfl

/-- The next key moves wherever it is filed, since it leaves the bucket. -/
theorem bucket_ne {key : K} {rest : List K} (h : ix.Dissolving bucket (key :: rest))
    (hleaves : ∀ key, elsewhere key ≠ some bucket) {other : Int}
    (helse : elsewhere key = some other) : ix.bucket key ≠ other := by
  rw [h.bucket_eq]
  rintro rfl
  exact hleaves key helse

/-- A key that is dealt with has the assignment that was meant for it. -/
theorem assigned_settle {key : K} {rest : List K} (h : ix.Dissolving bucket (key :: rest))
    (hleaves : ∀ key, elsewhere key ≠ some bucket) (k : K) :
    (ix.settle bucket elsewhere key).assigned.get? k =
      if key = k then elsewhere key else ix.assigned.get? k := by
  cases helse : elsewhere key with
  | none =>
      simp only [settle, helse, unassignFrom, if_pos ((h.todo key).mp List.mem_cons_self)]
      exact ix.assigned.get?_erase key k
  | some other =>
      simp only [settle, helse]
      exact ix.assigned_reindex_of_ne (h.bucket_ne hleaves helse) k

/-- It is listed where it goes, and nothing else changes in the lists. -/
theorem mem_listed_settle {key : K} {rest : List K} (h : ix.Dissolving bucket (key :: rest))
    (hleaves : ∀ key, elsewhere key ≠ some bucket) (b : Int) (k : K) :
    k ∈ (ix.settle bucket elsewhere key).listed b ↔
      (k = key ∧ elsewhere key = some b) ∨ k ∈ ix.listed b := by
  cases helse : elsewhere key with
  | none =>
      simp only [settle, helse, unassignFrom, if_pos ((h.todo key).mp List.mem_cons_self)]
      constructor
      · intro hlisted
        exact Or.inr hlisted
      · rintro (⟨-, hnone⟩ | hlisted)
        · cases hnone
        · exact hlisted
  | some other =>
      simp only [settle, helse]
      rw [mem_listed_reindex ix (h.bucket_ne hleaves helse), Option.some_inj, h.bucket_eq,
        eq_comm (a := b)]
      -- the bucket is deleted, so it lists no key that could be struck off
      refine or_congr_right (and_iff_left_of_imp ?_)
      rintro hlisted ⟨-, rfl, -⟩
      exact ((h.sides b k).mp hlisted).1 rfl

/-- Then only the other keys are still assigned to the bucket. -/
theorem settle {key : K} {rest : List K} (h : ix.Dissolving bucket (key :: rest))
    (hkey : key ∉ rest) (hleaves : ∀ key, elsewhere key ≠ some bucket) :
    (ix.settle bucket elsewhere key).Dissolving bucket rest := by
  have hassigned := h.assigned_settle hleaves
  constructor
  · intro b k
    rw [hassigned, h.mem_listed_settle hleaves, h.sides]
    by_cases hk : key = k
    · subst hk
      rw [if_pos rfl, (h.todo key).mp List.mem_cons_self]
      constructor
      · rintro (⟨-, helse⟩ | ⟨hb, hsame⟩)
        · refine ⟨?_, helse⟩
          rintro rfl
          exact hleaves key helse
        · exact absurd (Option.some.inj hsame).symm hb
      · rintro ⟨-, helse⟩
        exact Or.inl ⟨rfl, helse⟩
    · rw [if_neg hk]
      exact or_iff_right fun hkey => hk hkey.1.symm
  · intro k
    rw [hassigned]
    by_cases hk : key = k
    · subst hk
      rw [if_pos rfl]
      exact iff_of_false hkey (hleaves key)
    · rw [if_neg hk, ← h.todo, List.mem_cons]
      exact (or_iff_right fun e => hk e.symm).symm

/-- When all keys have been dealt with, each has the assignment that was
    meant for it. -/
theorem settleAll {todo : List K} (h : ix.Dissolving bucket todo) (hnodup : todo.Nodup)
    (hleaves : ∀ key, elsewhere key ≠ some bucket) :
    (ix.settleAll bucket elsewhere todo).Dissolving bucket [] ∧
      ∀ k, (ix.settleAll bucket elsewhere todo).assigned.get? k =
        if k ∈ todo then elsewhere k else ix.assigned.get? k := by
  induction todo generalizing ix with
  | nil => exact ⟨h, fun k => (if_neg List.not_mem_nil).symm⟩
  | cons key rest ih =>
      rw [List.nodup_cons] at hnodup
      obtain ⟨hdone, hassigned⟩ := ih (h.settle hnodup.1 hleaves) hnodup.2
      refine ⟨hdone, ?_⟩
      intro k
      refine (hassigned k).trans ?_
      rw [h.assigned_settle hleaves]
      by_cases hk : key = k
      · subst hk
        rw [if_neg hnodup.1, if_pos rfl, if_pos List.mem_cons_self]
      · have hmem : k ∈ key :: rest ↔ k ∈ rest :=
          List.mem_cons.trans (or_iff_right fun e => hk e.symm)
        rw [if_neg hk, if_congr hmem rfl rfl]

/-- With that the sides agree again. -/
theorem agrees (h : ix.Dissolving bucket []) : ix.Agrees := by
  intro b k
  rw [h.sides]
  refine and_iff_right_of_imp ?_
  rintro hassigned rfl
  exact absurd ((h.todo k).mpr hassigned) List.not_mem_nil

end Dissolving

namespace Agrees

variable {ix : ExpiryIndex K}

/-- When a bucket is deleted, the keys that are answered are still assigned
    to it. -/
theorem delete (h : ix.Agrees) (bucket : Int) {todo : List K}
    (htodo : todo.Perm ((ix.deleteBucket bucket).1.getD [])) :
    (ix.deleteBucket bucket).2.Dissolving bucket todo := by
  constructor
  · intro b key
    rw [mem_listed_deleteBucket, assigned_deleteBucket, h]
  · intro key
    rw [assigned_deleteBucket, htodo.mem_iff, deleteBucket_fst, h]

/-- Deleting a bucket and dealing with its keys concerns these keys only, and
    keeps the sides in agreement. -/
theorem dissolve (h : ix.Agrees) {bucket : Int} (order : VisitingOrder K)
    {elsewhere : K → Option Int} (hleaves : ∀ key, elsewhere key ≠ some bucket) :
    (ix.perform (.dissolve bucket order elsewhere hleaves)).Agrees ∧
      ∀ k, (ix.perform (.dissolve bucket order elsewhere hleaves)).assigned.get? k =
        if ix.assigned.get? k = some bucket then elsewhere k else ix.assigned.get? k := by
  have hperm := order.perm ((ix.deleteBucket bucket).1.getD [])
  have hnodup : (order.arrange ((ix.deleteBucket bucket).1.getD [])).Nodup := by
    rw [hperm.nodup_iff, deleteBucket_fst]
    exact ix.nodup_listed bucket
  have hdissolving := h.delete bucket hperm
  obtain ⟨hdone, hassigned⟩ := hdissolving.settleAll hnodup hleaves
  refine ⟨hdone.agrees, ?_⟩
  intro k
  refine (hassigned k).trans ?_
  rw [if_congr (hdissolving.todo k) rfl rfl, assigned_deleteBucket]

/-- The sides still agree after an operation, unless it disturbs a key. -/
theorem perform_iff (h : ix.Agrees) (op : Operation K) :
    (ix.perform op).Agrees ↔ ¬op.Disturbs ix := by
  cases op with
  | file key bucket hbucket =>
      constructor
      · intro hagrees hkey
        -- the key stays listed under `noBucket` but is assigned to the bucket
        have hmoves : ix.bucket key ≠ bucket := by
          rw [ExpiryIndex.bucket, hkey]
          exact fun e => hbucket e.symm
        have hlisted : key ∈ (ix.reindex key bucket).2.listed noBucket :=
          (mem_listed_reindex ix hmoves noBucket key).mpr
            (Or.inr ⟨(h noBucket key).mpr hkey, fun hstruck => hstruck.2.2 rfl⟩)
        have hassigned := (hagrees noBucket key).mp hlisted
        rw [perform, assigned_reindex ix hbucket, if_pos rfl] at hassigned
        exact hbucket (Option.some.inj hassigned)
      · intro hkey
        exact h.reindex hkey bucket
  | takeOut key =>
      constructor
      · intro hagrees hkey
        have hlisted : key ∈ (ix.unindex key).listed noBucket :=
          (mem_listed_unindex ix key noBucket key).mpr
            ⟨(h noBucket key).mpr hkey, fun hstruck => hstruck.2.2 rfl⟩
        have hassigned := (hagrees noBucket key).mp hlisted
        rw [perform, assigned_unindex, if_pos rfl] at hassigned
        cases hassigned
      · intro hkey
        exact h.unindex hkey
  | clear => exact iff_of_true agrees_empty not_false
  | dissolve bucket order elsewhere hleaves =>
      exact iff_of_true (h.dissolve order hleaves).1 not_false

end Agrees

/-- If no key is ever filed under `noBucket`, an index stays sound. -/
theorem Sound.perform {ix : ExpiryIndex K} (h : ix.Sound) {op : Operation K}
    (hop : op.StaysInBuckets) : (ix.perform op).Sound := by
  cases op with
  | file key bucket hbucket => exact h.reindex hbucket key
  | takeOut key => exact h.unindex key
  | clear => exact sound_empty
  | dissolve bucket order elsewhere hleaves =>
      obtain ⟨hagrees, hassigned⟩ := Agrees.dissolve h.sides order hleaves
      refine ⟨hagrees, ?_⟩
      intro key
      rw [hassigned]
      split
      · exact hop key
      · exact h.isBucket key

/-! ## Reading the index -/

omit [DecidableEq K] in
/-- The keys on all lists, bucket by bucket. -/
def allListed (ix : ExpiryIndex K) : List K :=
  ix.members.entries.flatMap fun entry => entry.2.keys

omit [DecidableEq K] in
theorem mem_keys_iff {ix : ExpiryIndex K} {entry : Int × KeySet K}
    (h : entry ∈ ix.members.entries) (key : K) :
    key ∈ entry.2.keys ↔ key ∈ ix.listed entry.1 := by
  have hget : ix.members.get? entry.1 = some entry.2 :=
    (Table.find?_eq_some ix.members.nodup).mpr h
  rw [listed, hget]
  rfl

omit [DecidableEq K] in
theorem mem_allListed (ix : ExpiryIndex K) (key : K) :
    key ∈ ix.allListed ↔ ∃ bucket, key ∈ ix.listed bucket := by
  rw [allListed, List.mem_flatMap]
  constructor
  · rintro ⟨entry, hentry, hkey⟩
    exact ⟨entry.1, (mem_keys_iff hentry key).mp hkey⟩
  · rintro ⟨bucket, hkey⟩
    cases hget : ix.members.get? bucket with
    | none => exact absurd hkey (not_mem_listed hget key)
    | some keys =>
        have hentry := (Table.find?_eq_some ix.members.nodup).mp hget
        exact ⟨(bucket, keys), hentry, (mem_keys_iff hentry key).mpr hkey⟩

omit [DecidableEq K] in
theorem length_allListed (ix : ExpiryIndex K) :
    ix.allListed.length = (ix.members.values.map Table.size).sum := by
  rw [allListed, List.length_flatMap, Table.values, List.map_map]
  congr 1
  refine List.map_congr_left ?_
  intro entry _
  exact List.length_map _

/-- The index can be read in both directions: the sides agree, no two buckets
    list the same key, there are as many assignments as keys on all lists
    together, and deleting a bucket answers each key that is assigned to it
    once. -/
structure TwoWay (ix : ExpiryIndex K) : Prop where
  sides : ∀ bucket key, key ∈ ix.listed bucket ↔ ix.assigned.get? key = some bucket
  unique : ∀ key bucket other, key ∈ ix.listed bucket → key ∈ ix.listed other → bucket = other
  size : ix.size = (ix.members.values.map Table.size).sum
  deleted : ∀ bucket, ((ix.deleteBucket bucket).1.getD []).Nodup ∧
    ∀ key, key ∈ (ix.deleteBucket bucket).1.getD [] ↔ ix.assigned.get? key = some bucket

namespace Agrees

variable {ix : ExpiryIndex K}

theorem eq_of_mem_listed (h : ix.Agrees) {key : K} {bucket other : Int}
    (hkey : key ∈ ix.listed bucket) (hkey' : key ∈ ix.listed other) : bucket = other := by
  rw [h] at hkey hkey'
  exact Option.some.inj (hkey.symm.trans hkey')

/-- No key is on two lists. -/
theorem nodup_allListed (h : ix.Agrees) : ix.allListed.Nodup := by
  rw [allListed, List.nodup_flatMap]
  refine ⟨fun entry _ => entry.2.nodup, ?_⟩
  have hdistinct : ix.members.entries.Pairwise fun entry entry' => entry.1 ≠ entry'.1 :=
    List.pairwise_map.mp ix.members.nodup
  refine hdistinct.imp_of_mem ?_
  intro entry entry' hentry hentry' hne key hkey hkey'
  exact hne (h.eq_of_mem_listed ((mem_keys_iff hentry key).mp hkey)
    ((mem_keys_iff hentry' key).mp hkey'))

/-- The listed keys are the assigned ones. -/
theorem perm_allListed (h : ix.Agrees) : ix.allListed.Perm ix.assigned.keys := by
  refine (List.perm_ext_iff_of_nodup h.nodup_allListed ix.assigned.nodup).mpr ?_
  intro key
  show _ ↔ key ∈ ix.assigned.keys
  rw [mem_allListed, ← Table.contains_iff, Table.contains, Option.isSome_iff_exists]
  exact exists_congr fun bucket => h bucket key

theorem twoWay (h : ix.Agrees) : ix.TwoWay where
  sides := h
  unique := by
    intro key bucket other hkey hkey'
    exact h.eq_of_mem_listed hkey hkey'
  size := by
    have hlength := h.perm_allListed.length_eq
    rw [length_allListed, Table.keys, List.length_map] at hlength
    exact hlength.symm
  deleted := by
    intro bucket
    rw [deleteBucket_fst]
    exact ⟨ix.nodup_listed bucket, h bucket⟩

end Agrees

/-! ## Runs -/

/-- The index can be read in both directions, now and after each of the
    operations. -/
def StaysTwoWay : ExpiryIndex K → List (Operation K) → Prop
  | ix, [] => ix.TwoWay
  | ix, op :: rest => ix.TwoWay ∧ StaysTwoWay (ix.perform op) rest

/-- None of the operations disturbs a key when its turn comes. -/
def Undisturbed : ExpiryIndex K → List (Operation K) → Prop
  | _, [] => True
  | ix, op :: rest => ¬op.Disturbs ix ∧ Undisturbed (ix.perform op) rest

instance decidableUndisturbed :
    (ix : ExpiryIndex K) → (ops : List (Operation K)) → Decidable (ix.Undisturbed ops)
  | _, [] => isTrue trivial
  | ix, op :: rest =>
      have := decidableUndisturbed (ix.perform op) rest
      inferInstanceAs (Decidable (¬op.Disturbs ix ∧ Undisturbed (ix.perform op) rest))

theorem StaysTwoWay.head {ix : ExpiryIndex K} {ops : List (Operation K)}
    (h : ix.StaysTwoWay ops) : ix.TwoWay := by
  cases ops with
  | nil => exact h
  | cons op rest => exact h.1

theorem Agrees.staysTwoWay_iff {ix : ExpiryIndex K} (h : ix.Agrees) (ops : List (Operation K)) :
    ix.StaysTwoWay ops ↔ ix.Undisturbed ops := by
  induction ops generalizing ix with
  | nil => exact iff_of_true h.twoWay trivial
  | cons op rest ih =>
      constructor
      · rintro ⟨-, hrest⟩
        have hagrees : (ix.perform op).Agrees := hrest.head.sides
        exact ⟨(h.perform_iff op).mp hagrees, (ih hagrees).mp hrest⟩
      · rintro ⟨hop, hrest⟩
        exact ⟨h.twoWay, (ih ((h.perform_iff op).mpr hop)).mpr hrest⟩

/-- While no key is filed under `noBucket`, none is disturbed. -/
theorem Sound.undisturbed {ix : ExpiryIndex K} (h : ix.Sound) {ops : List (Operation K)}
    (hops : ∀ op ∈ ops, op.StaysInBuckets) : ix.Undisturbed ops := by
  induction ops generalizing ix with
  | nil => trivial
  | cons op rest ih =>
      rw [List.forall_mem_cons] at hops
      refine ⟨?_, ih (h.perform hops.1) hops.2⟩
      cases op with
      | file key bucket hbucket => exact h.isBucket key
      | takeOut key => exact h.isBucket key
      | clear => exact not_false
      | dissolve bucket order elsewhere hleaves => exact not_false

/-- Filing a key answers whether its assignment changes. -/
theorem reindex_moves_iff (ix : ExpiryIndex K) (key : K) (bucket : Int) :
    (ix.reindex key bucket).1 = true ↔
      (ix.reindex key bucket).2.assigned.get? key ≠ ix.assigned.get? key := by
  by_cases hold : ix.bucket key = bucket
  · rw [reindex, if_pos hold]
    exact iff_of_false Bool.false_ne_true fun hne => hne rfl
  · rw [ix.assigned_reindex_of_ne hold, if_pos rfl, reindex, if_neg hold]
    refine iff_of_true rfl ?_
    intro hsame
    rw [ExpiryIndex.bucket, ← hsame] at hold
    exact hold rfl

/-- Whatever is done to a new index, it can be read in both directions after
    each operation if and only if none of them disturbs a key, and so in
    particular if no key of a deleted bucket is filed under `noBucket`.
    Filing a key always answers whether its assignment changes. -/
theorem twoWay_iff_undisturbed (ops : List (Operation K)) :
    ((empty : ExpiryIndex K).StaysTwoWay ops ↔ (empty : ExpiryIndex K).Undisturbed ops) ∧
      ((∀ op ∈ ops, op.StaysInBuckets) → (empty : ExpiryIndex K).StaysTwoWay ops) ∧
      ∀ (ix : ExpiryIndex K) (key : K) (bucket : Int),
        (ix.reindex key bucket).1 = true ↔
          (ix.reindex key bucket).2.assigned.get? key ≠ ix.assigned.get? key := by
  have hiff := agrees_empty.staysTwoWay_iff ops
  refine ⟨hiff, ?_, reindex_moves_iff⟩
  intro hops
  exact hiff.mpr (sound_empty.undisturbed hops)

/-- A key that was filed under `noBucket` is not disturbed if that bucket is
    dissolved before the key is filed again.  And where keys of a dissolved
    bucket go to other buckets or nowhere, none is disturbed later. -/
theorem twoWay_iff_undisturbed_of_returned :
    let order : VisitingOrder Nat := ⟨List.reverse, List.reverse_perm⟩
    let returning : List (Operation Nat) :=
      [.file 1 1000 (by decide), .file 2 1000 (by decide),
        .dissolve 1000 order (fun key => if key = 1 then some noBucket else none)
          (by intro key; split <;> decide),
        .dissolve noBucket order (fun _ => some 3000) (by intro _; decide),
        .file 1 2000 (by decide)]
    let leaving : List (Operation Nat) :=
      [.file 1 1000 (by decide), .file 2 1000 (by decide),
        .dissolve 1000 order (fun key => if key = 1 then some 4000 else none)
          (by intro key; split <;> decide),
        .takeOut 1]
    ((empty : ExpiryIndex Nat).Undisturbed returning ∧
        (empty : ExpiryIndex Nat).StaysTwoWay returning) ∧
      (∀ op ∈ leaving, op.StaysInBuckets) ∧ (empty : ExpiryIndex Nat).StaysTwoWay leaving := by
  intro order returning leaving
  have hreturning : (empty : ExpiryIndex Nat).Undisturbed returning := by decide
  have hleaving : ∀ op ∈ leaving, op.StaysInBuckets := by
    simp only [leaving, List.forall_mem_cons]
    refine ⟨trivial, trivial, ?_, trivial, fun op hop => nomatch hop⟩
    intro key
    show (if key = 1 then some 4000 else none) ≠ some noBucket
    split <;> decide
  exact ⟨⟨hreturning, (twoWay_iff_undisturbed returning).1.mpr hreturning⟩,
    hleaving, (twoWay_iff_undisturbed leaving).2.1 hleaving⟩

/-- A key of a deleted bucket is filed under `noBucket`, and then under a
    bucket again: it is listed in both. -/
theorem listed_twice_after_noBucket :
    let ops : List (Operation Nat) :=
      [.file 1 1000 (by decide),
        .dissolve 1000 ⟨id, fun _ => .refl _⟩ (fun _ => some noBucket) (by intro _; decide),
        .file 1 2000 (by decide)]
    let ix := ops.foldl perform empty
    ¬(empty : ExpiryIndex Nat).StaysTwoWay ops ∧
      ix.assigned.get? 1 = some 2000 ∧ 1 ∈ ix.listed 2000 ∧ 1 ∈ ix.listed noBucket ∧
      ix.size = 1 ∧ (ix.members.values.map Table.size).sum = 2 := by
  intro ops ix
  refine ⟨?_, by decide⟩
  rintro ⟨-, -, -, hlast⟩
  have hsame := hlast.unique 1 2000 noBucket (by decide) (by decide)
  exact absurd hsame (by decide)

end ExpiryIndex

end ExpiringCache
