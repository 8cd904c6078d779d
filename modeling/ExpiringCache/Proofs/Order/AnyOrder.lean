import ExpiringCache.Proofs.Order.Agreement
import ExpiringCache.Proofs.Order.Batch
import Mathlib.Data.List.Perm.Subperm

/-! # What a batch leaves in a cache

    For each moment of each session this file says what a batch makes of the
    entries, in whatever order it is written and however the wall clock is set
    meanwhile.  What is left of the batch has one expiry.  A batch that fits
    is stored as a whole, with the same result in every order; of any other
    batch just as much is left as there is room for, and nothing else.

    Beside a batch that fits, the stored keys that were used last should stay,
    all of them if there is room.  So they do as long as nobody has waited for
    a flight, because the recency list has no other keys then.  In general
    they do if and only if none of them falls off, or no key without an entry
    is among those that the list keeps. -/

namespace ExpiringCache

variable {K V : Type}

/-! ## The hottest keys, of all and of some -/

namespace Recency

theorem length_hottest {capacity : Nat} (hcap : capacity ≠ 0) (count : Nat) (ks : List K) :
    (hottest capacity count ks).length = min ks.length (capacity - count) := by
  rw [hottest, surplus_of_ne hcap, List.length_drop]
  omega

theorem hottest_sublist (capacity count : Nat) (ks : List K) :
    (hottest capacity count ks).Sublist ks := List.drop_sublist _ _

/-- Keys are all kept if they are no more than what is kept of others. -/
theorem hottest_eq_self {capacity : Nat} (hcap : capacity ≠ 0) {count : Nat} {ks : List K}
    (h : ks.length ≤ capacity - count) : hottest capacity count ks = ks := by
  refine (hottest_sublist capacity count ks).eq_of_length ?_
  rw [length_hottest hcap]
  omega

variable {p : K → Bool} {capacity count : Nat} {ks : List K}

/-- The hottest of some keys are those of them that are among the hottest of
    all, if no key is lost by that. -/
theorem hottest_filter_of_none_falls (hnodup : ks.Nodup)
    (h : ∀ k ∈ ks, p k = true → k ∈ hottest capacity count ks) :
    hottest capacity count (ks.filter p) = ks.filter p := by
  by_cases hcap : capacity = 0
  · subst hcap
    rfl
  · refine hottest_eq_self hcap ?_
    have hsub : ks.filter p ⊆ hottest capacity count ks := by
      intro k hk
      obtain ⟨hmem, hp⟩ := List.mem_filter.mp hk
      exact h k hmem hp
    have hle := (List.subperm_of_subset (hnodup.sublist List.filter_sublist) hsub).length_le
    rw [length_hottest hcap] at hle
    omega

/-- They are the hottest of all if these are all among them. -/
theorem hottest_filter_of_all_stay (hcount : capacity ≠ 0 → count ≤ capacity)
    (h : ∀ k ∈ hottest capacity count ks, p k = true) :
    hottest capacity count (ks.filter p) = hottest capacity count ks := by
  by_cases hcap : capacity = 0
  · subst hcap
    exact List.filter_eq_self.mpr h
  · have hcount := hcount hcap
    have hlength := length_hottest hcap count ks
    have hsplit : ks.filter p =
        (ks.take (surplus capacity (ks.length + count))).filter p ++
          hottest capacity count ks := by
      have hall := List.take_append_drop (surplus capacity (ks.length + count)) ks
      have hhot := List.filter_eq_self.mpr h
      conv_lhs => rw [← hall, List.filter_append]
      exact congrArg (_ ++ ·) hhot
    -- the keys before them are no more than those that fell off
    have hcold : ((ks.take (surplus capacity (ks.length + count))).filter p).length ≤
        ks.length + count - capacity := by
      refine Nat.le_trans (List.length_filter_le _ _) ?_
      rw [List.length_take, surplus_of_ne hcap]
      exact Nat.min_le_left _ _
    rw [hsplit]
    generalize (ks.take (surplus capacity (ks.length + count))).filter p = cold at hcold
    generalize hottest capacity count ks = hot at hlength
    have hdrop : surplus capacity ((cold ++ hot).length + count) = cold.length := by
      rw [surplus_of_ne hcap, List.length_append]
      omega
    rw [hottest, hdrop, List.drop_left]

/-- If the hottest keys with `p` are those of the hottest keys that have it, but
    not all of these do, then as many keys with `p` are kept as there are, so none
    falls off. -/
theorem none_falls_of_ghost (hcap : capacity ≠ 0) (hnodup : ks.Nodup)
    (hsame : ∀ k, k ∈ hottest capacity count (ks.filter p) ↔
      k ∈ hottest capacity count ks ∧ p k = true)
    (hghost : ∃ k ∈ hottest capacity count ks, p k ≠ true) :
    ∀ k ∈ ks, p k = true → k ∈ hottest capacity count ks := by
  have hperm : (hottest capacity count (ks.filter p)).Perm
      ((hottest capacity count ks).filter p) := by
    refine (List.perm_ext_iff_of_nodup ?_ ?_).mpr fun k => ?_
    · exact (hnodup.sublist List.filter_sublist).sublist (hottest_sublist _ _ _)
    · exact (hnodup.sublist (hottest_sublist _ _ _)).sublist List.filter_sublist
    · rw [hsame, List.mem_filter]
  have hkept := hperm.length_eq
  have hless := List.length_filter_lt_length_iff_exists.mpr hghost
  rw [length_hottest hcap] at hkept hless
  have hall : (ks.filter p).length ≤ ((hottest capacity count ks).filter p).length := by omega
  have heq : (hottest capacity count ks).filter p = ks.filter p :=
    ((hottest_sublist capacity count ks).filter p).eq_of_length_le hall
  intro k hk hp
  have hmem : k ∈ (hottest capacity count ks).filter p := by
    rw [heq]
    exact List.mem_filter.mpr ⟨hk, hp⟩
  exact (List.mem_filter.mp hmem).1

/-- The hottest keys with `p` are kept if the hottest keys are, just when none
    with `p` falls off, or all that stay have `p`. -/
theorem mem_hottest_filter_iff (hnodup : ks.Nodup) (hcount : capacity ≠ 0 → count ≤ capacity) :
    (∀ k, k ∈ hottest capacity count (ks.filter p) ↔
        k ∈ hottest capacity count ks ∧ p k = true) ↔
      (∀ k ∈ ks, p k = true → k ∈ hottest capacity count ks) ∨
        ∀ k ∈ hottest capacity count ks, p k = true := by
  constructor
  · intro hsame
    by_cases hcap : capacity = 0
    · subst hcap
      exact Or.inl fun k hk _ => hk
    · by_cases hghost : ∃ k ∈ hottest capacity count ks, p k ≠ true
      · exact Or.inl (none_falls_of_ghost hcap hnodup hsame hghost)
      · refine Or.inr fun k hk => ?_
        by_contra hp
        exact hghost ⟨k, hk, hp⟩
  · rintro (hstays | hall)
    · intro k
      rw [hottest_filter_of_none_falls hnodup hstays, List.mem_filter]
      exact ⟨fun h => ⟨hstays k h.1 h.2, h.2⟩,
        fun h => ⟨(hottest_sublist _ _ _).subset h.1, h.2⟩⟩
    · intro k
      rw [hottest_filter_of_all_stay hcount hall]
      exact ⟨fun hk => ⟨hk, hall k hk⟩, And.left⟩

variable [DecidableEq K]

/-- Only the set of the dropped keys matters. -/
theorem kept_perm {dropped dropped' : List K} (h : dropped.Perm dropped') (ks : List K) :
    kept dropped ks = kept dropped' ks :=
  List.filter_congr fun k _ => by rw [decide_eq_decide.mpr h.mem_iff]

end Recency

/-! ## What is left of a batch, and beside it -/

variable [DecidableEq K]

namespace Cache

/-- The second cache is what a batch of `entries` that expire at `expireAt`
    makes of the first, whose keys are `ks`, coldest first. -/
structure HoldsBatch (c : Cache K V) (capacity : Nat) (ks : List K) (entries : List (K × V))
    (expireAt : Int) (c' : Cache K V) : Prop where
  -- whatever is left of the batch has its value and the one expiry
  batch : ∀ key item, c'.store.item? key = some item → key ∈ entries.map Prod.fst →
    ∃ value, (key, value) ∈ entries ∧ item = ⟨value, expireAt⟩
  -- a batch that fits is there as a whole, and beside it the hottest of the other keys
  whole : (capacity ≠ 0 → entries.length ≤ capacity) →
    ∀ key value, (key, value) ∈ entries → c'.store.item? key = some ⟨value, expireAt⟩
  others : (capacity ≠ 0 → entries.length ≤ capacity) → ∀ key, key ∉ entries.map Prod.fst →
    c'.store.item? key =
      if key ∈ Recency.hottest capacity entries.length (Recency.kept (entries.map Prod.fst) ks)
      then c.store.item? key else none
  -- any other batch fills the cache
  full : capacity ≠ 0 → capacity < entries.length →
    c'.size = capacity ∧ ∀ key ∈ c'.keys, key ∈ entries.map Prod.fst

/-- The other keys that are stored, coldest first. -/
def storedOthers (c : Cache K V) (ks : List K) (entries : List (K × V)) : List K :=
  (Recency.kept (entries.map Prod.fst) ks).filter fun key => (c.store.item? key).isSome

/-- Beside the batch the stored keys that were used last are kept, as they
    were, all of them if there is room. -/
def KeepsHottest (c : Cache K V) (capacity : Nat) (ks : List K) (entries : List (K × V))
    (c' : Cache K V) : Prop :=
  ∀ key, key ∉ entries.map Prod.fst → c'.store.item? key =
    if key ∈ Recency.hottest capacity entries.length (c.storedOthers ks entries)
    then c.store.item? key else none

variable {c c' : Cache K V} {capacity : Nat} {ks : List K} {expireAt : Int}
  {entries order : List (K × V)}

/-- A batch for which there is no room fills the cache: its last keys are
    listed, and these alone. -/
theorem Wrote.full (h : c.Wrote capacity ks expireAt order c')
    (hdistinct : (order.map Prod.fst).Nodup) (hcap : capacity ≠ 0)
    (hlt : capacity < order.length) :
    c'.size = capacity ∧ ∀ key ∈ c'.keys, key ∈ order.map Prod.fst := by
  have hle : capacity ≤ (order.map Prod.fst).length := by
    rw [List.length_map]
    omega
  have hitem := h.item?
  rw [Recency.hottest_append_of_le hcap hle] at hitem
  have hlast := (Recency.hottest_sublist capacity 0 (order.map Prod.fst)).subset
  have hstored : ∀ k, k ∈ c'.keys ↔ k ∈ Recency.hottest capacity 0 (order.map Prod.fst) := by
    intro k
    have hcontains : k ∈ c'.keys ↔ (c'.store.item? k).isSome = true :=
      Table.contains_iff.symm
    rw [hcontains, hitem]
    split
    · rename_i hk
      obtain ⟨value, hvalue⟩ :=
        Option.isSome_iff_exists.mp (Table.find?_isSome.mpr (hlast hk))
      rw [hvalue]
      exact ⟨fun _ => hk, fun _ => rfl⟩
    · rename_i hk
      exact ⟨fun hsome => absurd hsome Bool.false_ne_true, fun hmem => absurd hmem hk⟩
  refine ⟨?_, fun key hkey => hlast ((hstored key).mp hkey)⟩
  have hperm : c'.keys.Perm (Recency.hottest capacity 0 (order.map Prod.fst)) :=
    (List.perm_ext_iff_of_nodup c'.store.items.nodup
      (hdistinct.sublist (Recency.hottest_sublist _ _ _))).mpr hstored
  have hcount : c'.keys.length = c'.size := List.length_map Prod.fst
  rw [← hcount, hperm.length_eq, Recency.length_hottest hcap]
  omega

/-- In whatever order the entries were written, this is what they come to. -/
theorem Wrote.holdsBatch (h : c.Wrote capacity ks expireAt order c')
    (hdistinct : (entries.map Prod.fst).Nodup) (hperm : order.Perm entries) :
    c.HoldsBatch capacity ks entries expireAt c' := by
  have hkeys : (order.map Prod.fst).Perm (entries.map Prod.fst) := hperm.map Prod.fst
  have hodistinct : (order.map Prod.fst).Nodup := hkeys.nodup_iff.mpr hdistinct
  have hlength : (order.map Prod.fst).length = entries.length := by
    rw [List.length_map, hperm.length_eq]
  have hitem := h.item?
  simp only [Table.find?_perm hodistinct hperm, Recency.kept_perm hkeys] at hitem
  have hfits : (capacity ≠ 0 → entries.length ≤ capacity) →
      Recency.hottest capacity 0
          (Recency.kept (entries.map Prod.fst) ks ++ order.map Prod.fst) =
        Recency.hottest capacity entries.length (Recency.kept (entries.map Prod.fst) ks) ++
          order.map Prod.fst := by
    intro hle
    rw [← hlength] at hle ⊢
    exact Recency.hottest_append_of_fits hle _
  refine ⟨fun key item hsome hkey => ?_, fun hle key value hmem => ?_, fun hle key hkey => ?_,
    fun hcap hlt => ?_⟩
  · obtain ⟨value, hvalue⟩ := Option.isSome_iff_exists.mp (Table.find?_isSome.mpr hkey)
    rw [hitem, hvalue] at hsome
    split at hsome
    · cases hsome
      exact ⟨value, (Table.find?_eq_some hdistinct).mp hvalue, rfl⟩
    · cases hsome
  · have hkey : key ∈ order.map Prod.fst :=
      hkeys.mem_iff.mpr (List.mem_map.mpr ⟨(key, value), hmem, rfl⟩)
    rw [hitem, hfits hle, if_pos (List.mem_append.mpr (Or.inr hkey)),
      (Table.find?_eq_some hdistinct).mpr hmem]
    rfl
  · have hnone : Table.find? key entries = none := Table.find?_eq_none.mpr hkey
    have hother : key ∉ order.map Prod.fst := fun hmem => hkey (hkeys.mem_iff.mp hmem)
    rw [hitem, hfits hle, hnone]
    simp only [List.mem_append, hother, or_false]
    rfl
  · rw [← hperm.length_eq] at hlt
    obtain ⟨hsize, hall⟩ := h.full hodistinct hcap hlt
    exact ⟨hsize, fun key hkey => hkeys.mem_iff.mp (hall key hkey)⟩

/-- Whether something is kept under one condition or under another makes no
    difference if there is nothing to keep. -/
theorem keep_eq_keep_iff {α : Type} {p q : Prop} [Decidable p] [Decidable q] (o : Option α) :
    (if p then o else none) = (if q then o else none) ↔ (o.isSome = true → (p ↔ q)) := by
  cases o with
  | none => simp
  | some a => by_cases hp : p <;> by_cases hq : q <;> simp [hp, hq]

namespace HoldsBatch

variable {d' : Cache K V}

/-- A batch that fits leads to the same entries in every order. -/
theorem perm (h : c.HoldsBatch capacity ks entries expireAt c')
    (h' : c.HoldsBatch capacity ks entries expireAt d')
    (hfits : capacity ≠ 0 → entries.length ≤ capacity) :
    c'.store.items.entries.Perm d'.store.items.entries := by
  refine Table.perm_of_find? c'.store.items.nodup d'.store.items.nodup fun key => ?_
  show c'.store.item? key = d'.store.item? key
  by_cases hkey : key ∈ entries.map Prod.fst
  · obtain ⟨⟨k, value⟩, hmem, rfl⟩ := List.mem_map.mp hkey
    rw [h.whole hfits _ value hmem, h'.whole hfits _ value hmem]
  · rw [h.others hfits key hkey, h'.others hfits key hkey]

/-- Beside a batch that fits, the stored keys that were used last are kept,
    just when none of them falls off or none of the keys that are kept in the
    list lacks an entry. -/
theorem keepsHottest_iff (h : c.HoldsBatch capacity ks entries expireAt c') (hnodup : ks.Nodup)
    (hfits : capacity ≠ 0 → entries.length ≤ capacity) :
    c.KeepsHottest capacity ks entries c' ↔
      (∀ key ∈ c.storedOthers ks entries, key ∈ Recency.hottest capacity entries.length
        (Recency.kept (entries.map Prod.fst) ks)) ∨
      ∀ key ∈ Recency.hottest capacity entries.length (Recency.kept (entries.map Prod.fst) ks),
        (c.store.item? key).isSome = true := by
  have hkept : (Recency.kept (entries.map Prod.fst) ks).Nodup :=
    hnodup.sublist List.filter_sublist
  have hiff := Recency.mem_hottest_filter_iff
    (p := fun key => (c.store.item? key).isSome) hkept hfits
  have hother : ∀ key ∈ Recency.kept (entries.map Prod.fst) ks, key ∉ entries.map Prod.fst := by
    intro key hkey
    simpa using (List.mem_filter.mp hkey).2
  have hhot : ∀ key ∈ Recency.hottest capacity entries.length (c.storedOthers ks entries),
      key ∉ entries.map Prod.fst ∧ (c.store.item? key).isSome = true := by
    intro key hkey
    obtain ⟨hmem, hsome⟩ := List.mem_filter.mp ((Recency.hottest_sublist _ _ _).subset hkey)
    exact ⟨hother key hmem, hsome⟩
  have hothers := h.others hfits
  unfold storedOthers at hhot ⊢
  unfold KeepsHottest storedOthers
  simp only [List.mem_filter, and_imp] at hiff ⊢
  rw [← hiff]
  -- of each other key the item is what it was or none, so only keys with an item matter
  constructor
  · intro hkeeps key
    constructor
    · intro hkey
      obtain ⟨hnew, hsome⟩ := hhot key hkey
      have hsame := (hothers key hnew).symm.trans (hkeeps key hnew)
      exact ⟨((keep_eq_keep_iff _).mp hsame hsome).mpr hkey, hsome⟩
    · rintro ⟨hkey, hsome⟩
      have hnew := hother key ((Recency.hottest_sublist _ _ _).subset hkey)
      have hsame := (hothers key hnew).symm.trans (hkeeps key hnew)
      exact ((keep_eq_keep_iff _).mp hsame hsome).mp hkey
  · intro hsame key hnew
    rw [hothers key hnew, keep_eq_keep_iff]
    intro hsome
    rw [hsame key]
    exact (and_iff_left hsome).symm

end HoldsBatch

/-- Where the recency list has just the stored keys, those that were used last
    are kept. -/
theorem HoldsBatch.keepsHottest (h : c.HoldsBatch capacity ks entries expireAt c')
    (hordered : c.Ordered capacity ks) (hfits : capacity ≠ 0 → entries.length ≤ capacity) :
    c.KeepsHottest capacity ks entries c' :=
  (h.keepsHottest_iff hordered.nodup hfits).mpr <| Or.inr fun key hkey =>
    (hordered.stored key).mp
      (List.mem_filter.mp ((Recency.hottest_sublist _ _ _).subset hkey)).1

end Cache

/-! ## Batches in a session -/

namespace Session

/-- At every moment of every session, and for every batch of distinct keys
    whose lifetime is not negative: in whatever order it is stored, and however
    the wall clock is set meanwhile, it has one expiry, and if it fits, the
    entries are the same in the end.

    Beside a batch that fits, the stored keys that were used last are kept if
    and only if none of them falls off or the list keeps no key without an
    entry, and so they are if nobody has gone on after having waited. -/
theorem batch_in_any_order (capacity : Nat) (clock : Clock) (moves : List (Move K V))
    {ttl : Duration} (httl : ttl.isNegative = false) {entries : List (K × V)}
    (hdistinct : (entries.map Prod.fst).Nodup) {c : Cache K V}
    (hreached : c = ((fresh capacity clock).run moves).cache) :
    (∀ order, c.StoresBatch ttl order (c.putAll order ttl)) ∧
      ∃ ks, c.Covers capacity ks ∧ ∀ order c', order.Perm entries → c.StoresBatch ttl order c' →
        c.HoldsBatch capacity ks entries (expiryFrom c.now ttl) c' ∧
        ((capacity ≠ 0 → entries.length ≤ capacity) →
          c'.store.items.entries.Perm (c.putAll entries ttl).store.items.entries ∧
          (c.KeepsHottest capacity ks entries c' ↔
            (∀ key ∈ c.storedOthers ks entries, key ∈ Recency.hottest capacity entries.length
              (Recency.kept (entries.map Prod.fst) ks)) ∨
            ∀ key ∈ Recency.hottest capacity entries.length
              (Recency.kept (entries.map Prod.fst) ks), (c.store.item? key).isSome = true) ∧
          ((∀ move ∈ moves, move.Direct) → c.KeepsHottest capacity ks entries c')) := by
  refine ⟨fun order => c.storesBatch_putAll httl order, ?_⟩
  have hstart : (fresh capacity clock : Session K V).cache.Ordered capacity [] :=
    Cache.ordered_new capacity clock
  -- without a caller that has waited the order of use is that of the stored keys
  obtain ⟨ks, hcovers, hordered⟩ : ∃ ks, c.Covers capacity ks ∧
      ((∀ move ∈ moves, move.Direct) → c.Ordered capacity ks) := by
    by_cases hdirect : ∀ move ∈ moves, move.Direct
    · obtain ⟨ks, hordered⟩ := agrees_run ⟨[], hstart⟩ hdirect
      rw [← hreached] at hordered
      exact ⟨ks, hordered.covers, fun _ => hordered⟩
    · obtain ⟨ks, hcovers⟩ := covers_run hstart.covers moves
      rw [← hreached] at hcovers
      exact ⟨ks, hcovers, fun h => absurd h hdirect⟩
  have hholds : ∀ order c', order.Perm entries → c.StoresBatch ttl order c' →
      c.HoldsBatch capacity ks entries (expiryFrom c.now ttl) c' := by
    intro order c' hperm hstores
    have hodistinct : (order.map Prod.fst).Nodup :=
      (hperm.map Prod.fst).nodup_iff.mpr hdistinct
    exact (hcovers.wrote hodistinct hstores).holdsBatch hdistinct hperm
  refine ⟨ks, hcovers, fun order c' hperm hstores => ?_⟩
  have hbatch := hholds order c' hperm hstores
  have hgiven := hholds entries _ (List.Perm.refl entries) (c.storesBatch_putAll httl entries)
  exact ⟨hbatch, fun hfits => ⟨hbatch.perm hgiven hfits,
    hbatch.keepsHottest_iff hcovers.nodup hfits,
    fun hdirect => hbatch.keepsHottest (hordered hdirect) hfits⟩⟩

/-- Three keys have been stored. -/
def threeStored : List (Move Nat Nat) :=
  [.begin (.put 1 10 .zero), .begin (.put 2 20 .zero), .begin (.put 3 30 .zero)]

/-- In a cache for three entries a batch gives the first key another value and
    adds a fourth.  If the fourth is written first, the first falls off and is
    stored again; the entries are the same in the end, and the third key is
    kept. -/
theorem batch_in_any_order_of_rewritten :
    Duration.zero.isNegative = false ∧ (([(1, 11), (4, 40)] : List (Nat × Nat)).map Prod.fst).Nodup ∧
      (((fresh 3 (.unread 100)).run threeStored).cache.write 4 40 never).keys = [2, 3, 4] ∧
      (((fresh 3 (.unread 100)).run threeStored).cache.putAll
          [(4, 40), (1, 11)] .zero).store.items.entries.Perm
        (((fresh 3 (.unread 100)).run threeStored).cache.putAll
          [(1, 11), (4, 40)] .zero).store.items.entries ∧
      ∃ ks, ((fresh 3 (.unread 100)).run threeStored).cache.KeepsHottest 3 ks [(1, 11), (4, 40)]
        (((fresh 3 (.unread 100)).run threeStored).cache.putAll [(4, 40), (1, 11)] .zero) := by
  have hlasting : Duration.zero.isNegative = false := by decide
  have hdistinct : (([(1, 11), (4, 40)] : List (Nat × Nat)).map Prod.fst).Nodup := by decide
  obtain ⟨hstores, ks, -, hany⟩ :=
    batch_in_any_order 3 (.unread 100) threeStored hlasting hdistinct rfl
  obtain ⟨-, hsame⟩ := hany [(4, 40), (1, 11)] _ (List.Perm.swap ..) (hstores _)
  obtain ⟨hperm, -, hkeeps⟩ := hsame fun _ => by decide
  refine ⟨hlasting, hdistinct, by decide +kernel, hperm, ks, hkeeps fun move hmove => ?_⟩
  simp only [threeStored, List.mem_cons, List.not_mem_nil, or_false] at hmove
  rcases hmove with rfl | rfl | rfl
  all_goals trivial

/-- A value that is not to be stored is handed to a caller that has waited for
    it. -/
def handedOver : List (Move Nat Nat) :=
  [.begin (.put 1 10 .zero), .begin (.getOrPutFrom 2 ⟨-1000000, by decide⟩ true),
    .begin (.getOrPutFrom 2 .zero true), .finish 0 (.value 20), .resume 0 (some (some 20))]

/-- There is one entry in a cache for two, a batch of one other is stored, and
    the entry is lost: the list keeps the key that was handed over. -/
theorem lost_beside_fitting_batch :
    ((fresh 2 (.unread 100)).run handedOver).cache.keys = [1] ∧
      (((fresh 2 (.unread 100)).run handedOver).cache.putAll [(3, 30)] .zero).keys = [3] := by
  decide +kernel

end Session

end ExpiringCache
