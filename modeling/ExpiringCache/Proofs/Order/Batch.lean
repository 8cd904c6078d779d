import ExpiringCache.Proofs.Capacity.Inclusion
import ExpiringCache.Proofs.Order.Covered

/-! # A batch is stored in any order

    The entries of a batch are written one after another, and each write
    marks its key as used.  On the way a key may fall off that is written
    again later, and which ones do depends on the order.  In the end it does
    not: the keys that the cache ranks are the hottest ones of all others
    followed by the batch, so as long as the batch fits, they differ only in
    the order of the batch itself.

    Beside the batch the hottest of the other keys stay, as many as there is
    room for.  But a key that is ranked without being stored takes up room,
    too, so a stored one may fall off although there are few of them. -/

namespace ExpiringCache

variable {K V : Type}

/-! ## The hottest keys of a list -/

namespace Recency

/-- The hottest of some keys, coldest first, as many as there is room for
    beside `count` others. -/
def hottest (capacity count : Nat) (ks : List K) : List K :=
  ks.drop (surplus capacity (ks.length + count))

theorem hottest_of_fits {capacity : Nat} {ks : List K}
    (h : capacity ≠ 0 → ks.length ≤ capacity) : hottest capacity 0 ks = ks := by
  have hnone : surplus capacity (ks.length + 0) = 0 := by
    rw [surplus]
    split
    · rfl
    · rename_i hcap
      exact Nat.sub_eq_zero_of_le (h hcap)
  rw [hottest, hnone, List.drop_zero]

/-- Keys that fit at the hot end stay, whatever comes before them. -/
theorem hottest_append_of_fits {capacity : Nat} {more : List K}
    (h : capacity ≠ 0 → more.length ≤ capacity) (ks : List K) :
    hottest capacity 0 (ks ++ more) = hottest capacity more.length ks ++ more := by
  have hfew : surplus capacity (ks.length + more.length) ≤ ks.length := by
    rw [surplus]
    split
    · exact Nat.zero_le _
    · rename_i hcap
      have hmore := h hcap
      omega
  rw [hottest, hottest, List.length_append]
  exact List.drop_append_of_le_length hfew

/-- Keys that fill the capacity leave no room for what comes before them. -/
theorem hottest_append_of_le {capacity : Nat} (hcap : capacity ≠ 0) {more : List K}
    (h : capacity ≤ more.length) (ks : List K) :
    hottest capacity 0 (ks ++ more) = hottest capacity 0 more := by
  have hcold : surplus capacity ((ks ++ more).length + 0) =
      ks.length + surplus capacity (more.length + 0) := by
    rw [surplus_of_ne hcap, surplus_of_ne hcap, List.length_append]
    omega
  rw [hottest, hcold, List.drop_append, hottest, Nat.add_sub_cancel_left,
    List.drop_of_length_le (Nat.le_add_right ..), List.nil_append]

variable [DecidableEq K]

theorem used_eq_hottest (capacity : Nat) (key : K) (ks : List K) :
    used capacity key ks = hottest capacity 0 (others key ks ++ [key]) := by
  rw [used, hottest, List.length_append]
  rfl

theorem length_le_others {ks : List K} (h : ks.Nodup) (key : K) :
    ks.length ≤ (others key ks).length + 1 := by
  by_cases hkey : key ∈ ks
  · obtain ⟨pre, post, rfl⟩ := List.append_of_mem hkey
    rw [others_split h, List.length_append, List.length_append, List.length_cons]
    omega
  · rw [others_eq_self hkey]
    omega

/-- What has fallen off before a key is used would fall off then. -/
theorem used_hottest {ks : List K} (h : ks.Nodup) (capacity : Nat) (key : K) :
    used capacity key (hottest capacity 0 ks) =
      hottest capacity 0 (others key ks ++ [key]) := by
  by_cases hfits : capacity ≠ 0 → ks.length ≤ capacity
  · rw [hottest_of_fits hfits, used_eq_hottest]
  · rw [Classical.not_imp, Nat.not_le] at hfits
    obtain ⟨hcap, hmany⟩ := hfits
    -- what is left of the list fills the capacity, and does so with the key at its end
    have hsplit : ks.take (surplus capacity (ks.length + 0)) ++ hottest capacity 0 ks = ks :=
      List.take_append_drop ..
    have hnodup : (hottest capacity 0 ks).Nodup := h.sublist (List.drop_sublist _ _)
    have hlength : (hottest capacity 0 ks).length = capacity := by
      rw [hottest, surplus_of_ne hcap, List.length_drop]
      omega
    have hfull : capacity ≤ (others key (hottest capacity 0 ks) ++ [key]).length := by
      have hle := length_le_others hnodup key
      rw [List.length_append, List.length_singleton]
      omega
    have hothers : others key ks =
        others key (ks.take (surplus capacity (ks.length + 0))) ++
          others key (hottest capacity 0 ks) := by
      rw [others, others, others, ← List.filter_append, hsplit]
    rw [used_eq_hottest, hothers, List.append_assoc, hottest_append_of_le hcap hfull]

/-- A key that is used after some others follows them at the hot end. -/
theorem others_kept_append {key : K} {done : List K} (h : key ∉ done) (ks : List K) :
    others key (kept done ks ++ done) = kept (done ++ [key]) ks ++ done := by
  have hdone := others_eq_self h
  unfold others at hdone
  rw [others, List.filter_append, hdone, kept, kept, List.filter_filter]
  congr 1
  refine List.filter_congr fun k _ => ?_
  simp only [List.mem_append, List.mem_singleton, Bool.decide_or, Bool.not_or]
  exact Bool.and_comm _ _

theorem nodup_kept_append {ks done : List K} (h : ks.Nodup) (hdone : done.Nodup) :
    (kept done ks ++ done).Nodup := by
  rw [List.nodup_append]
  refine ⟨h.sublist List.filter_sublist, hdone, fun a ha b hb hab => ?_⟩
  rw [kept, List.mem_filter, hab] at ha
  simp [hb] at ha

end Recency

/-! ## Writing a batch -/

variable [DecidableEq K]

namespace Cache

/-- Writing some entries one after another, all with the same expiry, leads
    from the first cache to the second; meanwhile the wall clock may be set
    any number of times. -/
inductive Writes (expireAt : Int) : Cache K V → List (K × V) → Cache K V → Prop where
  | done (c : Cache K V) : Writes expireAt c [] c
  | write {c c' : Cache K V} (key : K) (value : V) {rest : List (K × V)}
      (h : Writes expireAt (c.write key value expireAt) rest c') :
      Writes expireAt c ((key, value) :: rest) c'
  | setWall {c c' : Cache K V} (wall : Int) {rest : List (K × V)}
      (h : Writes expireAt { c with clock := c.clock.setTo wall } rest c') :
      Writes expireAt c rest c'

theorem writes_foldl (c : Cache K V) (expireAt : Int) (entries : List (K × V)) :
    Writes expireAt c entries
      (entries.foldl (fun c entry => c.write entry.1 entry.2 expireAt) c) := by
  induction entries generalizing c with
  | nil => exact .done c
  | cons entry rest ih => exact .write entry.1 entry.2 (ih _)

/-- Storing a batch in the given order may lead from the first cache to the
    second: its expiry is fixed, and then its entries are written. -/
def StoresBatch (c : Cache K V) (ttl : Duration) (order : List (K × V)) (c' : Cache K V) : Prop :=
  Writes (c.expiryFrom ttl).1 (c.expiryFrom ttl).2 order c'

/-- It does so if the wall clock is left alone. -/
theorem storesBatch_putAll (c : Cache K V) {ttl : Duration} (httl : ttl.isNegative = false)
    (entries : List (K × V)) : c.StoresBatch ttl entries (c.putAll entries ttl) := by
  rw [putAll, if_neg (by rw [httl]; exact Bool.false_ne_true)]
  exact writes_foldl _ _ entries

/-- The cache after the entries `done` were written: their keys follow the
    others at the hot end, as far as there is room, and what is listed is what
    was stored before, or written. -/
structure Wrote (c : Cache K V) (capacity : Nat) (ks : List K) (expireAt : Int)
    (done : List (K × V)) (c' : Cache K V) : Prop where
  covers : c'.Covers capacity
    (Recency.hottest capacity 0 (Recency.kept (done.map Prod.fst) ks ++ done.map Prod.fst))
  item? : ∀ k, c'.store.item? k =
    if k ∈ Recency.hottest capacity 0
        (Recency.kept (done.map Prod.fst) ks ++ done.map Prod.fst) then
      ((Table.find? k done).map fun value => ⟨value, expireAt⟩).or (c.store.item? k)
    else none

namespace Wrote

variable {c c' : Cache K V} {capacity : Nat} {ks : List K} {expireAt : Int}
  {done : List (K × V)}

/-- Before the first write the cache is as it was. -/
theorem start (h : c.Covers capacity ks) (hcap : c'.capacity = c.capacity)
    (hrecency : c'.recency = c.recency) (hitem : ∀ k, c'.store.item? k = c.store.item? k) :
    c.Wrote capacity ks expireAt [] c' := by
  have hall : Recency.hottest capacity 0 (Recency.kept [] ks ++ []) = ks := by
    have hkept : Recency.kept [] ks = ks := List.filter_eq_self.mpr fun _ _ => by simp
    rw [List.append_nil, hkept, Recency.hottest_of_fits h.room]
  refine ⟨?_, fun k => ?_⟩
  · show c'.Covers capacity (Recency.hottest capacity 0 (Recency.kept [] ks ++ []))
    rw [hall]
    exact h.same hcap hrecency fun k hk => hitem k ▸ hk
  · show c'.store.item? k = if k ∈ Recency.hottest capacity 0 (Recency.kept [] ks ++ []) then
      _ else _
    rw [hall, hitem]
    split
    · rfl
    · rename_i hk
      exact Option.not_isSome_iff_eq_none.mp fun hsome => hk (h.listed k hsome)

/-- A write of a key that has not been written yet. -/
theorem write (h : c.Wrote capacity ks expireAt done c') (hks : ks.Nodup) {key : K} {value : V}
    (hdone : ((done ++ [(key, value)]).map Prod.fst).Nodup) :
    c.Wrote capacity ks expireAt (done ++ [(key, value)]) (c'.write key value expireAt) := by
  rw [List.map_append, List.map_singleton] at hdone
  have hnew : key ∉ done.map Prod.fst := fun hmem =>
    List.disjoint_of_nodup_append hdone hmem (List.mem_singleton.mpr rfl)
  have hold : (done.map Prod.fst).Nodup := hdone.sublist (List.sublist_append_left _ _)
  have hused : Recency.used capacity key (Recency.hottest capacity 0
      (Recency.kept (done.map Prod.fst) ks ++ done.map Prod.fst)) =
        Recency.hottest capacity 0 (Recency.kept ((done ++ [(key, value)]).map Prod.fst) ks ++
          (done ++ [(key, value)]).map Prod.fst) := by
    rw [Recency.used_hottest (Recency.nodup_kept_append hks hold),
      Recency.others_kept_append hnew, List.map_append, List.map_singleton, List.append_assoc]
  have hfind : Table.find? key done = none := Table.find?_eq_none.mpr hnew
  refine ⟨?_, fun k => ?_⟩
  · rw [← hused]
    exact h.covers.store key ⟨value, expireAt⟩ (c'.notices.push key expireAt)
  · have hitem := h.item? k
    have hranks : Ranks { c' with
        store := c'.store.set key ⟨value, expireAt⟩
        notices := c'.notices.push key expireAt } _ := h.covers.ranks.same rfl rfl
    rw [← hused, Cache.write, item?_touch, hranks.evicts, h.covers.bounded, Store.item?_set]
    simp only [Recency.mem_used h.covers.nodup]
    generalize Recency.hottest capacity 0
      (Recency.kept (done.map Prod.fst) ks ++ done.map Prod.fst) = listed at hitem ⊢
    split
    · rename_i hfalls
      rw [if_neg fun hstays => hstays.1 hfalls]
    · rename_i hstays
      by_cases hk : key = k
      · subst hk
        rw [if_pos rfl, if_pos ⟨hstays, Or.inl rfl⟩, Table.find?_append, hfind]
        simp [Table.find?]
      · have hothers : Table.find? k (done ++ [(key, value)]) = Table.find? k done := by
          rw [Table.find?_append]
          simp [Table.find?, hk]
        have hlisted : (k = key ∨ k ∈ listed) ↔ k ∈ listed := or_iff_right fun e => hk e.symm
        rw [if_neg hk, hitem, hothers]
        simp only [hlisted, hstays, not_false_eq_true, true_and]

/-- Writing the rest of the batch completes it. -/
theorem writes (h : c.Wrote capacity ks expireAt done c') (hks : ks.Nodup)
    {rest : List (K × V)} {d : Cache K V} (hwrites : Writes expireAt c' rest d)
    (hdistinct : ((done ++ rest).map Prod.fst).Nodup) :
    c.Wrote capacity ks expireAt (done ++ rest) d := by
  induction hwrites generalizing done with
  | done c' =>
      rw [List.append_nil]
      exact h
  | write key value _ ih =>
      rw [List.append_cons] at hdistinct ⊢
      refine ih (h.write hks ?_) hdistinct
      rw [List.map_append] at hdistinct
      exact hdistinct.sublist (List.sublist_append_left _ _)
  | setWall wall _ ih =>
      exact ih ⟨h.covers.same rfl rfl fun _ => id, h.item?⟩ hdistinct

end Wrote

/-- What a batch has come to, in whatever order its entries were written. -/
theorem Covers.wrote {c c' : Cache K V} {capacity : Nat} {ks : List K}
    (h : c.Covers capacity ks) {ttl : Duration} {order : List (K × V)}
    (hdistinct : (order.map Prod.fst).Nodup) (hstores : c.StoresBatch ttl order c') :
    c.Wrote capacity ks (ExpiringCache.expiryFrom c.now ttl) order c' := by
  have hfixed : c.Wrote capacity ks (c.expiryFrom ttl).1 [] (c.expiryFrom ttl).2 := by
    rw [Cache.expiryFrom]
    split
    · exact .start h rfl rfl fun _ => rfl
    · exact .start h rfl rfl fun _ => rfl
  exact hfixed.writes h.nodup hstores hdistinct

end Cache

end ExpiringCache
