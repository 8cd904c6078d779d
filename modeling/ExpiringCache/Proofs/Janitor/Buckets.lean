import ExpiringCache.Proofs.EntryList
import ExpiringCache.Proofs.Janitor.Held
import ExpiringCache.Proofs.Janitor.Prompt
import Mathlib.Data.List.Perm.Subperm

/-! # How many buckets there are

    After a sweep the keys that the index lists are those that are stored,
    each in the bucket of its expiry.  So of the buckets that list keys there
    are never more than stored keys.  But a bucket stays when its keys have
    gone, and each refresh of an expiry may leave one behind.

    Which buckets are there can be told from the run: a bucket is held if
    some sweep has filed a key under it and no sweep from then on has visited
    it, unless the cache was cleared meanwhile.  While sweeps come often
    enough none gets behind them, so a bucket without keys waits for the
    sweep that reaches it, and up to any instant there are at most as many
    buckets as seconds from now. -/

namespace ExpiringCache

variable {K V : Type}

namespace ExpiryIndex

/-- The buckets that list a key. -/
def occupied (ix : ExpiryIndex K) : List Int :=
  ix.members.keys.filter fun b => !(ix.listed b).isEmpty

/-- The buckets with labels up to the given one. -/
def upTo (ix : ExpiryIndex K) (label : Int) : List Int :=
  ix.members.keys.filter fun b => decide (b ≤ label)

end ExpiryIndex

variable [DecidableEq K]

/-! ## Buckets with keys -/

namespace Cache.Settled

variable {c : Cache K V}

/-- A bucket lists the stored keys that expire in it. -/
theorem mem_listed_iff (h : c.Settled) {b : Int} {key : K} :
    key ∈ c.index.listed b ↔
      ∃ item, c.store.item? key = some item ∧ bucketOf item.expireAt = b := by
  rw [h.listed, h.assigned, Option.map_eq_some_iff]

/-- As many keys are assigned as are stored. -/
theorem size_index (h : c.Settled) : c.index.size = c.size := by
  have hkeys : c.index.assigned.keys.Perm c.store.items.keys := by
    refine (List.perm_ext_iff_of_nodup c.index.assigned.nodup c.store.items.nodup).mpr fun key => ?_
    show key ∈ c.index.assigned.keys ↔ key ∈ c.store.items.keys
    rw [← Table.contains_iff, ← Table.contains_iff, Table.contains, Table.contains, h.assigned,
      Option.isSome_map]
    rfl
  have hlength := hkeys.length_eq
  rw [Table.keys, Table.keys, List.length_map, List.length_map] at hlength
  exact hlength

/-- Each bucket that lists a key has a key assigned to it. -/
theorem length_occupied_le (h : c.Settled) : c.index.occupied.length ≤ c.index.size := by
  have hsubset : c.index.occupied ⊆ c.index.assigned.values := by
    intro b hb
    obtain ⟨-, hkeys⟩ := List.mem_filter.mp hb
    obtain ⟨key, hkey⟩ : ∃ key, key ∈ c.index.listed b := by
      refine List.exists_mem_of_ne_nil _ fun hnil => ?_
      rw [hnil] at hkeys
      exact absurd hkeys Bool.false_ne_true
    have hfound := (Table.find?_eq_some c.index.assigned.nodup).mp ((h.listed b key).mp hkey)
    exact List.mem_map_of_mem hfound
  have hnodup : c.index.occupied.Nodup := c.index.members.nodup.sublist List.filter_sublist
  have hlength := (List.subperm_of_subset hnodup hsubset).length_le
  rw [Table.values, List.length_map] at hlength
  exact hlength

end Cache.Settled

namespace Session

/-! ## Which buckets are held -/

/-- Of all moves only sweeps touch the index, and clearing the cache. -/
theorem index_step {s : Session K V} (h : s.Bounded) {move : Move K V}
    (hsweep : ∀ order, move ≠ .sweep order) (hclear : move ≠ .begin .clear) :
    (s.step move).cache.index = s.cache.index := by
  by_cases hwall : ∃ wall, move = .setWall wall
  · obtain ⟨wall, rfl⟩ := hwall
    rfl
  · exact (noted_step h hclear hsweep fun wall e => hwall ⟨wall, e⟩).2.index

/-- In the course of the run a sweep files a key under the bucket; from then
    on the cache is not cleared, and neither this sweep nor any later one
    visits the bucket. -/
def Opens (s : Session K V) (moves : List (Move K V)) (b : Int) : Prop :=
  ∃ before order after, moves = before ++ .sweep order :: after ∧
    (s.run before).cache.Files (s.run before).cache.now b ∧ Move.begin .clear ∉ after ∧
    ∀ time ∈ (s.run before).sweepTimes (.sweep order :: after), b ∉ Cache.window time

theorem not_opens_nil (s : Session K V) (b : Int) : ¬s.Opens [] b := by
  rintro ⟨before, order, after, hmoves, -⟩
  exact absurd hmoves (by simp)

/-- One move more: a sweep may open the bucket, the cache may be cleared, and
    a sweep may visit the bucket. -/
theorem opens_concat {s : Session K V} {moves : List (Move K V)} {move : Move K V} {b : Int} :
    s.Opens (moves ++ [move]) b ↔
      (((∃ order, move = .sweep order) ∧
            (s.run moves).cache.Files (s.run moves).cache.now b) ∨
          s.Opens moves b ∧ move ≠ .begin .clear) ∧
        ∀ time ∈ (s.run moves).sweepTimes [move], b ∉ Cache.window time := by
  constructor
  · rintro ⟨before, order, after, hmoves, hfiles, hclear, hout⟩
    rcases List.eq_nil_or_concat' after with rfl | ⟨after, last, rfl⟩
    · -- the sweep that files the key is the last move
      obtain ⟨rfl, hlast⟩ := List.append_inj' hmoves rfl
      cases hlast
      exact ⟨Or.inl ⟨⟨order, rfl⟩, hfiles⟩, hout⟩
    · rw [← List.cons_append, ← List.append_assoc] at hmoves
      obtain ⟨rfl, hlast⟩ := List.append_inj' hmoves rfl
      cases hlast
      rw [List.mem_append, not_or, List.mem_singleton] at hclear
      rw [← List.cons_append, sweepTimes_append, List.forall_mem_append] at hout
      rw [run_append]
      exact ⟨Or.inr ⟨⟨before, order, after, rfl, hfiles, hclear.1, hout.1⟩,
        fun e => hclear.2 e.symm⟩, hout.2⟩
  · rintro ⟨⟨⟨order, rfl⟩, hfiles⟩ | ⟨⟨before, order, after, rfl, hfiles, hclear, hout⟩, hmove⟩,
      hlast⟩
    · exact ⟨moves, order, [], rfl, hfiles, List.not_mem_nil, hlast⟩
    · rw [run_append] at hlast
      refine ⟨before, order, after ++ [move], ?_, hfiles, ?_, ?_⟩
      · rw [← List.cons_append, ← List.append_assoc]
      · rw [List.mem_append, not_or, List.mem_singleton]
        exact ⟨hclear, fun e => hmove e.symm⟩
      · rw [← List.cons_append, sweepTimes_append, List.forall_mem_append]
        exact ⟨hout, hlast⟩

/-- At every moment of a session with a new cache, the buckets are held that
    the run so far has opened. -/
theorem holds_run (capacity : Nat) (clock : Clock) {moves : List (Move K V)}
    (hearly : ∀ time ∈ (fresh capacity clock : Session K V).sweepTimes moves,
      earliestSweep ≤ time) (b : Int) :
    ((fresh capacity clock : Session K V).run moves).cache.index.Holds b ↔
      (fresh capacity clock : Session K V).Opens moves b := by
  induction moves using List.reverseRecOn with
  | nil =>
      exact iff_of_false ExpiryIndex.not_holds_empty (not_opens_nil _ b)
  | append_singleton moves move ih =>
      rw [sweepTimes_append, List.forall_mem_append] at hearly
      have hkept := (kept_fresh (K := K) (V := V) capacity clock).run hearly.1
      rw [opens_concat, ← ih hearly.1, run_append]
      show (((fresh capacity clock : Session K V).run moves).step move).cache.index.Holds b ↔ _
      by_cases hsweep : ∃ order, move = .sweep order
      · obtain ⟨order, rfl⟩ := hsweep
        have hswept := Cache.holds_swept (b := b) hkept.filed (hearly.2 _ List.mem_cons_self) order
        refine hswept.trans (and_congr (or_congr ?_ ?_) ?_)
        · exact (and_iff_right ⟨order, rfl⟩).symm
        · exact (and_iff_left nofun).symm
        · exact (List.forall_mem_singleton (p := fun time => b ∉ Cache.window time)).symm
      · have hquiet : ∀ time ∈ ((fresh capacity clock : Session K V).run moves).sweepTimes [move],
            b ∉ Cache.window time := by
          rcases (step_cases hkept.calls move).2 with hsweep' | ⟨hnone, -⟩
          · exact absurd hsweep' hsweep
          · rw [hnone]
            exact fun time htime => nomatch htime
        rw [and_iff_left hquiet, or_iff_right fun h => hsweep h.1]
        by_cases hclear : move = .begin .clear
        · subst hclear
          exact iff_of_false ExpiryIndex.not_holds_empty fun h => h.2 rfl
        · rw [index_step hkept.calls (fun order e => hsweep ⟨order, e⟩) hclear]
          exact (and_iff_left hclear).symm

/-! ## How far ahead they lie -/

/-- A key is filed under the label of some instant, and unless that is passed
    at once, it is not behind the sweep. -/
theorem ahead_of_files {c : Cache K V} (hitems : c.Bounded) (hearly : earliestSweep ≤ c.now)
    {b : Int} (hfiles : c.Files c.now b) (hout : b ∉ Cache.window c.now)
    (hnever : b ≤ bucketOf never) :
    ∃ instant ≤ never, bucketOf instant = b ∧ bucketOf c.now ≤ b := by
  obtain ⟨notice, -, hfiling⟩ := hfiles
  rw [Cache.filing?, Option.map_eq_some_iff] at hfiling
  obtain ⟨item, hlive, rfl⟩ := hfiling
  obtain ⟨hitem, hafter⟩ := Store.live?_eq_some.mp hlive
  have hbound := hitems notice.key item.expireAt (Cache.expiry?_eq_some hitem)
  split at hout
  · rename_i hold
    rw [if_pos hold] at hnever ⊢
    exact ⟨item.expireAt, hbound, rfl, bucketOf_mono (by omega)⟩
  · rename_i hnew
    rw [if_neg hnew] at hnever ⊢
    -- beyond `never` all instants that are not later have the label of `never`
    obtain ⟨instant, hle, hlabel⟩ :
        ∃ instant ≤ never, bucketOf instant = bucketOf notice.expireAt := by
      by_cases hle : notice.expireAt ≤ never
      · exact ⟨notice.expireAt, hle, rfl⟩
      · have hmono := bucketOf_mono (show never ≤ notice.expireAt by omega)
        exact ⟨never, Int.le_refl _, by omega⟩
    rw [← hlabel] at hout hnew ⊢
    refine ⟨instant, hle, rfl, ?_⟩
    rw [earliestSweep] at hearly
    rw [never] at hbound
    have hnow := bucketOf_eq (show 0 ≤ c.now by omega) (by omega)
    have hlast := bucketOf_eq (show 0 ≤ c.now - 5000 by omega) (by omega)
    -- as if there had been a sweep one window ago
    have hfrom : bucketOf (c.now - 5000) ≤ bucketOf instant := by
      have holdest : bucketOf c.now - 5 * 1000 ≤ bucketOf instant := Int.not_lt.mp hnew
      omega
    refine bucketOf_le_of_window (by omega) (by omega) ?_ hle hfrom hout
    show c.now ≤ c.now - 5000 + 5 * 1000
    omega

/-- A bucket that lies ahead of a sweep stays ahead of the next ones, if they
    come often enough and do not visit it. -/
theorem ahead_of_chain {instant : Int} (hnever : instant ≤ never) {first : Int}
    {rest : List Int} (hnear : (first :: rest).IsChain Near)
    (hearly : ∀ time ∈ first :: rest, earliestSweep ≤ time)
    (hout : ∀ time ∈ first :: rest, bucketOf instant ∉ Cache.window time)
    (hfirst : bucketOf first ≤ bucketOf instant) :
    ∀ time ∈ first :: rest, bucketOf time ≤ bucketOf instant := by
  induction rest generalizing first with
  | nil =>
      intro time htime
      rw [List.mem_singleton.mp htime]
      exact hfirst
  | cons next rest ih =>
      rw [List.isChain_cons_cons] at hnear
      rw [List.forall_mem_cons] at hearly hout ⊢
      have hnext : bucketOf next ≤ bucketOf instant := by
        have hearlynext := hearly.2 next List.mem_cons_self
        have hearlyfirst := hearly.1
        rw [earliestSweep] at hearlynext hearlyfirst
        exact bucketOf_le_of_window (by omega) (by omega) hnear.1 hnever hfirst
          (hout.2 next List.mem_cons_self)
      exact ⟨hfirst, ih hnear.2 hearly.2 hout.2 hnext⟩

/-- So if all sweeps of a run come often enough, what it has opened is not
    behind the last one. -/
theorem ahead_of_opens {s : Session K V} (h : s.Kept) {moves : List (Move K V)}
    (hearly : ∀ time ∈ s.sweepTimes moves, earliestSweep ≤ time)
    (hnear : (s.sweepTimes moves).IsChain Near) {b : Int} (hopens : s.Opens moves b)
    (hnever : b ≤ bucketOf never) :
    ∃ instant ≤ never, bucketOf instant = b ∧
      ∀ time ∈ (s.sweepTimes moves).getLast?, bucketOf time ≤ b := by
  obtain ⟨before, order, after, rfl, hfiles, -, hout⟩ := hopens
  rw [sweepTimes_append] at hearly hnear ⊢
  rw [List.forall_mem_append] at hearly
  have hkept := h.run hearly.1
  obtain ⟨instant, hle, rfl, hfirst⟩ := ahead_of_files hkept.items
    (hearly.2 _ List.mem_cons_self) hfiles (hout _ List.mem_cons_self) hnever
  refine ⟨instant, hle, rfl, fun time htime => ?_⟩
  have hahead := ahead_of_chain hle (List.isChain_append.mp hnear).2.1 hearly.2 hout hfirst
  refine hahead time (List.mem_of_getLast? ?_)
  rw [List.getLast?_append] at htime
  rcases Option.or_eq_some_iff.mp htime with hlast | ⟨hnone, -⟩
  · exact hlast
  · rw [List.getLast?_eq_none_iff] at hnone
    exact nomatch hnone

/-- Labels of instants that lie between two given ones. -/
theorem length_le_of_labels {now limit : Int} (hnow : 1 ≤ now)
    {labels : List Int} (hnodup : labels.Nodup)
    (hlabels : ∀ b ∈ labels, (∃ instant ≤ never, bucketOf instant = b) ∧ bucketOf now ≤ b ∧
      b ≤ bucketOf limit) :
    labels.length ≤ ((bucketOf limit - bucketOf now) / bucketWidth + 1).toNat := by
  have hsubset : labels ⊆
      (List.range ((bucketOf limit - bucketOf now) / bucketWidth + 1).toNat).map
        fun i => bucketOf now + Int.ofNat i * bucketWidth := by
    intro b hb
    obtain ⟨⟨instant, hle, rfl⟩, hfrom, hto⟩ := hlabels b hb
    have hhigh := lt_of_bucketOf_le hfrom hle
    have hlow := nonneg_of_bucketOf_le hfrom hnow
    rw [never] at hle
    have hinstant := bucketOf_eq hlow (by omega)
    have hlabel := bucketOf_eq (show 0 ≤ now by omega) (by omega)
    rw [List.mem_map]
    refine ⟨((bucketOf instant - bucketOf now) / 1000).toNat, ?_, ?_⟩
    · rw [List.mem_range]
      show _ < ((bucketOf limit - bucketOf now) / 1000 + 1).toNat
      omega
    · show bucketOf now + Int.ofNat ((bucketOf instant - bucketOf now) / 1000).toNat * 1000 = _
      rw [Int.ofNat_eq_natCast, Int.toNat_of_nonneg (by omega)]
      omega
  have hlength := (List.subperm_of_subset hnodup hsubset).length_le
  rw [List.length_map, List.length_range] at hlength
  exact hlength

/-! ## After a sweep -/

/-- After every sweep of every session with a new cache: as many keys are
    indexed as are stored, each bucket lists the keys that expire in it, and
    at most as many buckets list keys as there are keys.  Those buckets are
    held that some sweep of the run has filed a key under, unless a sweep has
    visited them since or the cache was cleared.  And if no two sweeps are
    farther apart than the window is wide, no bucket is behind the sweep,
    and up to the label of any instant there is one for each second at
    most. -/
theorem buckets_after_sweep (capacity : Nat) (clock : Clock) (moves : List (Move K V))
    (order : VisitingOrder K)
    (hearly : ∀ time ∈ (fresh capacity clock : Session K V).sweepTimes (moves ++ [.sweep order]),
      earliestSweep ≤ time) :
    let now := ((fresh capacity clock : Session K V).run moves).cache.now
    let swept := ((fresh capacity clock : Session K V).run (moves ++ [.sweep order])).cache
    (swept.index.size = swept.size ∧
      (∀ b key, key ∈ swept.index.listed b ↔
        ∃ item, swept.store.item? key = some item ∧ bucketOf item.expireAt = b) ∧
      swept.index.occupied.length ≤ swept.index.size) ∧
    (∀ b, swept.index.Holds b ↔
      (fresh capacity clock : Session K V).Opens (moves ++ [.sweep order]) b) ∧
    (((fresh capacity clock : Session K V).sweepTimes (moves ++ [.sweep order])).IsChain Near →
      (∀ b, swept.index.Holds b → b ≤ bucketOf never → bucketOf now ≤ b) ∧
      ∀ limit ≤ never, (swept.index.upTo (bucketOf limit)).length ≤
        ((bucketOf limit - bucketOf now) / bucketWidth + 1).toNat) := by
  intro now swept
  have hsettled := settled_after_sweep capacity clock moves order hearly
  have hholds := holds_run (K := K) (V := V) capacity clock hearly
  refine ⟨⟨hsettled.size_index, fun b key => hsettled.mem_listed_iff, hsettled.length_occupied_le⟩,
    hholds, fun hnear => ?_⟩
  have hlast : now ∈ ((fresh capacity clock : Session K V).sweepTimes
      (moves ++ [.sweep order])).getLast? := by
    rw [sweepTimes_append]
    exact List.getLast?_concat
  have hahead : ∀ b, swept.index.Holds b → b ≤ bucketOf never →
      (∃ instant ≤ never, bucketOf instant = b) ∧ bucketOf now ≤ b := by
    intro b hb hnever
    obtain ⟨instant, hle, hlabel, hpassed⟩ :=
      ahead_of_opens (kept_fresh capacity clock) hearly hnear ((hholds b).mp hb) hnever
    exact ⟨⟨instant, hle, hlabel⟩, hpassed now hlast⟩
  refine ⟨fun b hb hnever => (hahead b hb hnever).2, fun limit hlimit => ?_⟩
  have hnow : 1 ≤ now := by
    have hfrom := hearly now (List.mem_of_getLast? hlast)
    rw [earliestSweep] at hfrom
    omega
  refine length_le_of_labels hnow
    (swept.index.members.nodup.sublist List.filter_sublist) fun b hb => ?_
  obtain ⟨hheld, hle⟩ := List.mem_filter.mp hb
  have hto := of_decide_eq_true hle
  have hmono := bucketOf_mono hlimit
  obtain ⟨hlabel, hfrom⟩ := hahead b (ExpiryIndex.holds_iff_mem_keys.mpr hheld) (by omega)
  exact ⟨hlabel, hfrom, hto⟩

/-- A key that was refreshed has left a bucket behind, which is held with the
    one that the key is in now. -/
theorem buckets_after_sweep_of_refreshed :
    let moves : List (Move Nat Nat) := [.begin (.put 1 10 ⟨60000000000, by decide⟩),
      .sweep ⟨id, fun _ => .refl _⟩, .setWall 21000,
      .begin (.put 1 11 ⟨120000000000, by decide⟩)]
    let swept := ((fresh 0 (.unread 20000) : Session Nat Nat).run
      (moves ++ [.sweep ⟨id, fun _ => .refl _⟩])).cache
    (∀ time ∈ (fresh 0 (.unread 20000) : Session Nat Nat).sweepTimes
        (moves ++ [.sweep ⟨id, fun _ => .refl _⟩]), earliestSweep ≤ time) ∧
      swept.index.size = swept.size ∧ swept.index.occupied.length ≤ swept.index.size ∧
      (fresh 0 (.unread 20000) : Session Nat Nat).Opens
        (moves ++ [.sweep ⟨id, fun _ => .refl _⟩]) 81000 ∧
      (swept.index.upTo (bucketOf 141000)).length ≤ 121 := by
  intro moves swept
  have hearly : ∀ time ∈ (fresh 0 (.unread 20000) : Session Nat Nat).sweepTimes
      (moves ++ [.sweep ⟨id, fun _ => .refl _⟩]), earliestSweep ≤ time := by decide +kernel
  obtain ⟨⟨hsize, -, hoccupied⟩, hholds, hnear⟩ :=
    buckets_after_sweep 0 (.unread 20000) moves ⟨id, fun _ => .refl _⟩ hearly
  have hheld : swept.index.Holds 81000 := by decide +kernel
  refine ⟨hearly, hsize, hoccupied, (hholds 81000).mp hheld, ?_⟩
  have hlength := (hnear (by decide +kernel)).2 141000 (by decide)
  have hnow : ((fresh 0 (.unread 20000) : Session Nat Nat).run moves).cache.now = 21000 := by
    decide +kernel
  rw [hnow] at hlength
  exact hlength

/-- When such a key is removed, the index knows no key any more, and yet it
    holds both buckets. -/
theorem emptied_buckets_stay :
    let s : Session Nat Nat := fresh 0 (.unread 20000)
    let moves : List (Move Nat Nat) := [.begin (.put 1 10 ⟨60000000000, by decide⟩),
      .sweep ⟨id, fun _ => .refl _⟩, .setWall 21000,
      .begin (.put 1 11 ⟨120000000000, by decide⟩), .sweep ⟨id, fun _ => .refl _⟩,
      .setWall 22000, .begin (.remove [1]), .sweep ⟨id, fun _ => .refl _⟩]
    s.sweepTimes moves = [20000, 21000, 22000] ∧
      (s.run moves).cache.index.size = 0 ∧ (s.run moves).cache.index.bucketCount = 2 ∧
      (s.run moves).cache.index.Holds 81000 ∧ (s.run moves).cache.index.listed 81000 = [] := by
  decide +kernel

end Session

end ExpiringCache
