import ExpiringCache.Proofs.Janitor.Combing
import ExpiringCache.Proofs.Janitor.Count
import ExpiringCache.Proofs.Order.Sweep

/-! # Sweeping any cache

    A sweep does not rely on what it finds.  Whatever the cache is in the
    beginning, it deletes the expired items that a notice or a bucket leads
    to, it deletes each of them once, and it touches no live one.  After it
    nothing is left to do, so a second sweep at the same time does nothing.

    The keys of each bucket may come in an order of their own. -/

namespace ExpiringCache

variable {K V : Type} [DecidableEq K]

namespace Cache

/-- Visits several buckets, the keys of each in an order of its own; the
    number of entries deleted. -/
def scanEach (orders : Int → VisitingOrder K) (now : Int) :
    List Int → Cache K V → Nat × Cache K V
  | [], c => (0, c)
  | bucket :: rest, c =>
      let (deleted, c) := c.scan (orders bucket).arrange now bucket
      let (more, c) := scanEach orders now rest c
      (deleted + more, c)

/-- Forgets what is expired at `now`, visiting the keys of each bucket in an
    order of its own. -/
def sweepEach (orders : Int → VisitingOrder K) (c : Cache K V) (now : Int) :
    SweepReport × Cache K V :=
  let (noticed, swept) :=
    tally (fun c notice => c.handleNotice now (oldestBucket now) notice) c.notices.waiting
      { c with notices := .empty }
  let (scanned, swept) := scanEach orders now (window now) swept
  let expired := noticed + scanned
  (⟨c.notices.size, expired⟩, { swept with counters := swept.counters.swept expired })

variable {c c' : Cache K V} {now : Int}

/-! ## One order for all buckets -/

theorem scanEach_const (order : VisitingOrder K) (now current : Int) (offsets : List Int)
    (c : Cache K V) :
    scanEach (fun _ => order) now (offsets.map fun offset => current - offset * bucketWidth) c =
      scanAll order.arrange now current offsets c := by
  induction offsets generalizing c with
  | nil => rfl
  | cons offset rest ih =>
      simp only [List.map_cons, scanEach, scanAll]
      rw [ih]

theorem sweepEach_const (order : VisitingOrder K) (c : Cache K V) (now : Int) :
    c.sweepEach (fun _ => order) now = c.sweepWith order.arrange now := by
  simp only [sweepEach, sweepWith, window, oldestBucket]
  -- not on the offsets that there happen to be
  generalize scanOffsets = offsets
  generalize bucketOf now = current
  rw [scanEach_const]
  rfl

/-! ## What is deleted -/

theorem erodes_scanEach (orders : Int → VisitingOrder K) (now : Int) (buckets : List Int)
    (c : Cache K V) :
    c.Erodes now (scanEach orders now buckets c).1 (scanEach orders now buckets c).2 := by
  induction buckets generalizing c with
  | nil => exact .refl c
  | cons bucket rest ih => exact (erodes_scan (orders bucket).arrange c now bucket).trans (ih _)

/-- A sweep works off the notices and then visits the buckets of the window.
    It reports what it has deleted, and the counter goes up by as many. -/
theorem erodes_sweepEach (orders : Int → VisitingOrder K) (c : Cache K V) (now : Int) :
    ∃ n c', c' = (scanEach orders now (window now) (c.noticed now)).2 ∧
      Erodes now { c with notices := .empty } n c' ∧
      c.sweepEach orders now =
        (⟨c.notices.size, n⟩, { c' with counters := c'.counters.swept n }) := by
  have hnoticed := erodes_tally
    (fun c notice => erodes_handleNotice c now (oldestBucket now) notice)
    c.notices.waiting { c with notices := .empty }
  refine ⟨_, _, rfl, hnoticed.trans (erodes_scanEach orders now (window now) _), ?_⟩
  simp only [sweepEach, noticed]

/-- A notice tells of the key, or a bucket that is visited lists it. -/
def ComesAcross (c : Cache K V) (now : Int) (key : K) : Prop :=
  key ∈ c.notices.waiting.map Notice.key ∨ ∃ bucket ∈ window now, key ∈ c.index.listed bucket

theorem combs_scanEach (orders : Int → VisitingOrder K) (now : Int) (buckets : List Int)
    (c : Cache K V) :
    Combs now (fun k => ∃ b ∈ buckets, k ∈ c.index.listed b) c
      (scanEach orders now buckets c).2 := by
  induction buckets generalizing c with
  | nil =>
      refine .refl c ?_
      rintro k ⟨b, hb, -⟩
      exact List.not_mem_nil hb
  | cons bucket rest ih =>
      have hscanned := combs_scan (orders bucket).perm c now bucket
      refine (hscanned.thenBuckets (ih _)).congr fun k => ?_
      simp only [List.mem_cons, exists_eq_or_imp]

theorem combs_noticed (c : Cache K V) (now : Int) :
    Combs now (fun k => k ∈ c.notices.waiting.map Notice.key) { c with notices := .empty }
      (c.noticed now) :=
  combs_tally (fun c notice => combs_handleNotice c now (oldestBucket now) notice)
    c.notices.waiting { c with notices := .empty }

/-- A sweep deletes the expired items that it comes across, and no others. -/
theorem keeps_sweepEach (orders : Int → VisitingOrder K) (c : Cache K V) (now : Int) :
    Keeps (fun key item => c.ComesAcross now key → now < item.expireAt) c
      (c.sweepEach orders now).2 := by
  obtain ⟨n, c', hc', -, heq⟩ := erodes_sweepEach orders c now
  have hscanned := combs_scanEach orders now (window now) (c.noticed now)
  rw [← hc'] at hscanned
  rw [heq]
  exact ((combs_noticed c now).thenBuckets hscanned).keeps

/-! ## What leaves the recency list -/

/-- The keys `gone` have left the recency list.  They are not stored, and all
    keys that were deleted are among them. -/
structure Unranks (c : Cache K V) (gone : List K) (c' : Cache K V) : Prop where
  recency : c'.recency = c.recency.map fun recency => recency.removeAll gone
  absent : ∀ key ∈ gone, c'.store.item? key = none
  deleted : ∀ key, c'.store.item? key = none → c.store.item? key = none ∨ key ∈ gone

theorem Erodes.unranks {n : Nat} (h : c.Erodes now n c') : ∃ gone, c.Unranks gone c' := by
  induction h with
  | reindex c index =>
      refine ⟨[], ?_, fun key hkey => (nomatch hkey), fun key hkey => Or.inl hkey⟩
      exact Option.map_id'.symm
  | unlink c key hgone =>
      refine ⟨[key], rfl, fun k hk => ?_, fun k hk => Or.inl hk⟩
      rw [List.mem_singleton.mp hk]
      exact hgone
  | expire c key hitem hexpired =>
      refine ⟨[key], rfl, fun k hk => ?_, fun k hk => ?_⟩
      · show (c.store.delete key).2.item? k = none
        rw [Store.item?_delete, if_pos (List.mem_singleton.mp hk).symm]
      · rw [Store.item?_delete] at hk
        split at hk
        · rename_i hkey
          exact Or.inr (List.mem_singleton.mpr hkey.symm)
        · exact Or.inl hk
  | trans _ h' ih ih' =>
      obtain ⟨gone, hgone⟩ := ih
      obtain ⟨gone', hgone'⟩ := ih'
      refine ⟨gone ++ gone', ?_, fun key hkey => ?_, fun key hkey => ?_⟩
      · rw [hgone'.recency, hgone.recency, Option.map_map]
        refine congrArg (Option.map · _) (funext fun recency => ?_)
        exact (List.foldl_append).symm
      · rcases List.mem_append.mp hkey with hkey | hkey
        · -- what is not stored stays so
          rcases h'.thins.item? key with hkept | ⟨hnone, -⟩
          · exact hkept.trans (hgone.absent key hkey)
          · exact hnone
        · exact hgone'.absent key hkey
      · rcases hgone'.deleted key hkey with hnone | hlater
        · exact (hgone.deleted key hnone).imp id (List.mem_append_left gone')
        · exact Or.inr (List.mem_append_right gone hlater)

/-! ## Sweeping again -/

/-- Nothing is left for a sweep at `now`: no notice waits, and none of the
    buckets that it would visit is there. -/
structure Clean (now : Int) (c : Cache K V) : Prop where
  quiet : c.notices = .empty
  passed : ∀ bucket ∈ window now, c.index.members.get? bucket = none

/-- Buckets of the window that have been visited are not there. -/
theorem members_scanEach (orders : Int → VisitingOrder K) {buckets : List Int}
    (hbuckets : ∀ bucket ∈ buckets, bucket ∈ window now) {bucket : Int}
    (hwindow : bucket ∈ window now)
    (h : bucket ∈ buckets ∨ c.index.members.get? bucket = none) :
    (scanEach orders now buckets c).2.index.members.get? bucket = none := by
  induction buckets generalizing c with
  | nil => exact h.resolve_left List.not_mem_nil
  | cons first rest ih =>
      refine ih (fun b hb => hbuckets b (List.mem_cons_of_mem first hb)) ?_
      by_cases hrest : bucket ∈ rest
      · exact Or.inl hrest
      · refine Or.inr (members_scan (orders first).perm first hwindow ?_)
        rcases h with hmem | hnone
        · exact Or.inl ((List.mem_cons.mp hmem).resolve_right hrest).symm
        · exact Or.inr hnone

theorem clean_sweepEach (orders : Int → VisitingOrder K) (c : Cache K V) (now : Int) :
    Clean now (c.sweepEach orders now).2 := by
  obtain ⟨n, c', hc', herodes, heq⟩ := erodes_sweepEach orders c now
  rw [heq]
  refine ⟨congrArg Prod.fst herodes.idle_eq, fun bucket hwindow => ?_⟩
  have hpassed := members_scanEach (c := c.noticed now) orders (fun _ => id) hwindow
    (Or.inl hwindow)
  rw [← hc'] at hpassed
  exact hpassed

/-- Buckets that are not there are passed over. -/
theorem scanEach_of_passed (orders : Int → VisitingOrder K) {buckets : List Int}
    (h : ∀ bucket ∈ buckets, c.index.members.get? bucket = none) :
    scanEach orders now buckets c = (0, c) := by
  induction buckets with
  | nil => rfl
  | cons bucket rest ih =>
      have hscan : c.scan (orders bucket).arrange now bucket = (0, c) := by
        simp only [scan, ExpiryIndex.deleteBucket, h bucket List.mem_cons_self]
      have hrest := ih fun b hb => h b (List.mem_cons_of_mem bucket hb)
      simp only [scanEach, hscan, hrest]

theorem Clean.sweepEach (h : c.Clean now) (orders : Int → VisitingOrder K) :
    c.sweepEach orders now = (⟨0, 0⟩, c) := by
  have hdrained : { c with notices := .empty } = c := by
    rw [← h.quiet]
  have hwaiting : c.notices.waiting = [] := congrArg NoticeQueue.waiting h.quiet
  have hscanned : scanEach orders now (window now) c = (0, c) :=
    scanEach_of_passed orders h.passed
  have hsize : c.notices.size = 0 := congrArg List.length hwaiting
  simp only [Cache.sweepEach, hwaiting, tally, hdrained, hscanned, hsize]
  rfl

/-! ## The whole sweep -/

/-- What a sweep of the first cache at `now` reports, and what it makes of
    it. -/
structure Sweeps (now : Int) (c : Cache K V) (report : SweepReport) (c' : Cache K V) : Prop where
  -- live items stay as they are, and so do those that the sweep does not come across
  items : ∀ key item, c'.store.item? key = some item ↔
    c.store.item? key = some item ∧ (c.ComesAcross now key → now < item.expireAt)
  flights : c'.store.flights = c.store.flights
  -- the report tells how many notices waited and how many entries are gone
  notices : report.notices = c.notices.size
  expired : c'.size + report.expired = c.size
  counters : c'.counters = { c.counters with expired := c.counters.expired + report.expired }
  quiet : c'.notices = .empty
  -- the recency list, if there is one, keeps the stored keys in their order
  -- and loses those that are deleted
  unranked : c.recency = none → c'.recency = none
  ranked : ∀ r ks, c.recency = some r → r.Lists ks →
    ∃ r' ks', c'.recency = some r' ∧ r'.Lists ks' ∧ ks'.Sublist ks ∧
      (∀ key ∈ ks, (c'.store.item? key).isSome = true → key ∈ ks') ∧
      (∀ key ∈ ks', (c.store.item? key).isSome = true → (c'.store.item? key).isSome = true)
  -- another sweep finds nothing to do
  again : ∀ orders, c'.sweepEach orders now = (⟨0, 0⟩, c')

/-- A recency list loses keys that are not stored any more. -/
theorem Unranks.ranked {gone : List K} (h : c.Unranks gone c') {r : Recency K} {ks : List K}
    (hrecency : c.recency = some r) (hlists : r.Lists ks) :
    ∃ r' ks', c'.recency = some r' ∧ r'.Lists ks' ∧ ks'.Sublist ks ∧
      (∀ key ∈ ks, (c'.store.item? key).isSome = true → key ∈ ks') ∧
      (∀ key ∈ ks', (c.store.item? key).isSome = true →
        (c'.store.item? key).isSome = true) := by
  have hleft := hlists.removeAll gone
  rw [foldl_others] at hleft
  refine ⟨r.removeAll gone, _, ?_, hleft, List.filter_sublist, fun key hkey hstored => ?_,
    fun key hkey hstored => ?_⟩
  · rw [h.recency, hrecency]
    rfl
  · rw [List.mem_filter, Bool.not_eq_true', decide_eq_false_iff_not]
    refine ⟨hkey, fun hgone => ?_⟩
    rw [h.absent key hgone] at hstored
    cases hstored
  · rw [List.mem_filter, Bool.not_eq_true', decide_eq_false_iff_not] at hkey
    cases hitem : c'.store.item? key with
    | some item => rfl
    | none =>
        rcases h.deleted key hitem with hnone | hgone
        · rw [hnone] at hstored
          cases hstored
        · exact absurd hgone hkey.2

theorem sweeps_sweepEach (orders : Int → VisitingOrder K) (c : Cache K V) (now : Int) :
    c.Sweeps now (c.sweepEach orders now).1 (c.sweepEach orders now).2 := by
  have hitems := keeps_sweepEach orders c now
  have hclean := clean_sweepEach orders c now
  obtain ⟨n, c', -, herodes, heq⟩ := erodes_sweepEach orders c now
  rw [heq] at hitems hclean ⊢
  have hthins := herodes.thins
  have hsheds := herodes.sheds
  obtain ⟨gone, hunranks⟩ := herodes.unranks
  exact {
    items := hitems
    flights := hthins.flights
    notices := rfl
    expired := hsheds.size
    counters := congrArg (Counters.swept · n) hsheds.counters
    quiet := hclean.quiet
    unranked := hthins.unranked
    ranked := fun r ks hrecency hlists => hunranks.ranked hrecency hlists
    again := hclean.sweepEach }

/-- The entries that stay keep their places in the store. -/
theorem entries_sweepEach (orders : Int → VisitingOrder K) (c : Cache K V) (now : Int) :
    (c.sweepEach orders now).2.store.items.entries.Sublist c.store.items.entries := by
  obtain ⟨n, c', -, herodes, heq⟩ := erodes_sweepEach orders c now
  rw [heq]
  exact herodes.sheds.entries

/-- It does not show in the store in which orders the keys were visited. -/
theorem store_sweepEach (orders orders' : Int → VisitingOrder K) (c : Cache K V) (now : Int) :
    (c.sweepEach orders now).2.store = (c.sweepEach orders' now).2.store := by
  have hsweeps := sweeps_sweepEach orders c now
  have hsweeps' := sweeps_sweepEach orders' c now
  refine Store.eq_of_parts ?_ (hsweeps.flights.trans hsweeps'.flights.symm)
  refine Table.eq_of_sublist (entries_sweepEach orders c now) (entries_sweepEach orders' c now)
    fun key => ?_
  refine Option.ext fun item => ?_
  exact (hsweeps.items key item).trans (hsweeps'.items key item).symm

/-- A sweep is exact in any state, in whatever orders it visits the keys of
    the buckets: it deletes the expired items that it comes across, reports
    and counts just these, and leaves every other item alone.  The orders do
    not show in the store, and a sweep after it does nothing. -/
theorem sweep_exact (c : Cache K V) (now : Int) (orders orders' : Int → VisitingOrder K) :
    c.Sweeps now (c.sweepEach orders now).1 (c.sweepEach orders now).2 ∧
      (c.sweepEach orders' now).2.store = (c.sweepEach orders now).2.store ∧
      ∀ order : VisitingOrder K,
        c.sweepEach (fun _ => order) now = c.sweepWith order.arrange now :=
  ⟨sweeps_sweepEach orders c now, store_sweepEach orders' orders c now,
    fun order => sweepEach_const order c now⟩

/-- Two elapsed buckets list a live key and an expired one, of which a notice
    waits as well.  The one is kept and the other is deleted once. -/
example :
    let listing : ExpiryIndex Nat :=
      [(20000, 1), (20000, 2), (19000, 2), (19000, 1)].foldl (fun ix p => ix.list p.1 p.2) .empty
    let c : Cache Nat Nat :=
      { (new 0 ⟨20000, 20000⟩ : Cache Nat Nat) with
        store := (Store.empty.set 1 ⟨10, 30000⟩).set 2 ⟨20, 5000⟩
        notices := NoticeQueue.empty.push 2 40000
        index := listing.assign 1 19000 }
    (c.sweepAt 20000).1 = ⟨1, 1⟩ ∧ (c.sweepAt 20000).2.keys = [1] := by
  decide

end Cache

end ExpiringCache
