import ExpiringCache.Proofs.Janitor.Converges
import Mathlib.Data.List.Chain

/-! # Sweeps that come often enough are prompt

    An expired key of which no notice waits is found through its bucket, and
    only while that lies in the window of a sweep.  The windows of two
    sweeps leave no bucket between them if the sweeps are at most as far
    apart as the window is wide.  Then a sweep leaves no bucket behind that
    lies before the one of its own time, so every key of which no notice
    waits is in such a bucket until the next sweep. -/

namespace ExpiringCache

variable {K V : Type}

/-! ## Labels around a sweep -/

/-- An instant before `never` is labelled exactly, and so is every instant
    with a label that is not above it. -/
theorem lt_of_bucketOf_le {instant expireAt : Int} (h : bucketOf instant ≤ bucketOf expireAt)
    (hnever : expireAt ≤ never) : instant < 9000000000000000000 := by
  by_cases hlt : instant < 9000000000000000000
  · exact hlt
  · have hlabel := bucketOf_mono (show 9000000000000000000 ≤ instant by omega)
    have hlabel' := bucketOf_mono hnever
    have hends : bucketOf never < bucketOf 9000000000000000000 := by decide
    omega

theorem nonneg_of_bucketOf_le {instant expireAt : Int} (h : bucketOf instant ≤ bucketOf expireAt)
    (hinstant : 1 ≤ instant) : 0 ≤ expireAt := by
  by_cases hnonneg : 0 ≤ expireAt
  · exact hnonneg
  · have hlabel := bucketOf_mono (show expireAt ≤ 0 by omega)
    have hlabel' := bucketOf_mono hinstant
    have hends : bucketOf 0 < bucketOf 1 := by decide
    omega

/-- What is not in a bucket before that of the present has expired less than
    a second ago, if at all. -/
theorem sub_lt_of_bucketOf_le {now expireAt : Int} (hnow : 1 ≤ now) (hnever : expireAt ≤ never)
    (h : bucketOf now ≤ bucketOf expireAt) : now - 1000 < expireAt := by
  have hhigh := lt_of_bucketOf_le h hnever
  have hlow := nonneg_of_bucketOf_le h hnow
  rw [never] at hnever
  rw [bucketOf_eq (by omega) (by omega), bucketOf_eq hlow (by omega)] at h
  omega

/-- From one sweep to the next, no bucket escapes the windows. -/
theorem bucketOf_le_of_window {last now expireAt : Int} (hlast : 1 ≤ last) (hnow : 1 ≤ now)
    (hspaced : now ≤ last + Int.ofNat scanWindow * bucketWidth) (hnever : expireAt ≤ never)
    (h : bucketOf last ≤ bucketOf expireAt) (hout : bucketOf expireAt ∉ Cache.window now) :
    bucketOf now ≤ bucketOf expireAt := by
  have hhigh := lt_of_bucketOf_le h hnever
  have hlow := nonneg_of_bucketOf_le h hlast
  have hspaced' : now ≤ last + 5 * 1000 := hspaced
  rw [never] at hnever
  rw [Cache.mem_window] at hout
  rw [bucketOf_eq (by omega) (by omega), bucketOf_eq hlow (by omega)] at h
  rw [bucketOf_eq (by omega : 0 ≤ now) (by omega), bucketOf_eq hlow (by omega)] at hout
  rw [bucketOf_eq (by omega) (by omega), bucketOf_eq hlow (by omega)]
  omega

variable [DecidableEq K]

namespace Session

/-! ## From sweep to sweep -/

/-- Every item of which no notice waits lies in a bucket that the last sweep
    has not passed; before the first sweep there is none. -/
def Ahead (last : Option Int) (c : Cache K V) : Prop :=
  ∀ key expireAt, lastNotice? key c.notices.waiting = none → c.expiry? key = some expireAt →
    ∃ time ∈ last, bucketOf time ≤ bucketOf expireAt

theorem ahead_fresh (capacity : Nat) (clock : Clock) :
    Ahead none (fresh capacity clock : Session K V).cache := by
  intro key expireAt _ h
  exact nomatch h

/-- No alteration takes an item behind the last sweep without a notice. -/
theorem Alters.ahead {last : Option Int} {c c' : Cache K V} (h : Alters c c')
    (ha : Ahead last c) : Ahead last c' := by
  intro key expireAt hquiet hexpiry
  cases h with
  | noted h =>
      obtain ⟨added, hwaiting, hexplains⟩ := h.added
      rw [hwaiting, lastNotice?_append, Option.or_eq_none_iff] at hquiet
      have hexplain := hexplains key
      rw [hquiet.1] at hexplain
      have hsame : c'.expiry? key = c.expiry? key := hexplain
      rw [hsame] at hexpiry
      exact ha key expireAt hquiet.2 hexpiry
  | cleared => exact nomatch hexpiry
  | timed clock => exact ha key expireAt hquiet hexpiry

/-- Two sweeps at these times are at most as far apart as the window is
    wide. -/
def Near (time next : Int) : Prop := next ≤ time + Int.ofNat scanWindow * bucketWidth

instance (time next : Int) : Decidable (Near time next) :=
  inferInstanceAs (Decidable (next ≤ time + Int.ofNat scanWindow * bucketWidth))

/-- What stays after a sweep is ahead of that sweep. -/
theorem ahead_of_swept {last : Option Int} {s : Session K V} (h : s.Kept)
    (ha : Ahead last s.cache) (hearly : earliestSweep ≤ s.cache.now)
    (hlast : ∀ time ∈ last, earliestSweep ≤ time ∧ Near time s.cache.now)
    (order : VisitingOrder K) {key : K} {item : Item V}
    (hitem : (s.cache.swept order).store.item? key = some item) :
    bucketOf s.cache.now ≤ bucketOf item.expireAt := by
  obtain ⟨-, -, hkeeps⟩ := Cache.filed_swept h.filed hearly order
  obtain ⟨hbefore, hlive, hout⟩ := (hkeeps key item).mp hitem
  have hexpiry := Cache.expiry?_eq_some hbefore
  cases hnotice : lastNotice? key s.cache.notices.waiting with
  | some notice =>
      have hlt := hlive (by rw [hnotice]; rfl)
      exact bucketOf_mono (by omega)
  | none =>
      obtain ⟨time, htime, hpassed⟩ := ha key item.expireAt hnotice hexpiry
      obtain ⟨htimeearly, hnear⟩ := hlast time htime
      rw [earliestSweep] at hearly htimeearly
      exact bucketOf_le_of_window (by omega) (by omega) hnear
        (h.items key item.expireAt hexpiry) hpassed hout

/-- So after a sweep everything is ahead of it. -/
theorem ahead_swept {last : Option Int} {s : Session K V} (h : s.Kept)
    (ha : Ahead last s.cache) (hearly : earliestSweep ≤ s.cache.now)
    (hlast : ∀ time ∈ last, earliestSweep ≤ time ∧ Near time s.cache.now)
    (order : VisitingOrder K) : Ahead (some s.cache.now) (s.cache.swept order) := by
  intro key expireAt _ hexpiry
  rw [Cache.expiry?, Option.map_eq_some_iff] at hexpiry
  obtain ⟨item, hitem, rfl⟩ := hexpiry
  exact ⟨s.cache.now, rfl, ahead_of_swept h ha hearly hlast order hitem⟩

/-- Throughout a session whose sweeps come often enough, all that is known
    to the index is ahead of the last sweep. -/
theorem ahead_run {last : Option Int} {s : Session K V} (h : s.Kept)
    (ha : Ahead last s.cache) {moves : List (Move K V)}
    (hearly : ∀ time ∈ last.toList ++ s.sweepTimes moves, earliestSweep ≤ time)
    (hnear : (last.toList ++ s.sweepTimes moves).IsChain Near) :
    Ahead ((s.sweepTimes moves).getLast?.or last) (s.run moves).cache := by
  induction moves generalizing s last with
  | nil => exact ha
  | cons move rest ih =>
      have hkept : (s.step move).Kept := h.step fun time hmem => by
        refine hearly time (List.mem_append_right _ ?_)
        rw [sweepTimes_cons]
        exact List.mem_append_left _ hmem
      rcases (step_cases h.calls move).2 with ⟨order, rfl⟩ | ⟨hnosweep, halters⟩
      · obtain ⟨-, -, hbetween⟩ := List.isChain_append.mp hnear
        have hahead := ahead_swept h ha
          (hearly s.cache.now (List.mem_append_right _ List.mem_cons_self)) (fun time htime => by
            refine ⟨hearly time (List.mem_append_left _ (Option.mem_toList.mpr htime)), ?_⟩
            refine hbetween time ?_ s.cache.now rfl
            cases htime
            rfl) order
        have hrest := ih hkept hahead
          (fun time hmem => hearly time (List.mem_append_right _ hmem))
          (List.isChain_append.mp hnear).2.1
        -- the last sweep of the run is that of the rest, or this one if the rest has none
        show Ahead ((s.cache.now :: (s.step (.sweep order)).sweepTimes rest).getLast?.or last) _
        rw [List.getLast?_cons]
        cases hlast : ((s.step (.sweep order)).sweepTimes rest).getLast? with
        | none =>
            rw [hlast] at hrest
            exact hrest
        | some time =>
            rw [hlast] at hrest
            exact hrest
      · rw [sweepTimes_cons, hnosweep, List.nil_append] at hearly hnear ⊢
        exact ih hkept (halters.ahead ha) hearly hnear

/-- After every sweep of a session whose sweeps come often enough, no item is
    left that had expired a second ago. -/
theorem prompt_after_sweep (capacity : Nat) (clock : Clock) (moves : List (Move K V))
    (order : VisitingOrder K)
    (hearly : ∀ time ∈ (fresh capacity clock : Session K V).sweepTimes (moves ++ [.sweep order]),
      earliestSweep ≤ time)
    (hnear : ((fresh capacity clock : Session K V).sweepTimes
      (moves ++ [.sweep order])).IsChain Near) (key : K) (item : Item V)
    (hitem : ((fresh capacity clock : Session K V).run
      (moves ++ [.sweep order])).cache.store.item? key = some item) :
    ((fresh capacity clock : Session K V).run moves).cache.now - 1000 < item.expireAt := by
  rw [sweepTimes_append] at hearly hnear
  rw [List.forall_mem_append] at hearly
  obtain ⟨hnear, -, hbetween⟩ := List.isChain_append.mp hnear
  have hkept := (kept_fresh capacity clock).run hearly.1
  have hahead := ahead_run (kept_fresh capacity clock) (ahead_fresh capacity clock) hearly.1 hnear
  have hnow := hearly.2 _ List.mem_cons_self
  rw [run_append] at hitem
  have hpassed := ahead_of_swept hkept hahead hnow (fun time htime => ?_) order hitem
  · obtain ⟨-, -, hkeeps⟩ := Cache.filed_swept hkept.filed hnow order
    have hexpiry := Cache.expiry?_eq_some ((hkeeps key item).mp hitem).1
    rw [earliestSweep] at hnow
    exact sub_lt_of_bucketOf_le (by omega) (hkept.items key _ hexpiry) hpassed
  · rw [Option.or_none] at htime
    exact ⟨hearly.1 time (List.mem_of_getLast? htime), hbetween time htime _ rfl⟩

/-- Half a second after its expiry a key may still be there, even if the
    sweeps are as far apart as they may be. -/
theorem prompt_after_sweep_of_recent :
    ((fresh 0 (.unread 20000) : Session Nat Nat).run
        ([.begin (.put 1 10 ⟨1000000, by decide⟩), .begin (.put 2 20 ⟨4500000000, by decide⟩),
          .sweep ⟨id, fun _ => .refl _⟩, .setWall 25000] ++
          [.sweep ⟨id, fun _ => .refl _⟩])).cache.store.item? 2 = some ⟨20, 24500⟩ ∧
      ((fresh 0 (.unread 20000) : Session Nat Nat).run
        [.begin (.put 1 10 ⟨1000000, by decide⟩), .begin (.put 2 20 ⟨4500000000, by decide⟩),
          .sweep ⟨id, fun _ => .refl _⟩, .setWall 25000]).cache.now - 1000 < 24500 := by
  have hitem : ((fresh 0 (.unread 20000) : Session Nat Nat).run
        ([.begin (.put 1 10 ⟨1000000, by decide⟩), .begin (.put 2 20 ⟨4500000000, by decide⟩),
          .sweep ⟨id, fun _ => .refl _⟩, .setWall 25000] ++
          [.sweep ⟨id, fun _ => .refl _⟩])).cache.store.item? 2 = some ⟨20, 24500⟩ := by
    decide +kernel
  exact ⟨hitem, prompt_after_sweep 0 (.unread 20000) _ _ (by decide +kernel)
    (by decide +kernel) 2 ⟨20, 24500⟩ hitem⟩

end Session

end ExpiringCache
