import ExpiringCache.Proofs.Janitor.Prompt

/-! # Keys that no sweep finds

    A sweep finds an expired key in one of two ways: by a notice, or by its
    bucket.  The notice of a key is worked off once; if the key is still live
    then, only its bucket is left, and that is found only while it lies in
    the window of a sweep.  When two sweeps are farther apart than the window
    is wide, buckets between their windows are passed over, and no later
    sweep looks back: the keys in them are stranded, and stay in the cache
    until a call deletes them.

    So a key that is left alone is deleted if and only if a sweep finds it in
    one of these ways; and sweeps at a fixed period find every expired key if
    and only if the period is at most the width of the window. -/

namespace ExpiringCache

variable {K V : Type} [DecidableEq K]

namespace Session

/-! ## Keys that are left alone -/

/-- A change that leaves the item of `key` alone, and no notice of it. -/
def Spares (key : K) (c c' : Cache K V) : Prop :=
  c'.store.item? key = c.store.item? key ∧
    lastNotice? key c'.notices.waiting = lastNotice? key c.notices.waiting

/-- A change that does not write `key`: it leaves the key alone, or the key
    has no item any more. -/
def Unwritten (key : K) (c c' : Cache K V) : Prop :=
  c'.store.item? key = none ∨ Spares key c c'

/-- Every move of a run, unless it is a sweep, does such a change. -/
def ByCalls (change : Cache K V → Cache K V → Prop) (s : Session K V) : List (Move K V) → Prop
  | [] => True
  | .sweep order :: rest => ByCalls change (s.step (.sweep order)) rest
  | move :: rest => change s.cache (s.step move).cache ∧ ByCalls change (s.step move) rest

/-- A run that begins with a move begins with a sweep, or with a change. -/
theorem byCalls_cons {change : Cache K V → Cache K V → Prop} {s : Session K V}
    {move : Move K V} {rest : List (Move K V)} (h : ByCalls change s (move :: rest)) :
    ((∃ order, move = .sweep order) ∨
        s.sweepTimes [move] = [] ∧ change s.cache (s.step move).cache) ∧
      ByCalls change (s.step move) rest := by
  cases move with
  | sweep order => exact ⟨Or.inl ⟨order, rfl⟩, h⟩
  | begin request => exact ⟨Or.inr ⟨rfl, h.1⟩, h.2⟩
  | finish place ending => exact ⟨Or.inr ⟨rfl, h.1⟩, h.2⟩
  | resume place told => exact ⟨Or.inr ⟨rfl, h.1⟩, h.2⟩
  | setWall wall => exact ⟨Or.inr ⟨rfl, h.1⟩, h.2⟩

theorem ByCalls.imp {change change' : Cache K V → Cache K V → Prop}
    (himp : ∀ c c', change c c' → change' c c') {s : Session K V} {moves : List (Move K V)}
    (h : ByCalls change s moves) : ByCalls change' s moves := by
  induction moves generalizing s with
  | nil => trivial
  | cons move rest ih => cases move with
    | sweep order => exact ih h
    | begin request => exact ⟨himp _ _ h.1, ih h.2⟩
    | finish place ending => exact ⟨himp _ _ h.1, ih h.2⟩
    | resume place told => exact ⟨himp _ _ h.1, ih h.2⟩
    | setWall wall => exact ⟨himp _ _ h.1, ih h.2⟩

/-! ## How a sweep finds a key -/

/-- Sweeps at these times find a key that expires at `expireAt`: its bucket
    lies in the window of one of them, or a notice of it is there when the
    first of them comes and it is expired by then. -/
def Found (noticed : Prop) (expireAt : Int) (times : List Int) : Prop :=
  (∃ time ∈ times, bucketOf expireAt ∈ Cache.window time) ∨
    noticed ∧ ∃ time ∈ times.head?, expireAt ≤ time

theorem not_found_nil (noticed : Prop) (expireAt : Int) : ¬Found noticed expireAt [] := by
  rintro (⟨time, hmem, -⟩ | ⟨-, time, hmem, -⟩)
  · exact nomatch hmem
  · exact nomatch hmem

/-- The first of several sweeps finds the key, or the others do by its
    bucket. -/
theorem not_found_cons {noticed : Prop} {expireAt time : Int} {rest : List Int} :
    ¬Found noticed expireAt (time :: rest) ↔
      ((noticed → time < expireAt) ∧ bucketOf expireAt ∉ Cache.window time) ∧
        ¬Found False expireAt rest := by
  constructor
  · intro h
    refine ⟨⟨fun hn => ?_, fun hw => h (Or.inl ⟨time, List.mem_cons_self, hw⟩)⟩, ?_⟩
    · by_cases hlt : time < expireAt
      · exact hlt
      · exact absurd (Or.inr ⟨hn, time, rfl, by omega⟩) h
    · rintro (⟨later, hmem, hw⟩ | ⟨hfalse, -⟩)
      · exact h (Or.inl ⟨later, List.mem_cons_of_mem _ hmem, hw⟩)
      · exact hfalse
  · rintro ⟨⟨hlive, hout⟩, hrest⟩ (⟨later, hmem, hw⟩ | ⟨hn, first, hfirst, hle⟩)
    · rcases List.mem_cons.mp hmem with rfl | hmem
      · exact hout hw
      · exact hrest (Or.inl ⟨later, hmem, hw⟩)
    · cases hfirst
      have hlt := hlive hn
      omega

/-- A notice of `key` waits. -/
def Noticed (key : K) (s : Session K V) : Prop :=
  (lastNotice? key s.cache.notices.waiting).isSome = true

/-- A sweep keeps an item exactly if it does not find its key, and no notice
    is left. -/
theorem step_sweep {s : Session K V} (h : s.Kept) (order : VisitingOrder K)
    (hearly : earliestSweep ≤ s.cache.now) (key : K) :
    lastNotice? key (s.step (.sweep order)).cache.notices.waiting = none ∧
      ∀ item, (s.step (.sweep order)).cache.store.item? key = some item ↔
        s.cache.store.item? key = some item ∧ s.cache.Survives s.cache.now key item := by
  obtain ⟨hquiet, -, hkeeps⟩ := Cache.filed_swept h.filed hearly order
  refine ⟨?_, hkeeps key⟩
  show lastNotice? key (s.cache.swept order).notices.waiting = none
  rw [hquiet]
  rfl

/-- A key that is there at the end of a run that did not write it was there
    from the beginning, and no sweep has found it.  If there was a sweep, no
    notice of it waits any more. -/
theorem not_found_of_present {s : Session K V} (h : s.Kept) {moves : List (Move K V)}
    (hearly : ∀ time ∈ s.sweepTimes moves, earliestSweep ≤ time) {key : K}
    (hcalls : ByCalls (Unwritten key) s moves) {item : Item V}
    (hitem : (s.run moves).cache.store.item? key = some item) :
    s.cache.store.item? key = some item ∧
      ¬Found (s.Noticed key) item.expireAt (s.sweepTimes moves) ∧
      lastNotice? key (s.run moves).cache.notices.waiting =
        if s.sweepTimes moves = [] then lastNotice? key s.cache.notices.waiting else none := by
  induction moves generalizing s with
  | nil => exact ⟨hitem, not_found_nil _ _, rfl⟩
  | cons move rest ih =>
      rw [sweepTimes_cons, List.forall_mem_append] at hearly
      obtain ⟨hmove, hrest⟩ := byCalls_cons hcalls
      obtain ⟨hthere, hmissed, hnotice⟩ := ih (h.step hearly.1) hearly.2 hrest hitem
      rcases hmove with ⟨order, rfl⟩ | ⟨hnosweep, hgone | ⟨hsame, hsamenotice⟩⟩
      · obtain ⟨hquiet, hkeeps⟩ := step_sweep h order (hearly.1 _ List.mem_cons_self) key
        obtain ⟨hbefore, hsurvives⟩ := (hkeeps item).mp hthere
        rw [Noticed, hquiet] at hmissed
        refine ⟨hbefore, not_found_cons.mpr ⟨hsurvives, ?_⟩, ?_⟩
        · exact fun hf => hmissed (hf.imp_right fun hand => hand.1.elim)
        · show lastNotice? key ((s.step (.sweep order)).run rest).cache.notices.waiting = none
          rw [hnotice, hquiet]
          exact ite_self _
      · rw [hgone] at hthere
        exact nomatch hthere
      · rw [Noticed, hsamenotice] at hmissed
        rw [hsame] at hthere
        rw [sweepTimes_cons, hnosweep, List.nil_append]
        rw [hsamenotice] at hnotice
        exact ⟨hthere, hmissed, hnotice⟩

/-- A key that is left alone and that no sweep finds stays. -/
theorem present_of_not_found {s : Session K V} (h : s.Kept) {moves : List (Move K V)}
    (hearly : ∀ time ∈ s.sweepTimes moves, earliestSweep ≤ time) {key : K}
    (hcalls : ByCalls (Spares key) s moves) {item : Item V}
    (hitem : s.cache.store.item? key = some item)
    (hmissed : ¬Found (s.Noticed key) item.expireAt (s.sweepTimes moves)) :
    (s.run moves).cache.store.item? key = some item := by
  induction moves generalizing s with
  | nil => exact hitem
  | cons move rest ih =>
      rw [sweepTimes_cons, List.forall_mem_append] at hearly
      obtain ⟨hmove, hrest⟩ := byCalls_cons hcalls
      have hkept := h.step hearly.1
      rcases hmove with ⟨order, rfl⟩ | ⟨hnosweep, hsame, hsamenotice⟩
      · obtain ⟨hquiet, hkeeps⟩ := step_sweep h order (hearly.1 _ List.mem_cons_self) key
        obtain ⟨hsurvives, hlater⟩ := not_found_cons.mp hmissed
        refine ih hkept hearly.2 hrest ((hkeeps item).mpr ⟨hitem, hsurvives⟩) fun hf => ?_
        rw [Noticed, hquiet] at hf
        exact hlater (hf.imp_right fun hand => nomatch hand.1)
      · rw [sweepTimes_cons, hnosweep, List.nil_append] at hmissed
        refine ih hkept hearly.2 hrest (hsame.trans hitem) ?_
        rw [Noticed, hsamenotice]
        exact hmissed

/-! ## Sweeps at a fixed period -/

/-- Each sweep comes `period` milliseconds after the one before. -/
def Every (period : Int) (times : List Int) : Prop :=
  times.IsChain fun time next => next = time + period

/-- Wherever a sweep comes every `period` milliseconds, an expired item of
    `key` is gone after some number of further sweeps, unless the key is
    written meanwhile. -/
def Collects (V : Type) (period : Int) (key : K) : Prop :=
  ∀ (capacity : Nat) (clock : Clock) (moves : List (Move K V)) (item : Item V),
    ((fresh capacity clock : Session K V).run moves).cache.store.item? key = some item →
    item.expireAt ≤ ((fresh capacity clock : Session K V).run moves).cache.now →
    ∃ sweeps : Nat, ∀ more : List (Move K V),
      ByCalls (Unwritten key) ((fresh capacity clock : Session K V).run moves) more →
      (∀ time ∈ (fresh capacity clock : Session K V).sweepTimes (moves ++ more),
        earliestSweep ≤ time) →
      Every period ((fresh capacity clock : Session K V).sweepTimes (moves ++ more)) →
      sweeps ≤ (((fresh capacity clock : Session K V).run moves).sweepTimes more).length →
      ((fresh capacity clock : Session K V).run (moves ++ more)).cache.store.item? key = none

/-- In some run whose sweeps come every `period` milliseconds an item of `key`
    has expired, and however many sweeps follow, while the key is left alone,
    the item stays. -/
def Strands (V : Type) (period : Int) (key : K) : Prop :=
  ∃ (capacity : Nat) (clock : Clock) (moves : List (Move K V)) (item : Item V)
    (more : Nat → List (Move K V)),
    ((fresh capacity clock : Session K V).run moves).cache.store.item? key = some item ∧
    item.expireAt ≤ ((fresh capacity clock : Session K V).run moves).cache.now ∧
    ∀ count : Nat,
      more count <+: more (count + 1) ∧
      ByCalls (Spares key) ((fresh capacity clock : Session K V).run moves) (more count) ∧
      (∀ time ∈ (fresh capacity clock : Session K V).sweepTimes (moves ++ more count),
        earliestSweep ≤ time) ∧
      Every period ((fresh capacity clock : Session K V).sweepTimes (moves ++ more count)) ∧
      (((fresh capacity clock : Session K V).run moves).sweepTimes (more count)).length = count ∧
      ((fresh capacity clock : Session K V).run
        (moves ++ more count)).cache.store.item? key = some item

/-- The last of several sweeps comes as many periods after the first as there
    are others. -/
theorem Every.getLast {period first : Int} {rest : List Int} (h : Every period (first :: rest)) :
    (first :: rest).getLast? = some (first + rest.length * period) := by
  induction rest generalizing first with
  | nil =>
      show some first = some (first + 0 * period)
      rw [Int.zero_mul, Int.add_zero]
  | cons second rest ih =>
      obtain ⟨rfl, hrest⟩ := List.isChain_cons_cons.mp h
      rw [List.getLast?_cons_cons, ih hrest, List.length_cons, Int.natCast_add, Int.add_mul]
      congr 1
      omega

/-- So the time of the last sweep grows with their number. -/
theorem Every.length_le {period : Int} (hperiod : 0 < period) {times : List Int}
    (h : Every period times) (hearly : ∀ time ∈ times, earliestSweep ≤ time) {last : Int}
    (hlast : last ∈ times.getLast?) : times.length ≤ last := by
  cases times with
  | nil => exact nomatch hlast
  | cons first rest =>
      have hfirst := hearly first List.mem_cons_self
      rw [h.getLast, Option.mem_some_iff] at hlast
      have hmul : (rest.length : Int) * 1 ≤ rest.length * period :=
        Int.mul_le_mul_of_nonneg_left (by omega) (by omega)
      rw [earliestSweep] at hfirst
      rw [List.length_cons]
      omega

/-- If the sweeps come often enough, an item of which no notice waits had not
    been expired for a second at the last one. -/
theorem recent_of_quiet {capacity : Nat} {clock : Clock} {moves : List (Move K V)}
    (hearly : ∀ time ∈ (fresh capacity clock : Session K V).sweepTimes moves, earliestSweep ≤ time)
    (hnear : ((fresh capacity clock : Session K V).sweepTimes moves).IsChain Near)
    {key : K} {item : Item V}
    (hitem : ((fresh capacity clock : Session K V).run moves).cache.store.item? key = some item)
    (hquiet : lastNotice? key
      ((fresh capacity clock : Session K V).run moves).cache.notices.waiting = none) :
    ∃ time ∈ ((fresh capacity clock : Session K V).sweepTimes moves).getLast?,
      time - 1000 < item.expireAt := by
  have hkept := (kept_fresh capacity clock).run hearly
  have hahead := ahead_run (kept_fresh capacity clock) (ahead_fresh capacity clock) hearly hnear
  have hexpiry := Cache.expiry?_eq_some hitem
  obtain ⟨time, htime, hpassed⟩ := hahead key item.expireAt hquiet hexpiry
  rw [Option.or_none] at htime
  have hlate := hearly time (List.mem_of_getLast? htime)
  rw [earliestSweep] at hlate
  exact ⟨time, htime, sub_lt_of_bucketOf_le (by omega) (hkept.items key _ hexpiry) hpassed⟩

/-- With a period that is not longer than the window is wide, the sweeps
    find every expired key: what is left after one of them has not expired
    for a second, and the sweeps go on. -/
theorem collects_of_le {period : Int} (hperiod : 0 < period) (key : K)
    (hle : period ≤ Int.ofNat scanWindow * bucketWidth) : Collects V period key := by
  intro capacity clock moves item hitem _
  refine ⟨item.expireAt.toNat + 1001, ?_⟩
  intro more hcalls hearly hevery hcount
  cases hend : ((fresh capacity clock : Session K V).run
      (moves ++ more)).cache.store.item? key with
  | none => rfl
  | some item' =>
      have hnear : ((fresh capacity clock : Session K V).sweepTimes
          (moves ++ more)).IsChain Near := by
        refine List.IsChain.imp (fun time next hnext => ?_) hevery
        rw [Near, hnext]
        omega
      have hparts := hearly
      rw [sweepTimes_append, List.forall_mem_append] at hparts
      have hend' := hend
      rw [run_append] at hend'
      obtain ⟨hthere, -, hnotice⟩ := not_found_of_present
        ((kept_fresh capacity clock).run hparts.1) hparts.2 hcalls hend'
      rw [hitem] at hthere
      cases hthere
      have hsweeps : ((fresh capacity clock : Session K V).run moves).sweepTimes more ≠ [] := by
        intro hnone
        rw [hnone, List.length_nil] at hcount
        omega
      rw [if_neg hsweeps, ← run_append] at hnotice
      obtain ⟨time, htime, hrecent⟩ := recent_of_quiet hearly hnear hend hnotice
      -- but after that many sweeps the last of them comes too late for this
      have hlong := hevery.length_le hperiod hearly htime
      rw [sweepTimes_append, List.length_append] at hlong
      omega

/-! ## Sweeps that are too far apart -/

/-- Sweeps every `period` milliseconds, the first one at `time`. -/
def ticking (period : Int) : Nat → Int → List (Move K V)
  | 0, _ => []
  | count + 1, time =>
      .setWall time :: .sweep ⟨id, fun _ => .refl _⟩ :: ticking period count (time + period)

omit [DecidableEq K] in
theorem ticking_grows (period : Int) (count : Nat) (time : Int) :
    (ticking period count time : List (Move K V)) <+: ticking period (count + 1) time := by
  induction count generalizing time with
  | zero => exact List.nil_prefix
  | succ count ih =>
      have hrest := ih (time + period)
      exact List.cons_prefix_cons.mpr ⟨rfl, List.cons_prefix_cons.mpr ⟨rfl, hrest⟩⟩

/-- The times of such sweeps. -/
def timesFrom (period : Int) : Nat → Int → List Int
  | 0, _ => []
  | count + 1, time => time :: timesFrom period count (time + period)

theorem length_timesFrom (period : Int) (count : Nat) (time : Int) :
    (timesFrom period count time).length = count := by
  induction count generalizing time with
  | zero => rfl
  | succ count ih => exact congrArg (· + 1) (ih _)

theorem mem_timesFrom {period time t : Int} {count : Nat}
    (h : t ∈ timesFrom period count time) : ∃ i : Nat, t = time + i * period := by
  induction count generalizing time with
  | zero => exact nomatch h
  | succ count ih =>
      rcases List.mem_cons.mp h with rfl | h
      · refine ⟨0, ?_⟩
        show t = t + 0 * period
        rw [Int.zero_mul, Int.add_zero]
      · obtain ⟨i, rfl⟩ := ih h
        refine ⟨i + 1, ?_⟩
        rw [Int.natCast_add, Int.add_mul]
        omega

/-- None of them comes before the first one. -/
theorem le_of_mem_timesFrom {period time t : Int} (hperiod : 0 < period) {count : Nat}
    (h : t ∈ timesFrom period count time) : time ≤ t := by
  obtain ⟨i, rfl⟩ := mem_timesFrom h
  have hmul : 0 ≤ (i : Int) * period := Int.mul_nonneg (by omega) (by omega)
  omega

theorem every_timesFrom (period : Int) (count : Nat) (time : Int) :
    Every period (timesFrom period count time) := by
  induction count generalizing time with
  | zero => exact .nil
  | succ count ih => cases count with
    | zero => exact .singleton time
    | succ count => exact .cons_cons rfl (ih (time + period))

/-- A clock that has not been read later than `time` shows that time when a
    sweep has been made at it. -/
theorem clock_tick {s : Session K V} {time : Int} (h : s.cache.clock.latest ≤ time) :
    ((s.step (.setWall time)).step (.sweep ⟨id, fun _ => .refl _⟩)).cache.clock =
      ⟨time, time⟩ := by
  show ((s.step (.setWall time)).cache.swept _).clock = _
  rw [Cache.clock_swept]
  show Clock.mk time (max time s.cache.clock.latest) = _
  rw [Int.max_eq_left h]

theorem sweepTimes_ticking {period : Int} (hperiod : 0 < period) (count : Nat) {time : Int}
    {s : Session K V} (h : s.cache.clock.latest ≤ time) :
    s.sweepTimes (ticking period count time) = timesFrom period count time := by
  induction count generalizing time s with
  | zero => rfl
  | succ count ih =>
      have hnow : (s.step (.setWall time)).cache.now = time := Int.max_eq_left h
      have hclock := clock_tick h
      show (s.step (.setWall time)).cache.now ::
        ((s.step (.setWall time)).step (.sweep ⟨id, fun _ => .refl _⟩)).sweepTimes
          (ticking period count (time + period)) = _
      rw [ih, hnow]
      · rfl
      · rw [hclock]
        show time ≤ time + period
        omega

theorem now_ticking {period : Int} (hperiod : 0 < period) (count : Nat) {time : Int}
    {s : Session K V} (h : s.cache.clock.latest ≤ time) :
    (s.run (ticking period (count + 1) time)).cache.now = time + count * period := by
  induction count generalizing time s with
  | zero =>
      show ((s.step (.setWall time)).step (.sweep ⟨id, fun _ => .refl _⟩)).cache.clock.now = _
      rw [clock_tick h]
      show max time time = time + 0 * period
      omega
  | succ count ih =>
      have hlatest : ((s.step (.setWall time)).step
          (.sweep ⟨id, fun _ => .refl _⟩)).cache.clock.latest ≤ time + period := by
        rw [clock_tick h]
        show time ≤ time + period
        omega
      have hrest := ih hlatest
      show (((s.step (.setWall time)).step (.sweep ⟨id, fun _ => .refl _⟩)).run
        (ticking period (count + 1) (time + period))).cache.now = _
      rw [hrest, Int.natCast_add, Int.add_mul]
      omega

theorem byCalls_ticking (key : K) (period : Int) (count : Nat) (time : Int)
    (s : Session K V) : ByCalls (Spares key) s (ticking period count time) := by
  induction count generalizing time s with
  | zero => trivial
  | succ count ih => exact ⟨⟨rfl, rfl⟩, ih _ _⟩

/-- What has not elapsed yet lies in no window, and neither does what elapsed
    before the window. -/
theorem not_mem_window {now expireAt : Int}
    (h : bucketOf now ≤ bucketOf expireAt ∨ bucketOf expireAt + 5000 < bucketOf now) :
    bucketOf expireAt ∉ Cache.window now := by
  rw [Cache.mem_window]
  omega

/-- The expiry that `ms` milliseconds from `now` on fix. -/
theorem expiryFrom_millis {now ms : Int} (hnow : 0 ≤ now) (hms : 0 < ms)
    (hnever : now + ms ≤ never) (hwithin : (ms * 1000000).natAbs ≤ Duration.limit) :
    expiryFrom now ⟨ms * 1000000, hwithin⟩ = now + ms := by
  have hmillis : Duration.millis ⟨ms * 1000000, hwithin⟩ = ms :=
    Int.mul_tdiv_cancel ms (by decide)
  have hzero : ¬Duration.isZero ⟨ms * 1000000, hwithin⟩ = true := by
    rw [Duration.isZero, beq_iff_eq]
    show ¬ms * 1000000 = 0
    omega
  rw [expiryFrom_eq_min hnow, if_neg hzero, hmillis]
  exact Int.min_eq_right hnever

/-- A lifetime that begins at `start` is passed over by sweeps that are made
    from then on every `period` milliseconds: it has not ended at the first
    one, it has at the second one, and no window holds its bucket. -/
structure PassedOver (period start : Int) (ttl : Duration) : Prop where
  nonneg : ttl.isNegative = false
  early : earliestSweep ≤ start
  live : start < expiryFrom start ttl
  expired : expiryFrom start ttl ≤ start + period
  missed : ∀ i : Nat, bucketOf (expiryFrom start ttl) ∉ Cache.window (start + i * period)

/-- If the period is hardly longer than the window is wide, what expires just
    when the second sweep comes, at a whole second, is passed over. -/
theorem passedOver_of_short {period : Int} (h : 5000 < period) (hshort : period ≤ 6000)
    (hwithin : (period * 1000000).natAbs ≤ Duration.limit) :
    PassedOver period (20000 - period) ⟨period * 1000000, hwithin⟩ := by
  have hexpiry : expiryFrom (20000 - period) ⟨period * 1000000, hwithin⟩ =
      20000 - period + period :=
    expiryFrom_millis (by omega) (by omega) (by rw [never]; omega) hwithin
  rw [Int.sub_add_cancel] at hexpiry
  refine ⟨?_, ?_, ?_, ?_, fun i => ?_⟩
  · rw [Duration.isNegative, decide_eq_false_iff_not]
    show ¬period * 1000000 < 0
    omega
  · rw [earliestSweep]
    omega
  · rw [hexpiry]
    omega
  · rw [hexpiry]
    omega
  · rw [hexpiry]
    -- its bucket is the next one at the second sweep, and six back at the third
    rcases Nat.lt_or_ge i 2 with hi | hi
    · refine not_mem_window (Or.inl (bucketOf_mono ?_))
      have hmul : (i : Int) * period ≤ 1 * period :=
        Int.mul_le_mul_of_nonneg_right (by omega) (by omega)
      omega
    · have hmul : 2 * period ≤ (i : Int) * period :=
        Int.mul_le_mul_of_nonneg_right (by omega) (by omega)
      have hlate : bucketOf 25001 ≤ bucketOf (20000 - period + i * period) :=
        bucketOf_mono (by omega)
      have hlabels : bucketOf 20000 = 21000 ∧ bucketOf 25001 = 27000 := by decide
      exact not_mem_window (Or.inr (by omega))

/-- If the period is longer, what lives for a second is passed over. -/
theorem passedOver_of_long {period : Int} (h : 6000 < period)
    (hwithin : ((1000 : Int) * 1000000).natAbs ≤ Duration.limit) :
    PassedOver period 20000 ⟨1000 * 1000000, hwithin⟩ := by
  have hexpiry : expiryFrom 20000 ⟨1000 * 1000000, hwithin⟩ = 20000 + 1000 :=
    expiryFrom_millis (by decide) (by decide) (by decide) hwithin
  refine ⟨rfl, by decide, ?_, ?_, fun i => ?_⟩
  · rw [hexpiry]
    decide
  · rw [hexpiry]
    omega
  · rw [hexpiry]
    cases i with
    | zero =>
        rw [Int.natCast_zero, Int.zero_mul]
        exact not_mem_window (Or.inl (bucketOf_mono (by decide)))
    | succ i =>
        have hmul : 1 * period ≤ ((i + 1 : Nat) : Int) * period :=
          Int.mul_le_mul_of_nonneg_right (by omega) (by omega)
        have hlate : bucketOf 26001 ≤ bucketOf (20000 + ((i + 1 : Nat) : Int) * period) :=
          bucketOf_mono (by omega)
        have hlabels : bucketOf (20000 + 1000) = 22000 ∧ bucketOf 26001 = 28000 := by decide
        exact not_mem_window (Or.inr (by omega))

/-- If the period is longer than the window is wide, some lifetime is passed
    over. -/
theorem exists_passedOver {period : Int} (h : Int.ofNat scanWindow * bucketWidth < period) :
    ∃ start ttl, PassedOver period start ttl := by
  have hlong : 5 * 1000 < period := h
  rcases Int.lt_or_le 6000 period with hlonger | hshort
  · have hwithin : ((1000 : Int) * 1000000).natAbs ≤ Duration.limit := by
      rw [Duration.limit]
      decide
    exact ⟨_, _, passedOver_of_long hlonger hwithin⟩
  · have hwithin : (period * 1000000).natAbs ≤ Duration.limit := by
      rw [Duration.limit]
      omega
    exact ⟨_, _, passedOver_of_short hlong hshort hwithin⟩

/-- An unbounded new cache stores a key. -/
theorem put_fresh (key : K) (value : V) {ttl : Duration} (httl : ttl.isNegative = false)
    {start : Int} (hstart : earliestSweep ≤ start) :
    ((fresh 0 (.unread start) : Session K V).step
        (.begin (.put key value ttl))).cache.store.item? key =
      some ⟨value, expiryFrom start ttl⟩ ∧
    ((fresh 0 (.unread start) : Session K V).step
        (.begin (.put key value ttl))).cache.clock.latest ≤ start := by
  rw [earliestSweep] at hstart
  have hnow : Clock.now (.unread start) = start :=
    Int.max_eq_left (show 0 ≤ start by omega)
  show ((Cache.new 0 (.unread start) : Cache K V).put key value ttl).store.item? key = _ ∧
    ((Cache.new 0 (.unread start) : Cache K V).put key value ttl).clock.latest ≤ start
  rw [Cache.put, httl, if_neg Bool.false_ne_true]
  show (((Cache.new 0 (.unread start) : Cache K V).expiryFrom ttl).2.write key value
      (expiryFrom (Clock.now (.unread start)) ttl)).store.item? key = _ ∧
    (((Cache.new 0 (.unread start) : Cache K V).expiryFrom ttl).2.write key value
      (expiryFrom (Clock.now (.unread start)) ttl)).clock.latest ≤ start
  rw [hnow, Cache.expiryFrom]
  split
  · refine ⟨(Store.item?_set _ key key _).trans (if_pos rfl), ?_⟩
    show (0 : Int) ≤ start
    omega
  · exact ⟨(Store.item?_set _ key key _).trans (if_pos rfl), Int.le_of_eq hnow⟩

/-- A key that is passed over stays through any number of sweeps. -/
theorem PassedOver.stays {period start : Int} {ttl : Duration} (h : PassedOver period start ttl)
    (hperiod : 0 < period) (key : K) (value : V) (count : Nat) :
    ((fresh 0 (.unread start) : Session K V).run
        (.begin (.put key value ttl) :: ticking period count start)).cache.store.item? key =
      some ⟨value, expiryFrom start ttl⟩ := by
  obtain ⟨hitem, hlatest⟩ := put_fresh key value h.nonneg h.early
  have hkept : ((fresh 0 (.unread start) : Session K V).step
      (.begin (.put key value ttl))).Kept :=
    (kept_fresh 0 (.unread start)).step fun time htime => nomatch htime
  have htimes := sweepTimes_ticking hperiod count hlatest
  refine present_of_not_found hkept ?_ (byCalls_ticking key period count start _) hitem ?_
  · rw [htimes]
    intro time htime
    exact Int.le_trans h.early (le_of_mem_timesFrom hperiod htime)
  · rw [htimes]
    rintro (⟨time, htime, hwindow⟩ | ⟨-, time, hhead, hexpired⟩)
    · obtain ⟨i, rfl⟩ := mem_timesFrom htime
      exact h.missed i hwindow
    · -- the only sweep that meets the notice is the first one, which comes too early
      cases count with
      | zero => exact nomatch hhead
      | succ count =>
          cases hhead
          exact absurd h.live (Int.not_lt.mpr hexpired)

/-- With a period that is longer than the window is wide, some expired keys
    are found by no sweep. -/
theorem strands_of_lt [Inhabited V] {period : Int}
    (h : Int.ofNat scanWindow * bucketWidth < period) (key : K) : Strands V period key := by
  have hperiod : 0 < period := Int.lt_trans (by decide) h
  obtain ⟨start, ttl, hpassed⟩ := exists_passedOver h
  obtain ⟨-, hlatest⟩ := put_fresh key (default : V) hpassed.nonneg hpassed.early
  have htimes := fun count => sweepTimes_ticking hperiod count hlatest
  have hfirst : (fresh 0 (.unread start) : Session K V).sweepTimes
      (.begin (.put key default ttl) :: ticking period 2 start) =
      timesFrom period 2 start := htimes 2
  refine ⟨0, .unread start, .begin (.put key default ttl) :: ticking period 2 start,
    ⟨default, expiryFrom start ttl⟩, fun count => ticking period count (start + period + period),
    hpassed.stays hperiod key default 2, ?_, fun count => ?_⟩
  · have hnow := now_ticking hperiod 1 hlatest
    rw [Int.natCast_one, Int.one_mul] at hnow
    exact Int.le_trans hpassed.expired (Int.le_of_eq hnow.symm)
  · -- all the sweeps together are again sweeps from `start` on
    have hall : (fresh 0 (.unread start) : Session K V).sweepTimes
        (.begin (.put key default ttl) :: ticking period 2 start ++
          ticking period count (start + period + period)) =
        timesFrom period (count + 2) start := htimes (count + 2)
    refine ⟨ticking_grows period count _, byCalls_ticking key period count _ _, ?_, ?_, ?_,
      hpassed.stays hperiod key default (count + 2)⟩
    · rw [hall]
      intro time htime
      exact Int.le_trans hpassed.early (le_of_mem_timesFrom hperiod htime)
    · rw [hall]
      exact every_timesFrom period _ start
    · have hcount := congrArg List.length hall
      rw [sweepTimes_append, List.length_append, hfirst, length_timesFrom,
        length_timesFrom] at hcount
      show (((fresh 0 (.unread start) : Session K V).run _).sweepTimes
        (ticking period count (start + period + period))).length = count
      omega

/-- A key that is stranded is not found. -/
theorem Strands.not_collects {period : Int} {key : K} (h : Strands V period key) :
    ¬Collects V period key := by
  intro hcollects
  obtain ⟨capacity, clock, moves, item, more, hthere, hexpired, hstays⟩ := h
  obtain ⟨sweeps, hgone⟩ := hcollects capacity clock moves item hthere hexpired
  obtain ⟨-, hcalls, hearly, hevery, hcount, hitem⟩ := hstays sweeps
  have habsent := hgone (more sweeps) (hcalls.imp fun _ _ => Or.inr) hearly hevery
    (Nat.le_of_eq hcount.symm)
  exact nomatch hitem.symm.trans habsent

/-- A key that is left alone is deleted exactly if a sweep finds it; and
    sweeps at a fixed period find every expired key exactly if the period is
    at most the width of the window, and otherwise some key is stranded. -/
theorem deleted_iff_found [Inhabited V] :
    (∀ (capacity : Nat) (clock : Clock) (moves more : List (Move K V)) (key : K) (item : Item V),
      (∀ time ∈ (fresh capacity clock : Session K V).sweepTimes (moves ++ more),
        earliestSweep ≤ time) →
      ((fresh capacity clock : Session K V).run moves).cache.store.item? key = some item →
      ByCalls (Spares key) ((fresh capacity clock : Session K V).run moves) more →
      (((fresh capacity clock : Session K V).run (moves ++ more)).cache.store.item? key = none ↔
        Found (((fresh capacity clock : Session K V).run moves).Noticed key) item.expireAt
          (((fresh capacity clock : Session K V).run moves).sweepTimes more))) ∧
    ∀ (period : Int) (key : K), 0 < period →
      (Collects V period key ↔ period ≤ Int.ofNat scanWindow * bucketWidth) ∧
      (Strands V period key ↔ Int.ofNat scanWindow * bucketWidth < period) := by
  refine ⟨?_, fun period key hperiod => ⟨⟨fun hcollects => ?_, collects_of_le hperiod key⟩,
    ⟨fun hstrands => ?_, fun hlong => strands_of_lt hlong key⟩⟩⟩
  · intro capacity clock moves more key item hearly hitem hcalls
    rw [sweepTimes_append, List.forall_mem_append] at hearly
    have hkept := (kept_fresh capacity clock).run hearly.1
    rw [run_append]
    constructor
    · intro hgone
      by_contra hmissed
      have hpresent := present_of_not_found hkept hearly.2 hcalls hitem hmissed
      exact nomatch hpresent.symm.trans hgone
    · intro hfound
      cases hend : (((fresh capacity clock).run moves).run more).cache.store.item? key with
      | none => rfl
      | some item' =>
          obtain ⟨hthere, hmissed, -⟩ := not_found_of_present hkept hearly.2
            (hcalls.imp fun _ _ => Or.inr) hend
          rw [hitem] at hthere
          cases hthere
          exact absurd hfound hmissed
  · by_contra hlong
    exact (strands_of_lt (Int.not_le.mp hlong) key).not_collects hcollects
  · by_contra hshort
    exact hstrands.not_collects (collects_of_le hperiod key (Int.not_lt.mp hshort))

/-- A key whose notice came too early is passed over by a sweep that comes a
    minute later. -/
theorem deleted_iff_found_of_passed_over :
    ((fresh 0 (.unread 20000) : Session Nat Nat).run
        [.begin (.put 1 10 ⟨1000000000, by decide⟩),
          .sweep ⟨id, fun _ => .refl _⟩]).cache.store.item? 1 = some ⟨10, 21000⟩ ∧
      ((fresh 0 (.unread 20000) : Session Nat Nat).run
        ([.begin (.put 1 10 ⟨1000000000, by decide⟩), .sweep ⟨id, fun _ => .refl _⟩] ++
          [.setWall 80000, .sweep ⟨id, fun _ => .refl _⟩])).cache.store.item? 1 ≠ none ∧
      Collects Nat 5000 1 ∧ Strands Nat 60000 1 := by
  have hitem : ((fresh 0 (.unread 20000) : Session Nat Nat).run
        [.begin (.put 1 10 ⟨1000000000, by decide⟩),
          .sweep ⟨id, fun _ => .refl _⟩]).cache.store.item? 1 = some ⟨10, 21000⟩ := by
    decide +kernel
  obtain ⟨hexactly, hperiods⟩ := deleted_iff_found (K := Nat) (V := Nat)
  have hfound := hexactly 0 (.unread 20000)
    [.begin (.put 1 10 ⟨1000000000, by decide⟩), .sweep ⟨id, fun _ => .refl _⟩]
    [.setWall 80000, .sweep ⟨id, fun _ => .refl _⟩] 1 _ (by decide +kernel) hitem
    ⟨⟨rfl, rfl⟩, trivial⟩
  refine ⟨hitem, fun hgone => ?_, ?_, ?_⟩
  · rcases hfound.mp hgone with ⟨time, htime, hwindow⟩ | ⟨hnoticed, -⟩
    · have htimes : ((fresh 0 (.unread 20000) : Session Nat Nat).run
          [.begin (.put 1 10 ⟨1000000000, by decide⟩), .sweep ⟨id, fun _ => .refl _⟩]).sweepTimes
          [.setWall 80000, .sweep ⟨id, fun _ => .refl _⟩] = [80000] := by decide +kernel
      rw [htimes, List.mem_singleton] at htime
      rw [htime] at hwindow
      exact absurd hwindow (by decide)
    · rw [Noticed] at hnoticed
      exact absurd hnoticed (by decide +kernel)
  · exact (hperiods 5000 1 (by decide)).1.mpr (by decide)
  · exact (hperiods 60000 1 (by decide)).2.mpr (by decide)

/-- With a sweep each minute, a key that lived for a second from the first
    sweep on has expired long before the second one, and yet no number of
    sweeps deletes it. -/
theorem stays_through_all_sweeps :
    ((fresh 0 (.unread 20000) : Session Nat Nat).run
        (.begin (.put 1 10 ⟨1000 * 1000000, by decide⟩) ::
          ticking 60000 2 20000)).cache.now = 80000 ∧
      ¬∃ count : Nat, ((fresh 0 (.unread 20000) : Session Nat Nat).run
        (.begin (.put 1 10 ⟨1000 * 1000000, by decide⟩) ::
          ticking 60000 count 20000)).cache.store.item? 1 = none := by
  have hpassed : PassedOver 60000 20000 ⟨1000 * 1000000, by decide⟩ :=
    passedOver_of_long (by decide) (by decide)
  obtain ⟨-, hlatest⟩ := put_fresh 1 10 hpassed.nonneg hpassed.early
  refine ⟨now_ticking (by decide) 1 hlatest, ?_⟩
  rintro ⟨count, hgone⟩
  exact nomatch (hpassed.stays (by decide) 1 10 count).symm.trans hgone

end Session

end ExpiringCache
