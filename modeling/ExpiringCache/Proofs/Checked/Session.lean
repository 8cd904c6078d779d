import ExpiringCache.Proofs.Checked.Calls
import ExpiringCache.Proofs.Checked.Sweep
import ExpiringCache.Proofs.Janitor.Transparent

/-! # Sessions without overflow

    Wall clocks may show any word, be set forth and back between any two
    parts of calls, and lifetimes may be of any length that a duration has.
    Whatever calls, sweeps and ticks there are: no calculation leaves its
    range, no item is stored with an expiry outside of it, and the two calls
    that answer how long a key is live yet keep the three cases apart that
    their answer stands for.

    Both the cache and the expiries that open calls have fixed are carried
    along as an invariant; a step finds a sound cache and so calculates
    without overflow, and leaves a sound one. -/

namespace ExpiringCache

variable {K V : Type}

/-- The wall clock is set to a word. -/
def Move.Fits : Move K V → Prop
  | .setWall wall => Word.Fits wall
  | _ => True

/-- So it is by an event. -/
def Event.Fits : Event K V → Prop
  | .move m => m.Fits
  | .tick _ => True

variable [DecidableEq K]

/-- What `span` says of the time that a key has left is right. -/
structure Cache.Tells (c : Cache K V) (key : K) (span : Int) : Prop where
  absent : span = -1 ↔ c.store.live? c.now key = none
  endless : span = 0 ↔
    ∃ item, c.store.live? c.now key = some item ∧ item.expireAt = never
  left : ∀ item, c.store.live? c.now key = some item → item.expireAt ≠ never →
    span = item.expireAt - c.now ∧ 1 ≤ span

namespace Session

/-! ## Checked sessions -/

/-- The checked `step`. -/
def checkedStep (s : Session K V) : Move K V → Option (Session K V)
  | .begin request => do
      let begun ← s.cache.checkedBegin request
      some (s.absorb begun)
  | .finish place ending =>
      match s.computing[place]? with
      | none => some s
      | some next => do
          let finished ← s.cache.checkedFinish next ending
          some (absorb { s with computing := s.computing.eraseIdx place } finished)
  | .resume place told =>
      match s.waiting[place]?, told with
      | none, _ => some s
      | some turn, some value => do
          let (_, c) ← s.cache.checkedSettle turn value false
          some { s with cache := c, waiting := s.waiting.eraseIdx place }
      | some turn, none => do
          let entered ← s.cache.checkedEnter turn
          some (absorb { s with waiting := s.waiting.eraseIdx place } entered)
  | .sweep order => do
      let c ← s.cache.checkedSwept order
      some { s with cache := c }
  | .setWall wall =>
      some { s with cache := { s.cache with clock := s.cache.clock.setTo wall } }

/-- The checked `happen`. -/
def checkedHappen (s : Session K V) : Event K V → Option (Session K V)
  | .move m => s.checkedStep m
  | .tick order => if s.cache.closed then some s else s.checkedStep (.sweep order)

/-- The cache is sound, and so are the expiries that open calls have fixed. -/
structure Sound (s : Session K V) : Prop where
  cache : s.cache.Sound
  fixed : s.Fixed Ranged

/-- A session with a new cache is sound. -/
theorem sound_fresh (capacity : Nat) {wall : Int} (h : Word.Fits wall) :
    (fresh capacity (.unread wall) : Session K V).Sound where
  cache := Cache.sound_new capacity h
  fixed := ⟨fun _ hmem => (nomatch hmem), fun _ hmem => (nomatch hmem)⟩

namespace Sound

variable {s : Session K V}

/-- A lifetime that starts now ends in the range. -/
theorem ranged (h : s.Sound) (ttl : Duration) : Ranged (expiryFrom s.cache.now ttl) :=
  ranged_expiryFrom h.cache.now_nonneg ttl

/-- No move leaves the range of a word. -/
theorem checkedStep_eq (h : s.Sound) (move : Move K V) :
    s.checkedStep move = some (s.step move) := by
  cases move with
  | begin request =>
      rw [checkedStep, h.cache.checkedBegin_eq]
      rfl
  | finish place ending =>
      cases hplace : s.computing[place]? with
      | none => simp only [checkedStep, Session.step, hplace]
      | some next =>
          have hnext := h.fixed.computing next (List.mem_of_getElem? hplace)
          simp only [checkedStep, Session.step, hplace, h.cache.checkedFinish_eq hnext,
            Option.bind_eq_bind, Option.bind_some]
  | resume place told =>
      cases hplace : s.waiting[place]? with
      | none => simp only [checkedStep, Session.step, hplace]
      | some turn => cases told with
        | some value =>
            simp only [checkedStep, Session.step, hplace, h.cache.checkedSettle_eq, Cache.join,
              Option.bind_eq_bind, Option.bind_some]
        | none =>
            have hturn := h.fixed.waiting turn (List.mem_of_getElem? hplace)
            simp only [checkedStep, Session.step, hplace, h.cache.checkedEnter_eq hturn,
              Option.bind_eq_bind, Option.bind_some]
  | sweep order =>
      rw [checkedStep, h.cache.checkedSwept_eq]
      rfl
  | setWall wall => rfl

theorem step (h : s.Sound) {move : Move K V} (hfits : move.Fits) : (s.step move).Sound where
  cache := by
    rcases changes_step h.fixed h.ranged move with ⟨wall, rfl⟩ | hchanges
    · exact h.cache.setTo hfits
    · exact h.cache.of_changes (fun _ _ hstores => hstores.2) hchanges
  fixed := h.fixed.step h.ranged move

theorem checkedHappen_eq (h : s.Sound) (event : Event K V) :
    s.checkedHappen event = some (s.happen event) := by
  cases event with
  | move m => exact h.checkedStep_eq m
  | tick order =>
      rw [checkedHappen, happen, h.checkedStep_eq]
      split
      · rfl
      · rfl

theorem happen (h : s.Sound) {event : Event K V} (hfits : event.Fits) :
    (s.happen event).Sound := by
  cases event with
  | move m => exact h.step hfits
  | tick order =>
      rw [Session.happen]
      split
      · exact h
      · exact h.step trivial

/-- Whatever happens, one after another, leaves a sound session, and nothing
    overflows on the way. -/
theorem run (h : s.Sound) {events : List (Event K V)} (hfits : ∀ event ∈ events, event.Fits) :
    events.foldlM checkedHappen s = some (events.foldl Session.happen s) ∧
      (events.foldl Session.happen s).Sound := by
  induction events generalizing s with
  | nil => exact ⟨rfl, h⟩
  | cons event rest ih =>
      rw [List.foldlM_cons, List.foldl_cons, h.checkedHappen_eq]
      exact ih (h.happen (hfits event List.mem_cons_self))
        fun later hlater => hfits later (List.mem_cons_of_mem _ hlater)

end Sound

end Session

/-! ## What the two calls tell -/

namespace Cache

variable {c : Cache K V} {key : K}

/-- What a live item has left is 0 exactly if it never expires, and otherwise
    the difference of the two instants; it never is what stands for no
    item. -/
theorem tells_of_live {item : Item V} (hlive : c.store.live? c.now key = some item) :
    c.Tells key (item.remainingAt c.now) := by
  have hlt := (Store.live?_eq_some.mp hlive).2
  have hleft : item.expireAt ≠ never → item.remainingAt c.now = item.expireAt - c.now :=
    fun hne => if_neg hne
  have hnever : item.expireAt = never → item.remainingAt c.now = 0 := fun he => if_pos he
  refine ⟨⟨fun he => ?_, fun he => ?_⟩, ⟨fun he => ?_, ?_⟩, ?_⟩
  · exact absurd he (Item.remainingAt_ne_absent hlt)
  · rw [hlive] at he
    cases he
  · refine ⟨item, hlive, ?_⟩
    by_contra hne
    have hdiff := hleft hne
    omega
  · rintro ⟨other, hother, he⟩
    rw [hlive] at hother
    cases hother
    exact hnever he
  · intro other hother hne
    rw [hlive] at hother
    cases hother
    have hdiff := hleft hne
    exact ⟨hdiff, by omega⟩

theorem tells_of_none (hnone : c.store.live? c.now key = none) :
    c.Tells key Store.absentSpan where
  absent := ⟨fun _ => hnone, fun _ => rfl⟩
  endless := by
    refine ⟨fun he => absurd he (by decide), ?_⟩
    rintro ⟨item, hitem, -⟩
    rw [hnone] at hitem
    cases hitem
  left := by
    intro item hitem
    rw [hnone] at hitem
    cases hitem

theorem tells_lifetime (c : Cache K V) (key : K) : c.Tells key (c.lifetime key).1 := by
  cases hlive : c.store.live? c.now key with
  | some item =>
      have hread : c.read.store.live? c.read.now key = some item := by rwa [now_read]
      simp only [lifetime, hread]
      rw [now_read]
      exact tells_of_live hlive
  | none =>
      have hread : c.read.store.live? c.read.now key = none := by rwa [now_read]
      simp only [lifetime, hread]
      exact tells_of_none hlive

/-- What a key had left before it gets another lifetime. -/
theorem tells_setLifetime (c : Cache K V) (key : K) (ttl : Duration) :
    c.Tells key (c.setLifetime key ttl).1 := by
  have hspan : (c.setLifetime key ttl).1 =
      (c.store.replaceExpiry c.now key (c.expiryFrom ttl).1).1 := by
    simp only [setLifetime, read_expiryFrom, now_read]
    split
    · rfl
    · rfl
  rw [hspan]
  cases hlive : c.store.live? c.now key with
  | some item =>
      simp only [Store.replaceExpiry, hlive]
      exact tells_of_live hlive
  | none =>
      simp only [Store.replaceExpiry, hlive]
      exact tells_of_none hlive

end Cache

namespace Session

/-- In every session with a new cache, whatever words the wall clock shows and
    however long the lifetimes are: calculating in words comes to the same as
    calculating without limits, all expiries are in the range, and the two
    calls that answer how long a key is live yet tell it right. -/
theorem calculates_in_words (capacity : Nat) {wall : Int} (hwall : Word.Fits wall)
    (events : List (Event K V)) (hevents : ∀ event ∈ events, event.Fits) :
    ∃ s : Session K V, events.foldlM checkedHappen (fresh capacity (.unread wall)) = some s ∧
      s = events.foldl Session.happen (fresh capacity (.unread wall)) ∧
      s.cache.Expiries Ranged ∧
      ∀ key ttl, ∃ span previous,
        (s.cache.begin (.lifetime key)).1 = .reply (.span span) ∧ s.cache.Tells key span ∧
        (s.cache.begin (.setLifetime key ttl)).1 = .reply (.span previous) ∧
          s.cache.Tells key previous := by
  obtain ⟨hrun, hsound⟩ := (sound_fresh capacity hwall).run hevents
  refine ⟨_, hrun, rfl, hsound.cache.expiries, fun key ttl => ?_⟩
  exact ⟨_, _, rfl, Cache.tells_lifetime _ key, rfl, Cache.tells_setLifetime _ key ttl⟩

/-- A wall clock before the epoch, a step back, the farthest lifetimes in both
    directions, and a key that is stored after `never`. -/
theorem calculates_in_words_extremes :
    Word.Fits (-5) ∧
      ∃ s : Session Nat Nat,
        List.foldlM checkedHappen (fresh 1 (.unread (-5)))
          [.move (.begin (.put 1 10 ⟨9223372036854775807000000, by decide⟩)),
            .move (.setWall 100), .move (.begin (.put 2 20 ⟨5999999, by decide⟩)),
            .move (.setWall 50),
            .move (.begin (.setLifetime 2 ⟨-9223372036854775807000000, by decide⟩)),
            .tick ⟨id, fun keys => .refl keys⟩, .move (.setWall Word.greatest),
            .move (.begin (.put 3 30 ⟨1, by decide⟩))] = some s ∧
          s.cache.Expiries Ranged ∧
          ∀ key ttl, ∃ span previous,
            (s.cache.begin (.lifetime key)).1 = .reply (.span span) ∧ s.cache.Tells key span ∧
            (s.cache.begin (.setLifetime key ttl)).1 = .reply (.span previous) ∧
              s.cache.Tells key previous := by
  have hwall : Word.Fits (-5) := by decide
  obtain ⟨s, hrun, -, htold⟩ := calculates_in_words 1 hwall
    [.move (.begin (.put 1 10 ⟨9223372036854775807000000, by decide⟩)),
      .move (.setWall 100), .move (.begin (.put 2 20 ⟨5999999, by decide⟩)),
      .move (.setWall 50),
      .move (.begin (.setLifetime 2 ⟨-9223372036854775807000000, by decide⟩)),
      .tick ⟨id, fun keys => .refl keys⟩, .move (.setWall Word.greatest),
      .move (.begin (.put 3 30 ⟨1, by decide⟩))]
    (by simp [Event.Fits, Move.Fits, Word.Fits, Word.least, Word.greatest])
  exact ⟨hwall, s, hrun, htold⟩

end Session

end ExpiringCache
