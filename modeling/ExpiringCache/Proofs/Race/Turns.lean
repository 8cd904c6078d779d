import ExpiringCache.Proofs.Race.Moves

/-! # Whose turn it is

    The registry names for each key the one caller that leads its flight, and
    is taken out by that caller only.  So of all callers with the same key at
    most one is between registering and leaving, and whoever waits for a
    leader waits for one that has yet to publish, or that has published
    already. -/

namespace ExpiringCache

namespace Race

variable {I K V : Type} {key : I → K} {s s' : Race I K V} {i : I}

/-- The registry names just the leaders whose flights are registered, and
    whoever waits for a leader will be told or has been. -/
structure Turns (key : I → K) (s : Race I K V) : Prop where
  registered : ∀ k i, s.registry k = some i ↔ key i = k ∧ (s.phase i).registered = true
  nodup : s.cache.store.flights.running.Nodup
  flights : ∀ k, k ∈ s.cache.store.flights.running ↔ (s.registry k).isSome = true
  awaited : ∀ i j, s.phase i = .waits j →
    key j = key i ∧ ((s.phase j).leading = true ∨ s.signal j ≠ .pending)

theorem turns_start (key : I → K) (clock : Clock) : Turns key (start clock : Race I K V) where
  registered := by simp [start, Phase.registered]
  nodup := List.nodup_nil
  flights := by simp [start, Cache.new, Store.empty, Flights.none]
  awaited := by simp [start]

namespace Turns

/-- A caller whose flight is registered is named. -/
theorem named (h : Turns key s) {j : I} (hj : (s.phase j).registered = true) :
    s.registry (key j) = some j := (h.registered (key j) j).mpr ⟨rfl, hj⟩

/-- Callers with registered flights have different keys. -/
theorem unique (h : Turns key s) {i j : I} (hi : (s.phase i).registered = true)
    (hj : (s.phase j).registered = true) (hkey : key i = key j) : i = j := by
  have hsome := (h.registered (key j) i).mpr ⟨hkey, hi⟩
  rw [h.named hj] at hsome
  exact (Option.some.inj hsome).symm

/-- What happens to the rest of the cache does not matter. -/
theorem rests [DecidableEq K] (h : Turns key s) {c : Cache K V} (hc : s.cache.Rests c) :
    Turns key { s with cache := c } where
  registered := h.registered
  nodup := hc.flights ▸ h.nodup
  flights := fun k => by rw [hc.flights, h.flights]
  awaited := h.awaited

variable [DecidableEq I]

/-- Waiting goes on if a leader that a caller waits for leads still, or has
    published when it does not. -/
theorem awaited_of (h : Turns key s) {phase : Phase I V}
    (hphase : s'.phase = Function.update s.phase i phase)
    (hsignal : ∀ j, s.signal j ≠ .pending → s'.signal j ≠ .pending)
    (hleading : (s.phase i).leading = true → phase.leading = true ∨ s'.signal i ≠ .pending)
    (hself : ∀ j, phase = .waits j →
      key j = key i ∧ ((s'.phase j).leading = true ∨ s'.signal j ≠ .pending)) :
    ∀ a j, s'.phase a = .waits j →
      key j = key a ∧ ((s'.phase j).leading = true ∨ s'.signal j ≠ .pending) := by
  intro a j ha
  by_cases hai : a = i
  · subst hai
    rw [hphase, Function.update_self] at ha
    exact hself j ha
  · rw [hphase, Function.update_of_ne hai] at ha
    obtain ⟨hkey, hled | htold⟩ := h.awaited a j ha
    · refine ⟨hkey, ?_⟩
      by_cases hj : j = i
      · subst hj
        rw [hphase, Function.update_self]
        exact hleading hled
      · rw [hphase, Function.update_of_ne hj]
        exact Or.inl hled
    · exact ⟨hkey, Or.inr (hsignal j htold)⟩

/-- The registry stays when a caller goes on that is registered before and
    after, or neither before nor after. -/
theorem registered_of (h : Turns key s) {phase : Phase I V}
    (hphase : s'.phase = Function.update s.phase i phase) (hregistry : s'.registry = s.registry)
    (hregistered : phase.registered = (s.phase i).registered) (k : K) (j : I) :
    s'.registry k = some j ↔ key j = k ∧ (s'.phase j).registered = true := by
  rw [hregistry, h.registered, hphase]
  by_cases hj : j = i
  · rw [hj, Function.update_self, hregistered]
  · rw [Function.update_of_ne hj]

/-- A caller goes on that leads before and after, or neither before nor after,
    and does not begin to wait. -/
theorem goesOn (h : Turns key s) {c : Cache K V} {log : List (Happening I V)}
    {here next : Phase I V} (hphase : s.phase i = here)
    (hflights : c.store.flights = s.cache.store.flights)
    (hregistered : next.registered = here.registered) (hleading : next.leading = here.leading)
    (hwaits : ∀ j, next ≠ .waits j) :
    Turns key (become { s with cache := c, log := log } i next) where
  registered := h.registered_of rfl rfl (hphase ▸ hregistered)
  nodup := hflights ▸ h.nodup
  flights := fun k => (iff_of_eq (congrArg (k ∈ Flights.running ·) hflights)).trans (h.flights k)
  awaited := h.awaited_of rfl (fun _ hj => hj)
    (fun hled => Or.inl (hleading.trans (hphase ▸ hled))) fun j hj => absurd hj (hwaits j)

/-- Whoever finds a leader in the registry waits for it. -/
theorem joined (h : Turns key s) {leader : I} (hphase : s.phase i = .missed)
    (hleader : s.registry (key i) = some leader) : Turns key (s.become i (.waits leader)) where
  registered := h.registered_of rfl rfl (by rw [hphase]; rfl)
  nodup := h.nodup
  flights := h.flights
  awaited := by
    obtain ⟨hkey, hled⟩ := (h.registered (key i) leader).mp hleader
    refine h.awaited_of rfl (fun _ hj => hj) (fun hi => by rw [hphase] at hi; cases hi) ?_
    intro j hj
    cases hj
    have hne : leader ≠ i := by
      intro heq
      rw [heq, hphase] at hled
      cases hled
    refine ⟨hkey, Or.inl ?_⟩
    show (Function.update s.phase i _ leader).leading = true
    rw [Function.update_of_ne hne]
    exact Phase.leading_of_registered hled

/-- Where a caller goes does not matter to other keys. -/
theorem registered_of_ne (h : Turns key s) {k : K} (hk : k ≠ key i) {next : Phase I V} (j : I) :
    s.registry k = some j ↔ key j = k ∧ (Function.update s.phase i next j).registered = true := by
  rw [h.registered]
  by_cases hji : j = i
  · subst hji
    exact ⟨fun hkey => absurd hkey.1.symm hk, fun hkey => absurd hkey.1.symm hk⟩
  · rw [Function.update_of_ne hji]

theorem registered_register [DecidableEq K] (h : Turns key s)
    (hfree : s.registry (key i) = none) (k : K) (j : I) :
    (s.register key i).registry k = some j ↔
      key j = k ∧ ((s.register key i).phase j).registered = true := by
  show Function.update s.registry (key i) (some i) k = some j ↔
    key j = k ∧ (Function.update s.phase i .leads j).registered = true
  by_cases hk : k = key i
  · subst hk
    have hother : ¬ (key j = key i ∧ (s.phase j).registered = true) := fun hsame => by
      rw [(h.registered (key i) j).mpr hsame] at hfree
      cases hfree
    rw [Function.update_self]
    by_cases hji : j = i
    · subst hji
      simp [Phase.registered]
    · rw [Function.update_of_ne hji]
      exact ⟨fun hsome => absurd (Option.some.inj hsome).symm hji, fun hsame => absurd hsame hother⟩
  · rw [Function.update_of_ne hk]
    exact h.registered_of_ne hk j

/-- Whoever finds nobody leads a flight of its own. -/
theorem enrolled [DecidableEq K] (h : Turns key s) (hfree : s.registry (key i) = none) :
    Turns key (s.register key i) where
  registered := h.registered_register hfree
  nodup := by
    have hnew : key i ∉ s.cache.store.flights.running := by
      rw [h.flights, hfree]
      exact Bool.false_ne_true
    exact List.nodup_cons.mpr ⟨hnew, h.nodup⟩
  flights := by
    intro k
    show k ∈ key i :: s.cache.store.flights.running ↔
      (Function.update s.registry (key i) (some i) k).isSome = true
    rw [List.mem_cons, h.flights]
    by_cases hk : k = key i
    · simp [hk]
    · simp [hk]
  awaited := h.awaited_of rfl (fun _ hj => hj) (fun _ => Or.inl rfl) fun j hj => by cases hj

theorem registered_leave [DecidableEq K] (h : Turns key s)
    {landing : Except Fault (Option V × Bool)} (hphase : s.phase i = .leaves landing) (k : K)
    (j : I) :
    (s.leave key i landing).registry k = some j ↔
      key j = k ∧ ((s.leave key i landing).phase j).registered = true := by
  show Function.update s.registry (key i) none k = some j ↔
    key j = k ∧ (Function.update s.phase i (.publishes landing) j).registered = true
  have hi : (s.phase i).registered = true := by rw [hphase]; rfl
  by_cases hk : k = key i
  · subst hk
    rw [Function.update_self]
    refine ⟨fun hsome => (by cases hsome), fun ⟨hkey, hj⟩ => ?_⟩
    by_cases hji : j = i
    · rw [hji, Function.update_self] at hj
      cases hj
    · rw [Function.update_of_ne hji] at hj
      exact absurd (h.unique hj hi hkey) hji
  · rw [Function.update_of_ne hk]
    exact h.registered_of_ne hk j

/-- A leader takes out nobody but itself. -/
theorem left [DecidableEq K] (h : Turns key s) {landing : Except Fault (Option V × Bool)}
    (hphase : s.phase i = .leaves landing) : Turns key (s.leave key i landing) where
  registered := h.registered_leave hphase
  nodup := h.nodup.erase (key i)
  flights := by
    intro k
    show k ∈ s.cache.store.flights.running.erase (key i) ↔
      (Function.update s.registry (key i) none k).isSome = true
    rw [h.nodup.mem_erase_iff, h.flights]
    by_cases hk : k = key i
    · simp [hk]
    · simp [hk]
  awaited := h.awaited_of rfl (fun _ hj => hj) (fun _ => Or.inl rfl) fun j hj => by cases hj

/-- Whoever publishes leads no more, but its signal is there. -/
theorem published (h : Turns key s) {landing : Except Fault (Option V × Bool)}
    (hphase : s.phase i = .publishes landing) : Turns key (s.publish i landing) where
  registered := h.registered_of rfl rfl (by rw [hphase]; rfl)
  nodup := h.nodup
  flights := h.flights
  awaited := by
    have hself : (s.publish i landing).signal i ≠ .pending := by
      show Function.update s.signal i (.ofLanding landing) i ≠ .pending
      rw [Function.update_self]
      cases landing <;> exact fun h => by cases h
    refine h.awaited_of rfl (fun j hj => ?_) (fun _ => Or.inr hself) fun j hj => by cases hj
    by_cases hji : j = i
    · exact hji ▸ hself
    · show Function.update s.signal i (.ofLanding landing) j ≠ .pending
      rwa [Function.update_of_ne hji]

theorem moves [DecidableEq K] (h : Turns key s) {ending : Ending V}
    (hmoves : Moves key s i ending s') : Turns key s' := by
  cases hmoves with
  | found item c hphase hitem hc => exact h.goesOn hphase hc.flights rfl rfl (by simp)
  | missed c hphase hc => exact h.goesOn hphase hc.flights rfl rfl (by simp)
  | joined leader hphase hleader => exact h.joined hphase hleader
  | enrolled hphase hfree => exact h.enrolled hfree
  | told leader value hphase hsignal => exact h.goesOn hphase rfl rfl rfl (by simp)
  | retried leader hphase hsignal => exact h.goesOn hphase rfl rfl rfl (by simp)
  | foundAgain item c hphase hitem hc => exact h.goesOn hphase hc.flights rfl rfl (by simp)
  | readied c hphase hitem hc => exact h.goesOn hphase hc.flights rfl rfl (by simp)
  | started hphase => exact h.goesOn hphase rfl rfl rfl (by simp)
  | concluded hphase =>
      have hregistered := Phase.registered_ofEnding (I := I) ending
      exact h.goesOn hphase rfl hregistered (Phase.leading_of_registered hregistered)
        (Phase.ofEnding_ne_waits ending)
  | kept value hphase => exact h.goesOn hphase rfl rfl rfl (by simp)
  | left landing hphase => exact h.left hphase
  | published landing hphase => exact h.published hphase
  | settled landing c hphase hc => exact h.goesOn hphase hc.flights rfl rfl (by simp)
  | stayed => exact h

end Turns

/-! ## Nobody is stuck -/

variable [DecidableEq I] [DecidableEq K]

/-- A call that is not over goes on, unless it waits for a leader that has not
    published. -/
theorem go_moves (hdone : ∀ result, s.phase i ≠ .done result)
    (hwaits : ∀ j, s.phase i = .waits j → s.signal j ≠ .pending) (ending : Ending V) :
    (s.go key i ending).phase i ≠ s.phase i := by
  cases hphase : s.phase i with
  | idle =>
      simp only [go, hphase, look]
      split <;> simp [answer]
  | missed =>
      simp only [go, hphase, enrol]
      split <;> simp [register]
  | waits leader =>
      cases hsignal : s.signal leader with
      | pending => exact absurd hsignal (hwaits leader hphase)
      | landed value => simp [go, hphase, listen, hsignal]
      | failed => simp [go, hphase, listen, hsignal]
  | leads =>
      simp only [go, hphase, recheck]
      split <;> simp
  | ready => simp [go, hphase, compute]
  | computes => cases ending <;> simp [go, hphase, conclude, Phase.ofEnding, Ending.toExcept]
  | stores value => simp [go, hphase, keep]
  | leaves landing => simp [go, hphase, leave]
  | publishes landing => simp [go, hphase, publish]
  | settles landing => simp [go, hphase, settle, answer]
  | done result => exact absurd hphase (hdone result)

/-- If a call is not over, it goes on, or the leader does that it waits for. -/
theorem Turns.unblocked (h : Turns key s) (hdone : ∀ result, s.phase i ≠ .done result) :
    ∃ j, key j = key i ∧ ∀ ending, (s.go key j ending).phase j ≠ s.phase j := by
  by_cases hfree : ∀ j, s.phase i = .waits j → s.signal j ≠ .pending
  · exact ⟨i, rfl, go_moves hdone hfree⟩
  · obtain ⟨j, hphase, hpending⟩ : ∃ j, s.phase i = .waits j ∧ s.signal j = .pending := by
      by_contra hnone
      exact hfree fun j hphase hpending => hnone ⟨j, hphase, hpending⟩
    obtain ⟨hkey, hleading | htold⟩ := h.awaited i j hphase
    · refine ⟨j, hkey, go_moves (fun result hj => ?_) fun a hj => ?_⟩
      · rw [hj] at hleading
        cases hleading
      · rw [hj] at hleading
        cases hleading
    · exact absurd hpending htold

end Race

end ExpiringCache
