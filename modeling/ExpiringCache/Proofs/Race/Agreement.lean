import ExpiringCache.Proofs.Race.Answers

/-! # Callers that race agree

    Whatever the order in which the callers do the pieces of their calls, and
    however their computations end, the flights do what they are for: a key
    is computed by one caller at a time, once a computation has come to a
    value, that is the value for everybody, and nobody waits in vain.

    Two things limit this.  The clock has to stay short of `never`: from then
    on, entries without end have expired, and are computed again.  And a
    caller may be told that there is nothing by a leader whose computation
    was over before the caller began, as long as the leader had not left the
    registry by then. -/

namespace ExpiringCache

namespace Race

variable {I K V : Type} {key : I → K} {s s' : Race I K V} {i : I}

/-! ## All that holds in every race -/

/-- The invariants of a race, each of which rests on those before. -/
structure Sound [DecidableEq K] (key : I → K) (s : Race I K V) : Prop where
  turns : Turns key s
  trail : Trail s.phase s.log
  holding : Holding key s.cache.store.item? s.phase s.log
  answers : Answers key s.phase s.signal s.log

variable [DecidableEq K]

theorem sound_start (key : I → K) (clock : Clock) : Sound key (start clock : Race I K V) where
  turns := turns_start key clock
  trail := trail_start clock
  holding := holding_start key clock
  answers := answers_start key clock

theorem Sound.rests (h : Sound key s) {c : Cache K V} (hc : s.cache.Rests c) :
    Sound key { s with cache := c } where
  turns := h.turns.rests hc
  trail := h.trail
  holding := by
    have hholding := h.holding
    rwa [← funext hc.item?] at hholding
  answers := h.answers

variable [DecidableEq I]

theorem Sound.moves (h : Sound key s) {ending : Ending V} (hmoves : Moves key s i ending s') :
    Sound key s' where
  turns := h.turns.moves hmoves
  trail := h.trail.moves h.turns hmoves
  holding := h.holding.moves h.turns hmoves
  answers := h.answers.moves h.turns h.trail h.holding hmoves

theorem sound_run (key : I → K) {clock : Clock} (hclock : clock.now < never)
    (pieces : List (Piece I K V)) (hearly : ∀ piece ∈ pieces, piece.early) :
    Sound key ((start clock).run key pieces) := by
  have hendless : (start clock : Race I K V).cache.Endless :=
    ⟨rfl, hclock, fun k item h => by cases h⟩
  exact (run_induction (fun _ _ _ _ _ h => h.moves) (fun _ _ h => h.rests) hendless
    (sound_start key clock) pieces hearly).2

/-! ## What the callers can rely on -/

/-- What flights are for. -/
structure Agreement (key : I → K) (s : Race I K V) : Prop where
  one_computes : ∀ i j, s.phase i = .computes → s.phase j = .computes → key i = key j → i = j
  starts_once : ∀ i, ¬ [.started i, .started i].Sublist s.log
  one_value : ∀ i j v w, .ended i (.value v) ∈ s.log → .ended j (.value w) ∈ s.log →
    key i = key j → i = j ∧ v = w
  value_computed : ∀ i v, .returned i (.ok (some v)) ∈ s.log →
    ∃ j, key j = key i ∧ .ended j (.value v) ∈ s.log
  own_fault : ∀ i fault, .returned i (.error fault) ∈ s.log →
    ∃ ending, .ended i ending ∈ s.log ∧ ending.toExcept = .error fault
  -- the leader left when the caller had begun
  nothing_computed : ∀ i, .returned i (.ok none) ∈ s.log →
    ∃ j, key j = key i ∧ .ended j .nothing ∈ s.log ∧ [.left j, .began i].Sublist s.log
  leaves_own : ∀ i landing, s.phase i = .leaves landing → s.registry (key i) = some i
  never_abandoned : ∀ i j, s.phase i = .waits j → s.signal j = .pending →
    (s.phase j).leading = true
  -- a call that is not over can go on, or the leader can that it waits for
  unblocked : ∀ i, (∀ result, s.phase i ≠ .done result) →
    ∃ j, key j = key i ∧ ∀ ending, (s.go key j ending).phase j ≠ s.phase j

theorem Sound.agreement (h : Sound key s) : Agreement key s where
  one_computes := fun i j hi hj => h.turns.unique (by rw [hi]; rfl) (by rw [hj]; rfl)
  starts_once := h.trail.once
  one_value := h.holding.single
  value_computed := by
    intro i v hmem
    obtain ⟨j, hkey, ⟨l, hl, hended⟩, -⟩ := h.answers.returned i _ hmem
    exact ⟨l, hl.trans hkey, hended⟩
  own_fault := fun i fault hmem => h.answers.returned i _ hmem
  nothing_computed := by
    intro i hmem
    obtain ⟨j, hkey, hended, hleft⟩ := h.answers.returned i _ hmem
    exact ⟨j, hkey, hended, hleft rfl⟩
  leaves_own := fun i landing hi => h.turns.named (by rw [hi]; rfl)
  never_abandoned := by
    intro i j hi hpending
    obtain ⟨-, hleading | htold⟩ := h.turns.awaited i j hi
    · exact hleading
    · exact absurd hpending htold
  unblocked := fun i hdone => h.turns.unblocked hdone

/-- Any number of callers agree in every order of the pieces of their calls,
    together with the janitor, while the clock is short of `never`. -/
theorem callers_agree (key : I → K) {clock : Clock} (hclock : clock.now < never)
    (pieces : List (Piece I K V)) (hearly : ∀ piece ∈ pieces, piece.early) :
    Agreement key ((start clock).run key pieces) :=
  (sound_run key hclock pieces hearly).agreement

/-- A leader fails for whom two callers have waited; one of them leads then and
    computes for both. -/
def handedOn : List (Piece Nat Nat Nat) :=
  List.replicate 4 (.go 0 .nothing) ++ List.replicate 2 (.go 1 .nothing) ++
    List.replicate 2 (.go 2 .nothing) ++ [.setWall 5] ++
    List.replicate 4 (.go 0 (.failed ⟨"lost", []⟩)) ++ List.replicate 3 (.go 1 .nothing) ++
    List.replicate 2 (.go 2 .nothing) ++ List.replicate 7 (.go 1 (.value 7)) ++
    List.replicate 2 (.go 2 .nothing)

theorem callers_agree_handedOn :
    (Clock.unread 0).now < never ∧ (∀ piece ∈ handedOn, piece.early) ∧
      Agreement (fun _ => 0) ((start (.unread 0)).run (fun _ => 0) handedOn) ∧
      ((start (.unread 0)).run (fun _ => 0) handedOn).log =
        [.returned 2 (.ok (some 7)), .returned 1 (.ok (some 7)), .left 1, .ended 1 (.value 7),
          .started 1, .returned 0 (.error (.error (.producer ⟨"lost", []⟩))), .left 0,
          .ended 0 (.failed ⟨"lost", []⟩), .began 2, .began 1, .started 0, .began 0] := by
  have hearly : ∀ piece ∈ handedOn, piece.early := by
    simp [handedOn, Piece.early, never]
  exact ⟨by decide, hearly, callers_agree (fun _ => 0) (by decide) handedOn hearly, rfl⟩

/-- One caller after the other computes a value. -/
def inTurn : List (Piece Nat Nat Nat) :=
  List.replicate 9 (.go 0 (.value 1)) ++ List.replicate 9 (.go 1 (.value 2))

/-- A caller begins when a computation is over, and finds its leader in the
    registry. -/
def lateCaller : List (Piece Nat Nat Nat) :=
  List.replicate 5 (.go 0 .nothing) ++ List.replicate 2 (.go 1 .nothing) ++
    List.replicate 2 (.go 0 .nothing) ++ List.replicate 2 (.go 1 .nothing)

/-- Without the limits callers disagree.  Once the clock has come to `never`,
    a second computation of the same key ends in another value; and a caller
    may be told that there is nothing although no computation has ended since
    it began. -/
theorem callers_disagree :
    (.ended 0 (.value 1) ∈ ((start (.unread never)).run (fun _ => 0) inTurn).log ∧
      .ended 1 (.value 2) ∈ ((start (.unread never)).run (fun _ => 0) inTurn).log) ∧
    (.returned 1 (.ok none) ∈ ((start (.unread 0)).run (fun _ => 0) lateCaller).log ∧
      ∀ j, ¬ [.ended j .nothing, .began 1].Sublist
        ((start (.unread 0)).run (fun _ => 0) lateCaller).log) := by
  have hturn : ((start (.unread never)).run (fun _ => 0) inTurn).log =
      [.returned 1 (.ok (some 2)), .left 1, .ended 1 (.value 2), .started 1, .began 1,
        .returned 0 (.ok (some 1)), .left 0, .ended 0 (.value 1), .started 0, .began 0] := rfl
  have hlate : ((start (.unread 0)).run (fun _ => 0) lateCaller).log =
      [.returned 1 (.ok none), .left 0, .began 1, .ended 0 .nothing, .started 0, .began 0] := rfl
  rw [hturn, hlate]
  simp [pair_sublist_cons]

end Race

end ExpiringCache
