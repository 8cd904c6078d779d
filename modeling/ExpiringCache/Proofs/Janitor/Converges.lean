import ExpiringCache.Proofs.Janitor.Session

/-! # The index converges

    At every moment of a session the index is right about all keys but those
    of which notices wait.  A sweep works off the notices, so right after a
    sweep it is right about all keys, no matter what happened before, how
    many sweeps there were, and how long they were apart. -/

namespace ExpiringCache

variable {K V : Type} [DecidableEq K]

namespace Cache

/-- What stays of a cache whose items are bounded is bounded. -/
theorem Keeps.bounded {p : K → Item V → Prop} {c c' : Cache K V} (h : Keeps p c c')
    (hb : c.Bounded) : c'.Bounded := by
  intro key expireAt hkey
  rw [expiry?, Option.map_eq_some_iff] at hkey
  obtain ⟨item, hitem, rfl⟩ := hkey
  exact hb key item.expireAt (expiry?_eq_some ((h key item).mp hitem).1)

/-- What a sweep by the clock leaves behind. -/
theorem filed_swept {c : Cache K V} (h : c.Filed c.notices.waiting)
    (hnow : earliestSweep ≤ c.now) (order : VisitingOrder K) :
    (c.swept order).notices.waiting = [] ∧ Filed [] (c.swept order) ∧
      Keeps (c.Survives c.now) c (c.swept order) := by
  rw [swept]
  exact filed_sweepWith (h.clock c.clock.read) hnow order.perm

end Cache

namespace Session

/-- What holds at every moment of a session. -/
structure Kept (s : Session K V) : Prop where
  filed : s.cache.Filed s.cache.notices.waiting
  items : s.cache.Bounded
  calls : s.Bounded

theorem kept_fresh (capacity : Nat) (clock : Clock) : (fresh capacity clock : Session K V).Kept where
  filed := Cache.filed_new capacity clock
  items := by
    intro key expireAt h
    exact nomatch h
  calls := by
    constructor
    · intro next h
      exact nomatch h
    · intro turn h
      exact nomatch h

theorem Alters.filed {c c' : Cache K V} (h : Alters c c') (hf : c.Filed c.notices.waiting) :
    c'.Filed c'.notices.waiting := by
  cases h with
  | noted h => exact hf.noted h
  | cleared => exact .clear _ c
  | timed clock => exact hf.clock clock

theorem Alters.bounded {c c' : Cache K V} (h : Alters c c') (hb : c.Bounded) : c'.Bounded := by
  cases h with
  | noted h => exact h.bounded hb
  | cleared =>
      intro key expireAt hkey
      exact nomatch hkey
  | timed clock => exact hb

/-- Every move keeps this, provided that no sweep comes too early. -/
theorem Kept.step {s : Session K V} (h : s.Kept) {move : Move K V}
    (hearly : ∀ time ∈ s.sweepTimes [move], earliestSweep ≤ time) : (s.step move).Kept := by
  obtain ⟨hcalls, hmove⟩ := step_cases h.calls move
  rcases hmove with ⟨order, rfl⟩ | ⟨-, halters⟩
  · obtain ⟨hquiet, hfiled, hkeeps⟩ :=
      Cache.filed_swept h.filed (hearly s.cache.now List.mem_cons_self) order
    refine ⟨?_, hkeeps.bounded h.items, hcalls⟩
    show Cache.Filed (s.cache.swept order).notices.waiting (s.cache.swept order)
    rw [hquiet]
    exact hfiled
  · exact ⟨halters.filed h.filed, halters.bounded h.items, hcalls⟩

theorem Kept.run {s : Session K V} (h : s.Kept) {moves : List (Move K V)}
    (hearly : ∀ time ∈ s.sweepTimes moves, earliestSweep ≤ time) : (s.run moves).Kept := by
  induction moves generalizing s with
  | nil => exact h
  | cons move rest ih =>
      rw [sweepTimes_cons, List.forall_mem_append] at hearly
      exact ih (h.step hearly.1) hearly.2

/-- Right after every sweep of every session with a new cache, no notice
    waits, the assigned keys are those with an item, each is assigned to the
    bucket of its expiry, and each bucket lists the keys assigned to it. -/
theorem settled_after_sweep (capacity : Nat) (clock : Clock) (moves : List (Move K V))
    (order : VisitingOrder K)
    (hearly : ∀ time ∈ (fresh capacity clock : Session K V).sweepTimes (moves ++ [.sweep order]),
      earliestSweep ≤ time) :
    ((fresh capacity clock : Session K V).run (moves ++ [.sweep order])).cache.Settled := by
  rw [sweepTimes_append, List.forall_mem_append] at hearly
  have hkept := (kept_fresh capacity clock).run hearly.1
  obtain ⟨hquiet, hfiled, -⟩ :=
    Cache.filed_swept hkept.filed (hearly.2 _ List.mem_cons_self) order
  rw [run_append]
  exact hfiled.toSettled hquiet

/-- A key is stored, removed and stored again, and another one gets an expiry
    in the past, before the one sweep. -/
theorem settled_after_sweep_of_rewritten :
    ((fresh 2 (.unread 20000) : Session Nat Nat).run
      ([.begin (.put 1 10 ⟨5000000000, by decide⟩), .begin (.remove [1]),
        .begin (.put 1 11 ⟨7000000000, by decide⟩), .begin (.put 2 20 ⟨0, by decide⟩),
        .begin (.setLifetime 2 ⟨-3000000000, by decide⟩), .setWall 21000] ++
        [.sweep ⟨id, fun _ => .refl _⟩])).cache.Settled := by
  refine settled_after_sweep 2 (.unread 20000) _ _ fun time hmem => ?_
  revert time
  decide +kernel

end Session

end ExpiringCache
