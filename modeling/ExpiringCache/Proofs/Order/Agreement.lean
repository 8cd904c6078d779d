import ExpiringCache.Proofs.Order.Calls

/-! # No entry is beyond the reach of eviction

    An entry that the recency list does not know is never evicted, and a key
    without an entry makes others fall off too early.  As long as nobody
    goes on after having waited for a flight, neither happens: at every
    moment of a session the recency list has just the stored keys, so there
    are never more entries than the capacity allows.

    The calls of one thread are such a session.  A computation may make calls
    of its own, each of which ends or enters a computation before the next
    thing happens, and a call that would have to wait for a computation
    around it never goes on. -/

namespace ExpiringCache

variable {K V : Type}

/-- Nobody goes on after having waited. -/
def Move.Direct : Move K V → Prop
  | .resume _ _ => False
  | _ => True

variable [DecidableEq K]

namespace Cache

/-- What falls off when a key is used is deleted before anything else
    happens. -/
theorem not_mem_keys_touch {c : Cache K V} {r : Recency K} (hr : c.recency = some r)
    {key k : K} (hk : k ∈ (r.touch key).1) : k ∉ (c.touch key).keys := by
  have hevicts : k ∈ c.evicts key := by
    simp only [evicts, hr]
    exact hk
  intro hmem
  have hitem : ((c.touch key).store.item? k).isSome = true := Table.contains_iff.mpr hmem
  rw [item?_touch, if_pos hevicts] at hitem
  exact absurd hitem Bool.false_ne_true

/-- The recency list of a cache of bounded capacity has just the stored keys,
    and there is room for all of them. -/
structure Reaches (c : Cache K V) (capacity : Nat) (r : Recency K) : Prop where
  recency : c.recency = some r
  nodup : r.keys.Nodup
  mem_keys : ∀ k, k ∈ r.keys ↔ k ∈ c.keys
  contains : ∀ k, r.contains k = c.store.contains k
  room : c.size ≤ capacity

theorem Agrees.reaches {c : Cache K V} {capacity : Nat} (h : c.Agrees capacity)
    (hcap : capacity ≠ 0) : ∃ r, c.Reaches capacity r := by
  obtain ⟨ks, hordered⟩ := h
  obtain ⟨r, hrecency, hlists⟩ := hordered.recency hcap
  refine ⟨r, hrecency, ?_, fun k => ?_, fun k => ?_, ?_⟩
  · rw [hlists.keys_eq]
    exact hordered.nodup
  · rw [hlists.keys_eq]
    exact hordered.mem_keys.symm
  · rw [Bool.eq_iff_iff, hlists.contains_iff, hordered.stored]
    rfl
  · rw [hordered.size_eq]
    exact hordered.room hcap

end Cache

namespace Session

/-- Every move of a session in which nobody has waited keeps the store and
    the recency list in agreement. -/
theorem agrees_step {s : Session K V} {capacity : Nat} (h : s.cache.Agrees capacity)
    {move : Move K V} (hdirect : move.Direct) : (s.step move).cache.Agrees capacity := by
  cases move with
  | begin request =>
      show (s.absorb (s.cache.begin request)).cache.Agrees capacity
      rw [cache_absorb]
      exact h.begin request
  | finish place ending =>
      cases hplace : s.computing[place]? with
      | none =>
          simp only [step, hplace]
          exact h
      | some next =>
          simp only [step, hplace, cache_absorb]
          exact h.finish next ending
  | resume place told => exact hdirect.elim
  | sweep order => exact h.swept order
  | setWall wall =>
      obtain ⟨ks, hordered⟩ := h
      exact ⟨ks, hordered.same rfl rfl fun _ => rfl⟩

theorem agrees_run {s : Session K V} {capacity : Nat} (h : s.cache.Agrees capacity)
    {moves : List (Move K V)} (hdirect : ∀ move ∈ moves, move.Direct) :
    (s.run moves).cache.Agrees capacity := by
  induction moves generalizing s with
  | nil => exact h
  | cons move rest ih =>
      exact ih (agrees_step h (hdirect move List.mem_cons_self))
        fun move' hmem => hdirect move' (List.mem_cons_of_mem _ hmem)

/-- At every moment of a session in which nobody has waited, the recency list
    of a bounded cache has just the stored keys, and there are not too many
    of them.  Whenever a key is used, in the midst of a call or not, all keys
    that fall off are deleted by that use. -/
theorem recency_reaches_store {capacity : Nat} (hcap : capacity ≠ 0) (clock : Clock)
    {moves : List (Move K V)} (hdirect : ∀ move ∈ moves, move.Direct) :
    (∃ r, ((fresh capacity clock).run moves).cache.Reaches capacity r) ∧
      ∀ (c : Cache K V) (r : Recency K) (key : K), c.recency = some r →
        ∀ k ∈ (r.touch key).1, k ∉ (c.touch key).keys :=
  ⟨(agrees_run ⟨[], Cache.ordered_new capacity clock⟩ hdirect).reaches hcap,
    fun _ _ _ hr _ hk => Cache.not_mem_keys_touch hr hk⟩

/-- While a key is computed under its flight in a cache for one entry, the
    computation stores another key, sweeps, and makes a call that computes a
    third one and panics; then its own value makes the other entry fall
    off. -/
theorem recency_reaches_store_nested :
    (1 : Nat) ≠ 0 ∧
      (∃ r, ((fresh 1 (.unread 100)).run
        [.begin (.getOrPutFrom 1 .zero true), .begin (.put 2 20 .zero),
          .sweep ⟨id, fun keys => .refl keys⟩, .begin (.putIfAbsentFrom 3 .zero true),
          .finish 0 (.panicked "out of luck"), .finish 0 (.value 10)] :
          Session Nat Nat).cache.Reaches 1 r) ∧
      ∀ (c : Cache Nat Nat) (r : Recency Nat) (key : Nat), c.recency = some r →
        ∀ k ∈ (r.touch key).1, k ∉ (c.touch key).keys := by
  refine ⟨by decide, recency_reaches_store (by decide) (.unread 100) fun move hmove => ?_⟩
  simp only [List.mem_cons, List.not_mem_nil, or_false] at hmove
  rcases hmove with rfl | rfl | rfl | rfl | rfl | rfl
  · trivial
  · trivial
  · trivial
  · trivial
  · trivial
  · trivial

end Session

end ExpiringCache
