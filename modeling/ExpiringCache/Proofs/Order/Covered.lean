import ExpiringCache.Proofs.Order.Calls

/-! # Stored keys are listed

    A caller that has waited for a flight may mark a key as used that is not
    stored.  From then on the recency list has a key too many: it takes up
    room until it falls off or is stored.  The other way round, a key that is
    stored without being listed, does not come about in any session.

    So at every moment of every session the recency list `Covers` the store:
    it has all stored keys, in the order of their use, and perhaps others. -/

namespace ExpiringCache

variable {K V : Type} [DecidableEq K]

namespace Cache

/-- The cache has the given capacity and ranks the keys `ks`, coldest first;
    all stored keys are among them. -/
structure Covers (c : Cache K V) (capacity : Nat) (ks : List K) : Prop where
  bounded : c.capacity = capacity
  nodup : ks.Nodup
  ranks : c.Ranks ks
  listed : ∀ k, (c.store.item? k).isSome = true → k ∈ ks
  room : capacity ≠ 0 → ks.length ≤ capacity

/-- A cache whose keys are in order is covered by them. -/
theorem Ordered.covers {c : Cache K V} {capacity : Nat} {ks : List K}
    (h : c.Ordered capacity ks) : c.Covers capacity ks where
  bounded := h.bounded
  nodup := h.nodup
  ranks := h.ranks
  listed := fun k => (h.stored k).mpr
  room := h.room

namespace Covers

variable {c c' : Cache K V} {capacity : Nat} {ks : List K}

/-- Neither the items themselves nor anything beside the store and the
    recency list matter, and items may be missing. -/
theorem same (h : c.Covers capacity ks) (hcap : c'.capacity = c.capacity)
    (hrecency : c'.recency = c.recency)
    (hitem : ∀ k, (c'.store.item? k).isSome = true → (c.store.item? k).isSome = true) :
    c'.Covers capacity ks where
  bounded := hcap.trans h.bounded
  nodup := h.nodup
  ranks := h.ranks.same hcap hrecency
  listed := fun k hk => h.listed k (hitem k hk)
  room := h.room

/-- Marking a key as used, whether or not an item was stored under it. -/
theorem use (h : c.Covers capacity ks) (key : K) (hcap : c'.capacity = c.capacity)
    (hrecency : c'.recency = c.recency)
    (hitem : ∀ k, (c'.store.item? k).isSome = true → k = key ∨ k ∈ ks) :
    (c'.touch key).Covers capacity (Recency.used capacity key ks) := by
  have hranks := h.ranks.same hcap hrecency
  have hcapacity := hcap.trans h.bounded
  refine ⟨?_, Recency.nodup_used h.nodup _ key, ?_, fun k hk => ?_, ?_⟩
  · rw [capacity_touch, hcapacity]
  · rw [← hcapacity]
    exact hranks.touch key
  · rw [item?_touch, hranks.evicts, hcapacity] at hk
    rw [Recency.mem_used h.nodup]
    split at hk
    · exact absurd hk Bool.false_ne_true
    · rename_i hstays
      exact ⟨hstays, hitem k hk⟩
  · exact fun hne => Recency.length_used_le hne key ks

theorem touch (h : c.Covers capacity ks) (key : K) :
    (c.touch key).Covers capacity (Recency.used capacity key ks) :=
  h.use key rfl rfl fun k hk => Or.inr (h.listed k hk)

/-- Storing an item under a key and marking it as used, whatever is noticed
    of it. -/
theorem store (h : c.Covers capacity ks) (key : K) (item : Item V) (notices : NoticeQueue K) :
    (Cache.touch { c with store := c.store.set key item, notices := notices } key).Covers
      capacity (Recency.used capacity key ks) := by
  refine h.use key rfl rfl fun k hk => ?_
  rw [Store.item?_set] at hk
  split at hk
  · rename_i hkey
    exact Or.inl hkey.symm
  · exact Or.inr (h.listed k hk)

theorem remove (h : c.Covers capacity ks) (keys : List K) :
    (c.remove keys).2.Covers capacity (ks.filter fun k => !decide (k ∈ c.deletes keys)) := by
  refine ⟨(capacity_remove c keys).trans h.bounded, h.nodup.sublist List.filter_sublist,
    h.ranks.deletes keys, fun k hk => ?_,
    fun hcap => Nat.le_trans (List.length_filter_le _ ks) (h.room hcap)⟩
  rw [item?_remove] at hk
  split at hk
  · exact absurd hk Bool.false_ne_true
  · rename_i hkey
    have hkept : k ∉ c.deletes keys := fun hmem => hkey (mem_deletes.mp hmem).1
    rw [List.mem_filter]
    exact ⟨h.listed k hk, by rw [decide_eq_false hkept, Bool.not_false]⟩

/-- Taking a key out of both structures. -/
theorem delete (h : c.Covers capacity ks) (key : K) (hcap : c'.capacity = c.capacity)
    (hrecency : c'.recency = c.recency.map fun recency => recency.remove key)
    (hitem : ∀ k, c'.store.item? k = if key = k then none else c.store.item? k) :
    c'.Covers capacity (Recency.others key ks) := by
  refine ⟨hcap.trans h.bounded, Recency.nodup_others h.nodup,
    h.ranks.remove key hcap hrecency, fun k hk => ?_,
    fun hne => Nat.le_trans (List.length_filter_le _ ks) (h.room hne)⟩
  rw [hitem] at hk
  split at hk
  · exact absurd hk Bool.false_ne_true
  · rename_i hkey
    exact Recency.mem_others.mpr ⟨h.listed k hk, fun e => hkey e.symm⟩

theorem clear (h : c.Covers capacity ks) : c.clear.Covers capacity [] where
  bounded := h.bounded
  nodup := List.nodup_nil
  ranks := h.ranks.clear
  listed := fun _ hk => absurd hk Bool.false_ne_true
  room := fun _ => Nat.zero_le _

/-! ## Sweeps and calls -/

theorem erodes {now : Int} {n : Nat} (h : c.Erodes now n c') :
    ∀ {ks}, c.Covers capacity ks → ∃ ks', c'.Covers capacity ks' := by
  induction h with
  | reindex c index => exact fun hc => ⟨_, hc.same rfl rfl fun _ => id⟩
  | unlink c key hgone => exact fun hc => ⟨_, hc.delete key rfl rfl (Store.item?_of_gone hgone)⟩
  | expire c key hitem hexpired =>
      exact fun hc => ⟨_, hc.delete key rfl rfl fun k => c.store.item?_delete key k⟩
  | trans _ _ ih ih' =>
      intro ks hc
      obtain ⟨ks', hc'⟩ := ih hc
      exact ih' hc'

theorem swept (h : c.Covers capacity ks) (order : VisitingOrder K) :
    ∃ ks', (c.swept order).Covers capacity ks' := by
  obtain ⟨n, c', herodes, heq⟩ := erodes_sweepWith order.arrange c.read c.now
  have hdrained : Covers { c.read with notices := .empty } capacity ks :=
    h.same rfl rfl fun _ => id
  obtain ⟨ks', hc'⟩ := erodes herodes hdrained
  rw [Cache.swept, heq]
  exact ⟨ks', hc'.same rfl rfl fun _ => id⟩

/-- No action leaves a stored key out of the list, not even a use that came
    too late. -/
theorem act (h : c.Covers capacity ks) (action : Action K V) :
    ∃ ks', (action.act c).Covers capacity ks' := by
  cases action with
  | read => exact ⟨ks, h.same rfl rfl fun _ => id⟩
  | hit => exact ⟨ks, h.same rfl rfl fun _ => id⟩
  | miss => exact ⟨ks, h.same rfl rfl fun _ => id⟩
  | enter key => exact ⟨ks, h.same rfl rfl fun _ => id⟩
  | leave key => exact ⟨ks, h.same rfl rfl fun _ => id⟩
  | write key item => exact ⟨_, h.store key item _⟩
  | rewrite key item => exact ⟨_, h.store key item _⟩
  | use key => exact ⟨_, h.touch key⟩
  | remove keys => exact ⟨_, h.remove keys⟩
  | clear => exact ⟨_, h.clear⟩
  | close => exact ⟨ks, h.same rfl rfl fun _ => id⟩
  | sweep order => exact h.swept order
  | setWall wall => exact ⟨ks, h.same rfl rfl fun _ => id⟩

theorem performs {actions : List (Action K V)} (h : c.Performs actions c') :
    ∀ {ks}, c.Covers capacity ks → ∃ ks', c'.Covers capacity ks' := by
  induction h with
  | nil c => exact fun hc => ⟨_, hc⟩
  | cons _ _ ih =>
      intro ks hc
      obtain ⟨ks', hc'⟩ := hc.act _
      exact ih hc'

/-- A caller that has waited marks its key as used whenever there is a value,
    or removes it. -/
theorem join (h : c.Covers capacity ks) (turn : Turn K V) (value : Option V) :
    ∃ ks', (c.join turn value).2.Covers capacity ks' := by
  cases hexpire : turn.expireAt with
  | none =>
      simp only [Cache.join, settle, hexpire]
      exact ⟨_, h.remove [turn.key]⟩
  | some expireAt =>
      simp only [Cache.join, settle, hexpire, Bool.false_eq_true, if_false]
      split
      · exact ⟨_, h.touch turn.key⟩
      · exact ⟨_, h⟩

end Covers

end Cache

/-! ## Sessions -/

namespace Session

theorem covers_step {s : Session K V} {capacity : Nat} {ks : List K}
    (h : s.cache.Covers capacity ks) (move : Move K V) :
    ∃ ks', (s.step move).cache.Covers capacity ks' := by
  cases move with
  | begin request =>
      simp only [step, cache_absorb]
      exact Cache.Covers.performs (s.cache.performs_beginning request) h
  | finish place ending =>
      cases hplace : s.computing[place]? with
      | none =>
          simp only [step, hplace]
          exact ⟨ks, h⟩
      | some next =>
          simp only [step, hplace, cache_absorb]
          exact Cache.Covers.performs (s.cache.performs_finishing next ending) h
  | resume place told =>
      cases hplace : s.waiting[place]? with
      | none =>
          simp only [step, hplace]
          exact ⟨ks, h⟩
      | some turn => cases told with
        | some value =>
            simp only [step, hplace]
            exact h.join turn value
        | none =>
            simp only [step, hplace, cache_absorb]
            exact Cache.Covers.performs (s.cache.performs_entering turn) h
  | sweep order => exact h.swept order
  | setWall wall => exact ⟨ks, h.same rfl rfl fun _ => id⟩

/-- At every moment of every session, all stored keys are listed. -/
theorem covers_run {s : Session K V} {capacity : Nat} {ks : List K}
    (h : s.cache.Covers capacity ks) (moves : List (Move K V)) :
    ∃ ks', (s.run moves).cache.Covers capacity ks' := by
  induction moves generalizing s ks with
  | nil => exact ⟨ks, h⟩
  | cons move rest ih =>
      obtain ⟨ks', h'⟩ := covers_step h move
      exact ih h'

end Session

end ExpiringCache
