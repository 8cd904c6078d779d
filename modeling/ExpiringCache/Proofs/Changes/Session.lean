import ExpiringCache.Proofs.Changes.Calls
import ExpiringCache.Proofs.Janitor.Session

/-! # The changes that sweeps and moves make

    Whatever the notices and the index say, a sweep reads the clock and drops
    keys.  So every move of a session, unless it sets the wall clock, comes to
    elementary changes, and the expiries that it stores with are those of
    lifetimes that start now or those that open calls have fixed. -/

namespace ExpiringCache

variable {K V : Type} [DecidableEq K]

namespace Cache

variable {P : K → Int → Prop} {now : Int}

/-! ## Sweeps -/

theorem changes_index (c : Cache K V) (index : ExpiryIndex K) :
    Changes P c { c with index := index } :=
  Changes.refl.beside rfl (fun _ => rfl) rfl rfl

/-- A sweep drops keys, whatever it does to the index. -/
theorem Erodes.changes {c c' : Cache K V} {n : Nat} (h : c.Erodes now n c') :
    Changes P c c' := by
  induction h with
  | reindex c index => exact changes_index c index
  | unlink c key hgone => exact Changes.refl.drop key rfl (Store.item?_of_gone hgone) rfl rfl
  | expire c key hitem hexpired =>
      exact Changes.refl.drop key rfl (fun k => c.store.item?_delete key k) rfl rfl
  | trans _ _ ih ih' => exact ih.trans ih'

theorem changes_noticed (c : Cache K V) : Changes P c (c.noticed now) := by
  obtain ⟨n, herodes⟩ := c.erodes_noticed now
  exact (changes_noted c .empty).trans herodes.changes

theorem changes_sweepWith (order : List K → List K) (c : Cache K V) :
    Changes P c (c.sweepWith order now).2 := by
  obtain ⟨n, c', herodes, heq⟩ := erodes_sweepWith order c now
  rw [heq]
  exact ((changes_noted c .empty).trans herodes.changes).beside rfl (fun _ => rfl) rfl rfl

theorem changes_swept (c : Cache K V) (order : VisitingOrder K) :
    Changes P c (c.swept order) := by
  rw [swept]
  exact (changes_read c).trans (changes_sweepWith order.arrange c.read)

theorem changes_sweep (c : Cache K V) : Changes P c c.sweep.2 := by
  rw [sweep, sweepAt]
  exact (changes_read c).trans (changes_sweepWith id c.read)

end Cache

/-! ## Moves -/

/-- The move is a part of a call that says of `key` that it holds a value
    now. -/
def Move.Stores (s : Session K V) (key : K) : Move K V → Prop
  | .begin request => request.Stores key (s.cache.begin request).1
  | .finish place ending =>
      ∃ next ∈ s.computing[place]?, next.Stores key (s.cache.finish next ending).1
  | .resume place none => ∃ turn ∈ s.waiting[place]?, turn.Stores key (s.cache.enter turn).1
  | _ => False

namespace Session

/-- The expiries that the open calls have fixed are in `R`. -/
structure Fixed (R : Int → Prop) (s : Session K V) : Prop where
  computing : ∀ next ∈ s.computing, next.Fixed R
  waiting : ∀ turn ∈ s.waiting, turn.Fixed R

omit [DecidableEq K] in
/-- Any expiry is an expiry. -/
theorem fixed_true (s : Session K V) : s.Fixed fun _ => True where
  computing := fun next _ => by
    cases next with
    | store key ttl => exact trivial
    | offer key ttl => exact trivial
    | lead turn => exact fun _ _ => trivial
  waiting := fun _ _ _ _ => trivial

variable {R : Int → Prop} {s : Session K V}

omit [DecidableEq K] in
/-- A call that stays open is one more open call. -/
theorem Fixed.absorb (h : s.Fixed R) {progress : Progress K V} (hp : progress.Fixed R)
    (c : Cache K V) : (s.absorb (progress, c)).Fixed R := by
  cases progress with
  | done result => exact ⟨h.computing, h.waiting⟩
  | producing next =>
      refine ⟨fun next' hmem => ?_, h.waiting⟩
      rcases List.mem_cons.mp hmem with rfl | hmem
      · exact hp
      · exact h.computing next' hmem
  | waiting turn =>
      refine ⟨h.computing, fun turn' hmem => ?_⟩
      rcases List.mem_append.mp hmem with hmem | hmem
      · exact h.waiting turn' hmem
      · rw [List.mem_singleton.mp hmem]
        exact hp

/-- No move fixes an expiry but that of a lifetime which starts now. -/
theorem Fixed.step (h : s.Fixed R) (hR : ∀ ttl, R (expiryFrom s.cache.now ttl))
    (move : Move K V) : (s.step move).Fixed R := by
  cases move with
  | begin request => exact h.absorb (s.cache.fixed_begin hR request) _
  | finish place ending =>
      cases hplace : s.computing[place]? with
      | none =>
          simp only [Session.step, hplace]
          exact h
      | some next =>
          have hrest : Fixed R { s with computing := s.computing.eraseIdx place } :=
            ⟨fun next' hmem => h.computing next' (List.mem_of_mem_eraseIdx hmem), h.waiting⟩
          simp only [Session.step, hplace]
          exact hrest.absorb (s.cache.fixed_finish hR next ending) _
  | resume place told =>
      cases hplace : s.waiting[place]? with
      | none =>
          simp only [Session.step, hplace]
          exact h
      | some turn =>
          have hturn : turn.Fixed R := h.waiting turn (List.mem_of_getElem? hplace)
          have hrest : Fixed R { s with waiting := s.waiting.eraseIdx place } :=
            ⟨h.computing, fun turn' hmem => h.waiting turn' (List.mem_of_mem_eraseIdx hmem)⟩
          cases told with
          | some value =>
              simp only [Session.step, hplace]
              exact ⟨hrest.computing, hrest.waiting⟩
          | none =>
              simp only [Session.step, hplace]
              exact hrest.absorb (s.cache.fixed_enter hturn) _
  | sweep order => exact ⟨h.computing, h.waiting⟩
  | setWall wall => exact ⟨h.computing, h.waiting⟩

/-- A move sets the wall clock, or makes elementary changes.  It stores a key,
    in place of no live item, only if it says so, and with an expiry in `R` if
    it finds the open calls like that. -/
theorem changes_step (h : s.Fixed R) (hR : ∀ ttl, R (expiryFrom s.cache.now ttl))
    (move : Move K V) :
    (∃ wall, move = .setWall wall) ∨
      s.cache.Changes (fun key expireAt => move.Stores s key ∧ R expireAt)
        (s.step move).cache := by
  cases move with
  | setWall wall => exact Or.inl ⟨wall, rfl⟩
  | begin request =>
      refine Or.inr ?_
      simp only [step, cache_absorb]
      exact s.cache.changes_begin request fun key ttl hstores => ⟨hstores, hR ttl⟩
  | finish place ending =>
      refine Or.inr ?_
      cases hplace : s.computing[place]? with
      | none =>
          simp only [step, hplace]
          exact .refl
      | some next =>
          simp only [step, hplace, cache_absorb]
          refine s.cache.changes_finish next ending fun key expireAt hstores hexpires => ?_
          refine ⟨⟨next, hplace, hstores⟩, ?_⟩
          exact (h.computing next (List.mem_of_getElem? hplace)).of_expires hR hexpires
  | resume place told =>
      refine Or.inr ?_
      cases hplace : s.waiting[place]? with
      | none =>
          simp only [step, hplace]
          exact .refl
      | some turn => cases told with
        | some value =>
            simp only [step, hplace]
            exact s.cache.changes_join turn value
        | none =>
            have hturn : turn.Fixed R := h.waiting turn (List.mem_of_getElem? hplace)
            simp only [step, hplace, cache_absorb]
            exact s.cache.changes_enter turn fun expireAt hmem hstores =>
              ⟨⟨turn, hplace, hstores⟩, hturn expireAt hmem⟩
  | sweep order => exact Or.inr (s.cache.changes_swept order)

/-! ## The recency list in a session -/

theorem ranked_step (hs : s.cache.Ranked) (move : Move K V) : (s.step move).cache.Ranked := by
  rcases changes_step s.fixed_true (fun _ => trivial) move with ⟨wall, rfl⟩ | hchanges
  · exact hs.same rfl rfl
  · exact hchanges.ranked hs

/-- At every moment of every session, the recency list, if there is one, is in
    good order. -/
theorem ranked_run (hs : s.cache.Ranked) (moves : List (Move K V)) :
    (s.run moves).cache.Ranked := by
  induction moves generalizing s with
  | nil => exact hs
  | cons move rest ih => exact ih (ranked_step hs move)

theorem capacity_run (s : Session K V) (moves : List (Move K V)) :
    (s.run moves).cache.capacity = s.cache.capacity := by
  induction moves generalizing s with
  | nil => rfl
  | cons move rest ih =>
      refine (ih (s.step move)).trans ?_
      rcases changes_step s.fixed_true (fun _ => trivial) move with ⟨wall, rfl⟩ | hchanges
      · rfl
      · exact hchanges.capacity

end Session

end ExpiringCache
