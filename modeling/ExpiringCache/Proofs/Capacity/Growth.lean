import ExpiringCache.Proofs.Capacity.Calls

/-! # More capacity never loses a hit

    The same calls are made on two caches, one of which has more room than
    the other, and nothing ever expires.  Then at every moment between two
    calls all that the one stores is stored by the other, too, in the same
    order of use, so whatever a call finds there it finds here; and no more
    misses were counted here than there.

    The values of a key may differ: a key that fell off the smaller cache is
    stored anew by a call that only looks it up in the other.  When and how
    the two are swept, and what their clocks show, does not matter. -/

namespace ExpiringCache

variable {K V : Type}

/-! ## What happens to a cache -/

/-- Something that is no call: a sweep, or a movement of the wall clock. -/
inductive Interlude (K : Type) where
  | sweep (order : VisitingOrder K)
  | setWall (wall : Int)

/-- The wall clock is not set to `never` or beyond. -/
def Interlude.Early : Interlude K → Prop
  | .sweep _ => True
  | .setWall wall => wall < never

/-- Something that happens to the cache of a single client. -/
inductive Deed (K V : Type) where
  -- a call, with what happens while its computation runs, and how that ends
  | call (request : Request K V) (during : List (Interlude K)) (ending : Ending V)
  | idle (what : Interlude K)

namespace Deed

/-- All entries last for ever or not at all, and "for ever" does not come. -/
def Endless : Deed K V → Prop
  | call request during _ => request.Endless ∧ ∀ what ∈ during, what.Early
  | idle what => what.Early

/-- The call, with the ending of its computation. -/
def call? : Deed K V → Option (Request K V × Ending V)
  | call request _ ending => some (request, ending)
  | idle _ => none

end Deed

variable [DecidableEq K]

namespace Cache

/-- The cache after something that is no call. -/
def pass (c : Cache K V) : Interlude K → Cache K V
  | .sweep order => c.swept order
  | .setWall wall => { c with clock := c.clock.setTo wall }

/-- The cache after a deed. -/
def serve (c : Cache K V) : Deed K V → Cache K V
  | .call request during ending =>
      (c.call request fun c => ((ending, ()), during.foldl pass c)).2
  | .idle what => c.pass what

/-- The cache after several deeds. -/
def serveAll (c : Cache K V) (deeds : List (Deed K V)) : Cache K V := deeds.foldl serve c

end Cache

/-! ## What the calls say -/

/-- The keys in order of use and the number of misses after a call. -/
def booked (capacity : Nat) (s : List K × Nat) (call : Request K V × Ending V) :
    List K × Nat :=
  ((call.1.effect call.2).order capacity s.1, s.2 + call.1.missed s.1)

/-- The keys in order of use and the number of misses after several calls on
    a new cache. -/
def ledger (capacity : Nat) (calls : List (Request K V × Ending V)) : List K × Nat :=
  calls.foldl (booked capacity) ([], 0)

/-- A call that misses under the greater capacity misses under the other. -/
theorem Request.missed_le {ks ks' : List K} (h : ks ⊆ ks') (request : Request K V) :
    request.missed ks' ≤ request.missed ks := by
  rw [missed, missed]
  cases request.counted? with
  | none => exact Nat.le_refl _
  | some key =>
      by_cases hkey : key ∈ ks
      · simp [hkey, h hkey]
      · simp only [if_neg hkey]
        split
        · exact Nat.zero_le _
        · exact Nat.le_refl _

/-- The same calls keep the keys under a capacity within those under a
    greater one, and the misses below. -/
theorem within_foldl_booked {capacity capacity' : Nat} {s s' : List K × Nat}
    (h : Recency.Within capacity capacity' s.1 s'.1) (hnodup' : s'.1.Nodup)
    (hmisses : s'.2 ≤ s.2) (calls : List (Request K V × Ending V)) :
    Recency.Within capacity capacity' (calls.foldl (booked capacity) s).1
        (calls.foldl (booked capacity') s').1 ∧
      (calls.foldl (booked capacity') s').2 ≤ (calls.foldl (booked capacity) s).2 := by
  induction calls generalizing s s' with
  | nil => exact ⟨h, hmisses⟩
  | cons call rest ih =>
      have hmissed := call.1.missed_le h.sublist.subset
      exact ih (Effect.within_order h hnodup' (call.1.effect call.2))
        (Effect.nodup_order hnodup' capacity' (call.1.effect call.2))
        (Nat.add_le_add hmisses hmissed)

theorem within_ledger {capacity capacity' : Nat} (h : Recency.Roomier capacity capacity')
    (calls : List (Request K V × Ending V)) :
    Recency.Within capacity capacity' (ledger capacity calls).1 (ledger capacity' calls).1 ∧
      (ledger capacity' calls).2 ≤ (ledger capacity calls).2 :=
  within_foldl_booked (.nil h) List.nodup_nil (Nat.le_refl 0) calls

/-! ## Lasting caches do as the calls say -/

namespace Cache

namespace Lasting

variable {c : Cache K V} {capacity misses : Nat} {ks : List K} {flights : Flights K}

theorem pass (h : c.Lasting capacity ks misses flights) {what : Interlude K}
    (hwhat : what.Early) : (c.pass what).Lasting capacity ks misses flights := by
  cases what with
  | sweep order => exact h.swept order
  | setWall wall => exact h.setWall hwhat

theorem foldl_pass (h : c.Lasting capacity ks misses flights) {during : List (Interlude K)}
    (hduring : ∀ what ∈ during, what.Early) :
    (during.foldl Cache.pass c).Lasting capacity ks misses flights := by
  induction during generalizing c with
  | nil => exact h
  | cons what rest ih =>
      exact ih (h.pass (hduring what List.mem_cons_self))
        fun what' hmem => hduring what' (List.mem_cons_of_mem _ hmem)

theorem serve_call (h : c.Lasting capacity ks misses .none) {request : Request K V}
    {during : List (Interlude K)} {ending : Ending V}
    (hdeed : (Deed.call request during ending).Endless) :
    (c.serve (.call request during ending)).Lasting capacity
      (booked capacity (ks, misses) (request, ending)).1
      (booked capacity (ks, misses) (request, ending)).2 .none :=
  (h.comes_begin hdeed.1 ending).call fun _ _ hd => ⟨rfl, hd.foldl_pass hdeed.2⟩

theorem serveAll (h : c.Lasting capacity ks misses .none) {deeds : List (Deed K V)}
    (hdeeds : ∀ deed ∈ deeds, deed.Endless) :
    (c.serveAll deeds).Lasting capacity
      ((deeds.filterMap Deed.call?).foldl (booked capacity) (ks, misses)).1
      ((deeds.filterMap Deed.call?).foldl (booked capacity) (ks, misses)).2 .none := by
  induction deeds generalizing c ks misses with
  | nil => exact h
  | cons deed rest ih =>
      have hdeed := hdeeds deed List.mem_cons_self
      have hrest : ∀ deed' ∈ rest, deed'.Endless :=
        fun deed' hmem => hdeeds deed' (List.mem_cons_of_mem _ hmem)
      cases deed with
      | call request during ending => exact ih (h.serve_call hdeed) hrest
      | idle what => exact ih (h.pass hdeed) hrest

end Lasting

/-! ## The two caches -/

/-- The second cache has all that the first one has, keys used later behind
    keys used earlier, and has counted no more misses. -/
structure Retains (c c' : Cache K V) : Prop where
  stored : ∀ k ∈ c.keys, k ∈ c'.keys
  live : ∀ k, (c.store.live? c.now k).isSome = true → (c'.store.live? c'.now k).isSome = true
  order : ∀ r r', c.recency = some r → c'.recency = some r' → r.keys.Sublist r'.keys
  misses : c'.counters.misses ≤ c.counters.misses

/-- The recency list of an ordered cache, if there is one. -/
theorem Ordered.keys_eq {c : Cache K V} {capacity : Nat} {ks : List K}
    (h : c.Ordered capacity ks) {r : Recency K} (hr : c.recency = some r) : r.keys = ks := by
  by_cases hcap : capacity = 0
  · subst hcap
    rw [h.unranked] at hr
    cases hr
  · obtain ⟨r', hr', hlists⟩ := h.recency hcap
    rw [hr] at hr'
    cases hr'
    exact hlists.keys_eq

theorem Lasting.retains {c c' : Cache K V} {capacity capacity' misses misses' : Nat}
    {ks ks' : List K} {flights flights' : Flights K}
    (h : c.Lasting capacity ks misses flights) (h' : c'.Lasting capacity' ks' misses' flights')
    (hsub : ks.Sublist ks') (hmisses : misses' ≤ misses) : c.Retains c' where
  stored := by
    intro k hk
    rw [h.ordered.mem_keys] at hk
    rw [h'.ordered.mem_keys]
    exact hsub.subset hk
  live := by
    intro k hk
    obtain ⟨item, hlive⟩ := Option.isSome_iff_exists.mp hk
    obtain ⟨item', hlive', -⟩ :=
      h'.live_of_mem (hsub.subset (h.ordered.mem_of_live hlive)) h'.early
    rw [hlive']
    rfl
  order := by
    intro r r' hr hr'
    rw [h.ordered.keys_eq hr, h'.ordered.keys_eq hr']
    exact hsub
  misses := by
    rw [h.counted, h'.counted]
    exact hmisses

/-- After the same calls, a new cache with more room retains all that one
    with less room has.  The keys of either are those that the calls say, in
    the order of their latest use, also where no recency list shows it. -/
theorem retains_of_roomier {capacity capacity' : Nat}
    (hroom : Recency.Roomier capacity capacity') {clock clock' : Clock}
    (hclock : clock.now < never) (hclock' : clock'.now < never) {deeds deeds' : List (Deed K V)}
    (hdeeds : ∀ deed ∈ deeds, deed.Endless) (hdeeds' : ∀ deed ∈ deeds', deed.Endless)
    (hcalls : deeds.filterMap Deed.call? = deeds'.filterMap Deed.call?) :
    ((new capacity clock).serveAll deeds).Retains ((new capacity' clock').serveAll deeds') ∧
      ((new capacity clock).serveAll deeds).Ordered capacity
        (ledger capacity (deeds.filterMap Deed.call?)).1 ∧
      ((new capacity' clock').serveAll deeds').Ordered capacity'
        (ledger capacity' (deeds.filterMap Deed.call?)).1 ∧
      (ledger capacity (deeds.filterMap Deed.call?)).1.Sublist
        (ledger capacity' (deeds.filterMap Deed.call?)).1 := by
  have h := (lasting_new (K := K) (V := V) capacity hclock).serveAll hdeeds
  have h' := (lasting_new (K := K) (V := V) capacity' hclock').serveAll hdeeds'
  rw [← hcalls] at h'
  obtain ⟨hwithin, hmisses⟩ := within_ledger hroom (deeds.filterMap Deed.call?)
  exact ⟨h.retains h' hwithin.sublist hmisses, h.ordered, h'.ordered, hwithin.sublist⟩

/-- A key falls off the cache for one entry and stays in the cache for two,
    where it is found again; only there a sweep comes in between. -/
theorem retains_of_roomier_one_two :
    Recency.Roomier 1 2 ∧ (Clock.unread 100).now < never ∧
      ((new 1 (.unread 100) : Cache Nat Nat).serveAll
          [.call (.put 1 10 .zero) [] .nothing, .call (.put 2 20 .zero) [] .nothing,
            .call (.getOrPutFrom 1 .zero true) [.setWall 200] (.value 11)]).Retains
        ((new 2 (.unread 100)).serveAll
          [.call (.put 1 10 .zero) [] .nothing, .call (.put 2 20 .zero) [] .nothing,
            .idle (.sweep ⟨id, fun keys => .refl keys⟩),
            .call (.getOrPutFrom 1 .zero true) [] (.value 11)]) := by
  have hnow : (Clock.unread 100).now < never := by decide
  have hput : ∀ key value : Nat,
      (Deed.call (.put key value .zero) [] .nothing : Deed Nat Nat).Endless :=
    fun key value => ⟨Int.le_refl 0, fun what hmem => absurd hmem List.not_mem_nil⟩
  have hroom : Recency.Roomier 1 2 := Or.inr ⟨by decide, by decide⟩
  refine ⟨hroom, hnow, (retains_of_roomier hroom hnow hnow ?_ ?_ ?_).1⟩
  · intro deed hdeed
    simp only [List.mem_cons, List.not_mem_nil, or_false] at hdeed
    rcases hdeed with rfl | rfl | rfl
    · exact hput 1 10
    · exact hput 2 20
    · refine ⟨Int.le_refl 0, fun what hwhat => ?_⟩
      rw [List.mem_singleton.mp hwhat]
      show (200 : Int) < never
      decide
  · intro deed hdeed
    simp only [List.mem_cons, List.not_mem_nil, or_false] at hdeed
    rcases hdeed with rfl | rfl | rfl | rfl
    · exact hput 1 10
    · exact hput 2 20
    · trivial
    · exact ⟨Int.le_refl 0, fun what hmem => absurd hmem List.not_mem_nil⟩
  · rfl

end Cache

end ExpiringCache
