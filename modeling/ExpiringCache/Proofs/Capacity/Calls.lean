import ExpiringCache.Proofs.Capacity.Lasting

/-! # Calls on a cache in which nothing expires

    Every call takes a lasting cache to one whose keys are in the order that
    its effect says, and counts a miss if it looks for a key that is not
    there.  A call that runs a computation finds the same keys when it goes
    on as it left, provided that the computation makes no calls. -/

namespace ExpiringCache

variable {K V : Type} [DecidableEq K]

/-! ## Misses -/

namespace Request

variable {request : Request K V} {key : K} {ks : List K}

/-- A look-up for a key that is there counts no miss. -/
theorem missed_of_mem (h : request.counted? = some key) (hkey : key ∈ ks) :
    request.missed ks = 0 := by
  simp only [missed, h, if_pos hkey]

/-- A look-up for a key that is not there counts one miss. -/
theorem missed_of_not_mem (h : request.counted? = some key) (hkey : key ∉ ks) :
    request.missed ks = 1 := by
  simp only [missed, h, if_neg hkey]

end Request

namespace Cache

open Recency (used recalled kept)

/-- A call has come to its end, where the keys are `ks'`, or to its
    computation, where they still are `ks` and from where it comes to that
    end if they stay so. -/
def Comes (capacity : Nat) (ks ks' : List K) (misses : Nat) (ending : Ending V) :
    Progress K V × Cache K V → Prop
  | (.done _, c) => c.Lasting capacity ks' misses .none
  | (.producing next, c) =>
      ∃ flights, c.Lasting capacity ks misses flights ∧
        ∀ d : Cache K V, d.Lasting capacity ks misses flights →
          (d.finish next ending).2.Lasting capacity ks' misses .none
  | (.waiting _, _) => False

/-- A computation that leaves the keys alone takes a call to its end. -/
theorem Comes.call {R : Type} {c : Cache K V} {capacity misses : Nat} {ks ks' : List K}
    {ending : Ending V} {request : Request K V}
    (h : Comes capacity ks ks' misses ending (c.begin request))
    {produce : Cache K V → (Ending V × R) × Cache K V}
    (hproduce : ∀ d flights, d.Lasting capacity ks misses flights →
      (produce d).1.1 = ending ∧ (produce d).2.Lasting capacity ks misses flights) :
    (c.call request produce).2.Lasting capacity ks' misses .none := by
  rw [Cache.call]
  generalize c.begin request = begun at h
  obtain ⟨progress, d⟩ := begun
  cases progress with
  | done result => exact h
  | producing next =>
      obtain ⟨flights, hd, hfinish⟩ := h
      obtain ⟨hending, hafter⟩ := hproduce d flights hd
      simp only
      generalize produce d = produced at hending hafter
      obtain ⟨⟨ending', kept⟩, d'⟩ := produced
      have hending : ending' = ending := hending
      subst hending
      exact hfinish d' hafter
  | waiting turn => exact h.elim

namespace Lasting

variable {c : Cache K V} {capacity misses : Nat} {ks : List K} {flights : Flights K} {key : K}
  {ttl : Duration}

/-! ## Storing -/

/-- To set a key without expiry recalls it; a negative lifetime removes it. -/
theorem put (h : c.Lasting capacity ks misses flights) (key : K) (value : V)
    (httl : ttl.nanos ≤ 0) (ending : Ending V) :
    (c.put key value ttl).Lasting capacity
      (((Request.put key value ttl).effect ending).order capacity ks) misses flights := by
  rw [Cache.put, Request.effect]
  cases hneg : ttl.isNegative with
  | true => exact h.remove [key]
  | false =>
      rw [c.expiryFrom_of_zero httl hneg]
      exact h.write key value

/-- A row of writes without expiry recalls its keys one after the other. -/
theorem foldl_write (h : c.Lasting capacity ks misses flights) (entries : List (K × V)) :
    (entries.foldl (fun c entry => c.write entry.1 entry.2 never) c).Lasting capacity
      ((Effect.fill (entries.map Prod.fst)).order capacity ks) misses flights := by
  induction entries generalizing c ks with
  | nil => exact h
  | cons entry rest ih => exact ih (h.write entry.1 entry.2)

/-- A batch without expiry recalls its keys; with a negative lifetime it
    removes them. -/
theorem putAll (h : c.Lasting capacity ks misses flights) (entries : List (K × V))
    (httl : ttl.nanos ≤ 0) (ending : Ending V) :
    (c.putAll entries ttl).Lasting capacity
      (((Request.putAll entries ttl).effect ending).order capacity ks) misses flights := by
  rw [Cache.putAll, Request.effect]
  cases hneg : ttl.isNegative with
  | true => exact h.remove _
  | false =>
      rw [c.expiryFrom_of_zero httl hneg]
      exact h.foldl_write entries

/-- Storing under a key that was looked for in vain. -/
theorem store (h : c.Lasting capacity ks misses flights) (key : K) (value : V)
    (httl : ttl.nanos ≤ 0) (hneg : ttl.isNegative = false) :
    ((c.expiryFrom ttl).2.write key value (c.expiryFrom ttl).1).Lasting capacity
      (recalled capacity key true ks) misses flights := by
  rw [c.expiryFrom_of_zero httl hneg, Recency.recalled_of_stored]
  exact h.write key value

/-- To replace a value recalls its key if it is there. -/
theorem replace (h : c.Lasting capacity ks misses flights) (key : K) (value : V) :
    (c.replace key value).2.Lasting capacity (recalled capacity key false ks) misses
      flights := by
  by_cases hkey : key ∈ ks
  · obtain ⟨item, hlive, hend⟩ := h.read.live_of_mem hkey h.read.early
    simp only [Cache.replace, Store.replaceValue, hlive]
    rw [Recency.recalled_of_mem hkey]
    exact h.read.change key { item with value := value } hend c.notices
  · simp only [Cache.replace, Store.replaceValue, h.read.dead_of_not_mem hkey]
    rw [Recency.recalled_of_not_mem hkey]
    exact h.read

/-- To ask for a lifetime changes no order. -/
theorem lifetime (h : c.Lasting capacity ks misses flights) (key : K) :
    (c.lifetime key).2.Lasting capacity ks misses flights := by
  rw [Cache.lifetime]
  split
  · exact h.read
  · exact h.read

/-! ## Flights -/

/-- No flight is in progress on a cache without callers. -/
theorem isRunning (h : c.Lasting capacity ks misses .none) (key : K) :
    c.store.flights.isRunning key = false := by
  rw [h.flown]
  rfl

/-- The leader of the only flight ends it. -/
theorem left (h : c.Lasting capacity ks misses (Flights.none.enter key)) :
    Lasting { c with store := { c.store with flights := c.store.flights.leave key } } capacity
      ks misses .none :=
  h.flying (by rw [h.flown, Flights.leave_enter])

/-- The leader stores what its computation has come to. -/
theorem leave (h : c.Lasting capacity ks misses (Flights.none.enter key)) (hkey : key ∉ ks)
    (asks : Bool) (ending : Ending V) :
    (c.leave ⟨key, .produced, some never, asks⟩ ending).2.Lasting capacity
      (recalled capacity key ending.isValue ks) misses .none := by
  have hsame := Recency.recalled_of_not_mem hkey capacity
  rw [Cache.leave]
  cases ending with
  | value v =>
      rw [Ending.isValue, Recency.recalled_of_stored]
      exact h.left.write key v
  | nothing =>
      rw [Ending.isValue, hsame]
      exact h.left
  | failed failure =>
      rw [Ending.isValue, hsame]
      exact h.left
  | panicked text =>
      rw [Ending.isValue, hsame]
      exact h.left

/-- Under a negative lifetime it removes the key, which is not there. -/
theorem leave_of_negative (h : c.Lasting capacity ks misses (Flights.none.enter key))
    (hkey : key ∉ ks) (asks : Bool) (ending : Ending V) :
    (c.leave ⟨key, .produced, none, asks⟩ ending).2.Lasting capacity ks misses .none := by
  have hremoved := h.left.remove [key]
  rw [Recency.kept_of_not_mem hkey] at hremoved
  rw [Cache.leave]
  cases ending with
  | value v => exact hremoved
  | nothing => exact hremoved
  | failed failure => exact hremoved
  | panicked text => exact h.left

/-- A value at hand is stored at once under a key that is not there. -/
theorem enterNew_given (h : c.Lasting capacity ks misses .none) (hkey : key ∉ ks)
    (httl : ttl.nanos ≤ 0) (value : V) :
    ∃ reply c', c.enterNew key (.given value) ttl false = (.reply reply, c') ∧
      c'.Lasting capacity (recalled capacity key (!ttl.isNegative) ks) misses .none := by
  cases hneg : ttl.isNegative with
  | true =>
      have hremoved := h.remove [key]
      rw [Recency.kept_of_not_mem hkey, ← Recency.recalled_of_not_mem hkey capacity] at hremoved
      refine ⟨.value (some value), (c.remove [key]).2, ?_, hremoved⟩
      rw [c.enterNew_of_negative key ttl false hneg]
      simp only [Cache.enter, Store.beginProduce, h.isRunning, Bool.false_eq_true, if_false]
      rfl
  | false =>
      have hdead := h.read.dead_of_not_mem hkey c.read.now
      have hwritten := h.read.write key value
      rw [← Recency.recalled_of_stored] at hwritten
      refine ⟨.value (some value), c.read.write key value never, ?_, hwritten⟩
      rw [c.enterNew_of_nonnegative key ttl false hneg, c.expiryFrom_of_zero httl hneg]
      simp only [Cache.enter, Store.beginSetUnlessLive, h.isRunning, h.read.isRunning, hdead,
        Bool.false_eq_true, if_false]
      rfl

/-- A computation for a key that is not there begins its flight. -/
theorem comes_enterNew_produced (h : c.Lasting capacity ks misses .none) (hkey : key ∉ ks)
    (httl : ttl.nanos ≤ 0) (asks : Bool) (ending : Ending V) :
    Comes capacity ks (recalled capacity key (!ttl.isNegative && ending.isValue) ks) misses
      ending (c.enterNew key .produced ttl asks) := by
  cases hneg : ttl.isNegative with
  | true =>
      rw [c.enterNew_of_negative key ttl asks hneg]
      simp only [Cache.enter, Store.beginProduce, h.isRunning, Bool.false_eq_true, if_false]
      refine ⟨Flights.none.enter key, h.flying (by rw [h.flown]), fun d hd => ?_⟩
      rw [Bool.not_true, Bool.false_and, Recency.recalled_of_not_mem hkey]
      exact hd.leave_of_negative hkey asks ending
  | false =>
      have hdead := h.read.dead_of_not_mem hkey c.read.now
      rw [c.enterNew_of_nonnegative key ttl asks hneg, c.expiryFrom_of_zero httl hneg]
      simp only [Cache.enter, Store.beginSetUnlessLive, h.isRunning, h.read.isRunning, hdead,
        Bool.false_eq_true, if_false]
      refine ⟨Flights.none.enter key, h.read.flying (by rw [h.read.flown]), fun d hd => ?_⟩
      rw [Bool.not_false, Bool.true_and]
      exact hd.leave hkey asks ending

/-- A call that has missed its key and enters a flight recalls the key if
    there is a value in the end. -/
theorem comes_enterNew (h : c.Lasting capacity ks misses .none) (hkey : key ∉ ks)
    (httl : ttl.nanos ≤ 0) (payload : Payload V) (ending : Ending V) :
    Comes capacity ks (recalled capacity key (!ttl.isNegative && payload.yields ending) ks)
      misses ending (c.enterNew key payload ttl false) := by
  cases payload with
  | given value =>
      obtain ⟨reply, c', henter, hafter⟩ := h.enterNew_given hkey httl value
      rw [henter, Payload.yields, Bool.and_true]
      exact hafter
  | produced => exact h.comes_enterNew_produced hkey httl false ending

/-! ## Calls that look for a key -/

/-- A call that looks for a key first: what it comes to if the key is there,
    and if it is not. -/
theorem comes_seek (h : c.Lasting capacity ks misses .none) {request : Request K V}
    {ending : Ending V} {stores : Bool} (hcounted : request.counted? = some key)
    (heffect : request.effect ending = .seek key stores)
    (hfound : ∀ value c', c.get key = (some value, c') →
      ∃ reply, c.begin request = (.reply reply, c'))
    (hmissed : ∀ c', c.get key = (none, c') → key ∉ ks →
      c'.Lasting capacity ks (misses + 1) .none →
      Comes capacity ks (recalled capacity key stores ks) (misses + 1) ending
        (c.begin request)) :
    Comes capacity ks ((request.effect ending).order capacity ks)
      (misses + request.missed ks) ending (c.begin request) := by
  rw [heffect, Effect.order]
  by_cases hkey : key ∈ ks
  · obtain ⟨value, c', hget, hafter⟩ := h.get_of_mem hkey
    obtain ⟨reply, hbegin⟩ := hfound value c' hget
    rw [hbegin, Recency.recalled_of_mem hkey, Request.missed_of_mem hcounted hkey]
    exact hafter
  · obtain ⟨c', hget, hafter⟩ := h.get_of_not_mem hkey
    rw [Request.missed_of_not_mem hcounted hkey]
    exact hmissed c' hget hkey hafter

/-- A look-up recalls its key, or counts a miss. -/
theorem comes_get (h : c.Lasting capacity ks misses .none) (key : K) (ending : Ending V) :
    Comes capacity ks (((Request.get key).effect ending).order capacity ks)
      (misses + (Request.get key : Request K V).missed ks) ending (c.begin (.get key)) := by
  refine h.comes_seek rfl rfl (fun value c' hget => ?_) fun c' hget hkey hafter => ?_
  · exact ⟨.value (some value), by simp only [begin, hget]⟩
  · simp only [begin, hget]
    rw [Recency.recalled_of_not_mem hkey]
    exact hafter

/-- The question whether a key is there recalls it, or counts a miss. -/
theorem comes_contains (h : c.Lasting capacity ks misses .none) (key : K) (ending : Ending V) :
    Comes capacity ks (((Request.contains key).effect ending).order capacity ks)
      (misses + (Request.contains key : Request K V).missed ks) ending
      (c.begin (.contains key)) := by
  refine h.comes_seek rfl rfl (fun value c' hget => ?_) fun c' hget hkey hafter => ?_
  · exact ⟨.flag true, by simp only [begin, contains, hget, Option.isSome_some]⟩
  · simp only [begin, contains, hget]
    rw [Recency.recalled_of_not_mem hkey]
    exact hafter

/-- A value for an absent key recalls the key in either case. -/
theorem comes_putIfAbsent (h : c.Lasting capacity ks misses .none) (key : K) (value : V)
    (httl : ttl.nanos ≤ 0) (ending : Ending V) :
    Comes capacity ks (((Request.putIfAbsent key value ttl).effect ending).order capacity ks)
      (misses + (Request.putIfAbsent key value ttl).missed ks) ending
      (c.begin (.putIfAbsent key value ttl)) := by
  refine h.comes_seek rfl rfl (fun value c' hget => ?_) fun c' hget hkey hafter => ?_
  · exact ⟨.flag false, by simp only [begin, putIfAbsent, contains, hget]; rfl⟩
  · simp only [begin, putIfAbsent, contains, hget]
    cases hneg : ttl.isNegative with
    | true =>
        rw [Bool.not_true, Recency.recalled_of_not_mem hkey]
        exact hafter
    | false => exact hafter.store key value httl hneg

/-- A call for an absent key recalls it once its computation has a value. -/
theorem finishStore (h : c.Lasting capacity ks misses .none) (hkey : key ∉ ks)
    (httl : ttl.nanos ≤ 0) (hneg : ttl.isNegative = false) (ending : Ending V) :
    (c.finish (.store key ttl) ending).2.Lasting capacity
      (recalled capacity key ending.isValue ks) misses .none := by
  have hsame := Recency.recalled_of_not_mem hkey capacity
  cases ending with
  | value v => exact h.store key v httl hneg
  | nothing =>
      rw [Ending.isValue, hsame]
      exact h
  | failed failure =>
      rw [Ending.isValue, hsame]
      exact h
  | panicked text =>
      rw [Ending.isValue, hsame]
      exact h

/-- A computed value for an absent key recalls the key, in a flight or
    without. -/
theorem comes_putIfAbsentFrom (h : c.Lasting capacity ks misses .none) (key : K)
    (httl : ttl.nanos ≤ 0) (exclusive : Bool) (ending : Ending V) :
    Comes capacity ks
      (((Request.putIfAbsentFrom key ttl exclusive).effect ending).order capacity ks)
      (misses + (Request.putIfAbsentFrom key ttl exclusive : Request K V).missed ks) ending
      (c.begin (.putIfAbsentFrom key ttl exclusive)) := by
  refine h.comes_seek rfl rfl (fun value c' hget => ?_) fun c' hget hkey hafter => ?_
  · exact ⟨.flag false, by simp only [begin, beginPutIfAbsentFrom, contains, hget]; rfl⟩
  · simp only [begin, beginPutIfAbsentFrom, contains, hget]
    cases hneg : ttl.isNegative with
    | true =>
        rw [Bool.not_true, Bool.false_and, Recency.recalled_of_not_mem hkey]
        exact hafter
    | false => cases exclusive with
      | true =>
          have hcomes := hafter.comes_enterNew_produced hkey httl true ending
          rwa [hneg] at hcomes
      | false => exact ⟨.none, hafter, fun d hd => hd.finishStore hkey httl hneg ending⟩

/-- Both calls that compute under a flight begin in the same way. -/
theorem comes_beginGetOrPut (h : c.Lasting capacity ks misses .none) {request : Request K V}
    {payload : Payload V} (httl : ttl.nanos ≤ 0) {ending : Ending V}
    (hrequest : c.begin request = c.beginGetOrPut key payload ttl)
    (hcounted : request.counted? = some key)
    (heffect : request.effect ending =
      .seek key (!ttl.isNegative && payload.yields ending)) :
    Comes capacity ks ((request.effect ending).order capacity ks)
      (misses + request.missed ks) ending (c.begin request) := by
  refine h.comes_seek hcounted heffect (fun value c' hget => ?_) fun c' hget hkey hafter => ?_
  · exact ⟨.value (some value), hrequest.trans (beginGetOrPut_of_some hget payload ttl)⟩
  · rw [hrequest, beginGetOrPut_of_none hget]
    exact hafter.comes_enterNew hkey httl payload ending

/-- An offer recalls its key if there is a value and a lifetime to give it. -/
theorem finishOffer (h : c.Lasting capacity ks misses .none) (hkey : key ∉ ks)
    (httl : ttl.nanos ≤ 0) (ending : Ending V) :
    (c.finish (.offer key ttl) ending).2.Lasting capacity
      (recalled capacity key (!ttl.isNegative && ending.isValue) ks) misses .none := by
  have hsame := Recency.recalled_of_not_mem hkey capacity
  cases ending with
  | value v =>
      obtain ⟨reply, c', henter, hafter⟩ := h.enterNew_given hkey httl v
      simp only [finish, Cache.finishOffer, Ending.toExcept, henter, Ending.isValue, Bool.and_true]
      exact hafter
  | nothing =>
      rw [Ending.isValue, Bool.and_false, hsame]
      exact h
  | failed failure =>
      rw [Ending.isValue, Bool.and_false, hsame]
      exact h
  | panicked text =>
      rw [Ending.isValue, Bool.and_false, hsame]
      exact h

/-- A call that reads or offers recalls its key if it finds or gets a value. -/
theorem comes_getOrOffer (h : c.Lasting capacity ks misses .none) (key : K)
    (httl : ttl.nanos ≤ 0) (ending : Ending V) :
    Comes capacity ks (((Request.getOrPutFrom key ttl false).effect ending).order capacity ks)
      (misses + (Request.getOrPutFrom key ttl false : Request K V).missed ks) ending
      (c.begin (.getOrPutFrom key ttl false)) := by
  refine h.comes_seek rfl rfl (fun value c' hget => ?_) fun c' hget hkey hafter => ?_
  · exact ⟨.value (some value), beginGetOrOffer_of_some hget ttl⟩
  · have hbegin : c.begin (.getOrPutFrom key ttl false) = _ := beginGetOrOffer_of_none hget ttl
    rw [hbegin]
    exact ⟨.none, hafter, fun d hd => hd.finishOffer hkey httl ending⟩

/-! ## All calls -/

/-- Every call comes to the order that its effect says. -/
theorem comes_begin (h : c.Lasting capacity ks misses .none) {request : Request K V}
    (hrequest : request.Endless) (ending : Ending V) :
    Comes capacity ks ((request.effect ending).order capacity ks)
      (misses + request.missed ks) ending (c.begin request) := by
  cases request with
  | put key value ttl => exact h.put key value hrequest ending
  | putAll entries ttl => exact h.putAll entries hrequest ending
  | putIfAbsent key value ttl => exact h.comes_putIfAbsent key value hrequest ending
  | putIfAbsentFrom key ttl exclusive =>
      exact h.comes_putIfAbsentFrom key hrequest exclusive ending
  | get key => exact h.comes_get key ending
  | getOrPut key payload ttl => exact h.comes_beginGetOrPut hrequest rfl rfl rfl
  | getOrPutFrom key ttl exclusive => cases exclusive with
    | true => exact h.comes_beginGetOrPut hrequest rfl rfl rfl
    | false => exact h.comes_getOrOffer key hrequest ending
  | contains key => exact h.comes_contains key ending
  | lifetime key => exact h.lifetime key
  | replace key value => exact h.replace key value
  | setLifetime key ttl => exact hrequest.elim
  | remove keys => exact h.remove keys
  | size => exact h
  | keys => exact h
  | values => exact h
  | data => exact h
  | clear => exact h.clear
  | close => exact ⟨h.ordered.same rfl rfl fun _ => rfl, h.endless, h.early, h.counted, h.flown⟩
  | stats => exact h

end Lasting

end Cache

end ExpiringCache
