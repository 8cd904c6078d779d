import ExpiringCache.Proofs.Order.Calls
import ExpiringCache.Proofs.Janitor.Session
import Mathlib.Logic.Function.Basic

/-! # Callers in each other's way

    `Cache.put`, `Cache.get`, `Cache.replace`, `Cache.remove` and a sweep are
    what one caller does who is alone.  To the store, the notices, the
    recency list and the expiry index such a call is a sequence of accesses,
    and the other callers may come in between any two of them.

    Here every call is cut into its accesses.  What a caller has yet to do is
    a list of instructions; to carry one out is one access, after which it
    may be known that more has to be done before the rest. -/

namespace ExpiringCache

/-- A call whose accesses are looked at one by one. -/
inductive Errand (K V : Type) where
  | put (key : K) (value : V) (ttl : Duration)
  | get (key : K)
  | replace (key : K) (value : V)
  | remove (keys : List K)
  | sweep (order : VisitingOrder K)

/-- What a sweep keeps in mind. -/
structure Round (K : Type) where
  order : VisitingOrder K
  -- the instant as of which entries are expired
  now : Int
  -- the number of entries deleted so far
  expired : Nat

namespace Round

variable {K : Type}

/-- The bucket of the instant. -/
def current (round : Round K) : Int := bucketOf round.now

/-- The oldest bucket that is visited. -/
def oldest (round : Round K) : Int := round.current - Int.ofNat scanWindow * bucketWidth

/-- One more entry has been deleted. -/
def counted (round : Round K) : Round K := { round with expired := round.expired + 1 }

end Round

/-- Something that a caller is about to do.  At most one part of the cache is
    looked at or changed by it. -/
inductive Instr (K V : Type) where
  -- the first access of a call
  | call (errand : Errand K V)
  -- keep an item in the store; a notice and the use of the key follow
  | store (key : K) (item : Item V)
  | push (key : K) (instant : Int)
  | touch (key : K)
  -- read the clock for the notices of keys that fell off the recency list
  | evict (keys : List K)
  | delete (key : K)
  | countEvicted (n : Nat)
  | lookUp (key : K) (now : Int)
  | countHit
  | countMiss
  -- read the clock for the notices of keys that were deleted from the store
  | mark (keys : List K)
  -- take keys out of the recency list
  | unlink (keys : List K)
  -- take the next notice, if there is one
  | drain (round : Round K)
  | inspect (round : Round K) (notice : Notice K)
  -- delete the key of a notice if it is expired
  | expel (round : Round K) (key : K)
  -- delete the buckets at the offsets
  | scan (round : Round K) (offsets : List Int)
  -- look at the keys of a deleted bucket, then at the buckets at the offsets
  | visit (round : Round K) (bucket : Int) (keys : List K) (offsets : List Int)
  -- file a live key anew if it is still assigned to the bucket
  | refile (bucket : Int) (key : K) (expireAt : Int)
  -- delete a key of a bucket if it is expired
  | oust (round : Round K) (bucket : Int) (key : K) (keys : List K) (offsets : List Int)
  -- end the assignment of a key to the bucket if the key is gone
  | check (bucket : Int) (key : K)
  | reindex (key : K) (bucket : Int)
  | unindex (key : K)
  | unassign (key : K) (bucket : Int)
  | countExpired (n : Nat)

namespace Cache

variable {K V : Type} [DecidableEq K]

/-- What is yet to be done of an errand after its first access, and the cache
    then. -/
def access (c : Cache K V) : Errand K V → List (Instr K V) × Cache K V
  | .put key value ttl =>
      if ttl.isNegative then ([.call (.remove [key])], c)
      else ([.store key ⟨value, (c.expiryFrom ttl).1⟩], (c.expiryFrom ttl).2)
  | .get key => ([.lookUp key c.now], c.read)
  | .replace key value =>
      let (old, store) := c.read.store.replaceValue c.now key value
      (if old.isSome then [.touch key] else [], { c.read with store := store })
  | .remove keys =>
      if keys.isEmpty then ([], c)
      else
        let ((deleted, _), store) := c.read.store.deleteAll c.now keys
        ([.mark deleted], { c.read with store := store })
  | .sweep order => ([.drain ⟨order, c.now, 0⟩], c.read)

/-- Carries an instruction out.  Answers what has to be done because of it,
    before anything else, and the cache then. -/
def obey (c : Cache K V) : Instr K V → List (Instr K V) × Cache K V
  | .call errand => c.access errand
  | .store key item =>
      ([.push key item.expireAt, .touch key], { c with store := c.store.set key item })
  | .push key instant => ([], { c with notices := c.notices.push key instant })
  | .touch key =>
      match c.recency with
      | none => ([], c)
      | some recency =>
          let (evicted, recency) := recency.touch key
          (if evicted.isEmpty then [] else [.evict evicted], { c with recency := some recency })
  | .evict keys =>
      ((keys.flatMap fun key => [.delete key, .push key (c.now - removalOffset)]) ++
        [.countEvicted keys.length], c.read)
  | .delete key => ([], { c with store := (c.store.delete key).2 })
  | .countEvicted n => ([], { c with counters := c.counters.evicted n })
  | .lookUp key now =>
      if (c.store.live? now key).isSome then ([.countHit, .touch key], c) else ([.countMiss], c)
  | .countHit => ([], { c with counters := c.counters.hit })
  | .countMiss => ([], { c with counters := c.counters.miss })
  | .mark keys =>
      ((keys.map fun key => .push key (c.now - removalOffset)) ++ [.unlink keys], c.read)
  | .unlink keys =>
      ([], { c with recency := c.recency.map fun recency => recency.removeAll keys })
  | .drain round =>
      match c.notices.pop with
      | (none, _) => ([.scan round scanOffsets], c)
      | (some notice, queue) => ([.inspect round notice], { c with notices := queue })
  | .inspect round notice =>
      match c.store.item? notice.key with
      | none => ([.unlink [notice.key], .unindex notice.key, .drain round], c)
      | some item =>
          if item.isExpiredAt round.now then ([.expel round notice.key], c)
          else
            let noticed := bucketOf notice.expireAt
            let bucket := if noticed < round.oldest then bucketOf item.expireAt else noticed
            ([.reindex notice.key bucket, .drain round], c)
  | .expel round key =>
      match c.store.deleteExpired round.now key with
      | (false, _) => ([.unindex key, .drain round], c)
      | (true, store) =>
          ([.unlink [key], .unindex key, .drain round.counted], { c with store := store })
  | .scan round [] => ([.countExpired round.expired], c)
  | .scan round (offset :: offsets) =>
      let bucket := round.current - offset * bucketWidth
      match c.index.deleteBucket bucket with
      | (none, _) => ([.scan round offsets], c)
      | (some keys, index) =>
          ([.visit round bucket (round.order.arrange keys) offsets], { c with index := index })
  | .visit round _ [] offsets => ([.scan round offsets], c)
  | .visit round bucket (key :: keys) offsets =>
      match c.store.live? round.now key with
      | some item =>
          ([.refile bucket key item.expireAt, .visit round bucket keys offsets], c)
      | none => ([.oust round bucket key keys offsets], c)
  | .refile bucket key expireAt =>
      if c.index.bucket key = bucket then ([.reindex key (bucketOf expireAt)], c) else ([], c)
  | .oust round bucket key keys offsets =>
      match c.store.deleteExpired round.now key with
      | (false, _) => ([.check bucket key, .visit round bucket keys offsets], c)
      | (true, store) =>
          ([.unlink [key], .unassign key bucket, .visit round.counted bucket keys offsets],
            { c with store := store })
  | .check bucket key =>
      if c.store.contains key then ([], c) else ([.unassign key bucket], c)
  | .reindex key bucket => ([], { c with index := (c.index.reindex key bucket).2 })
  | .unindex key => ([], { c with index := c.index.unindex key })
  | .unassign key bucket => ([], { c with index := (c.index.unassignFrom key bucket).2 })
  | .countExpired n => ([], { c with counters := c.counters.swept n })

/-! ## What an instruction comes to -/

section Obey

-- the equations of `obey` are many: they are worked out here, once for all lemmas that follow
attribute [local simp] obey

variable {c : Cache K V} {key : K}

/-- With a negative lifetime a caller that wants to set a key goes on to
    remove it. -/
theorem access_put_of_neg {ttl : Duration} (h : ttl.isNegative = true) (key : K) (value : V) :
    c.access (.put key value ttl) = ([.call (.remove [key])], c) := by
  simp only [access, h, if_true]

/-- A caller that sets a key fixes the expiry first and has the store to write
    next. -/
theorem access_put_of_nonneg {ttl : Duration} (h : ttl.isNegative = false) (key : K) (value : V) :
    c.access (.put key value ttl) =
      ([.store key ⟨value, (c.expiryFrom ttl).1⟩], (c.expiryFrom ttl).2) := by
  simp only [access, h, Bool.false_eq_true, if_false]

/-- To remove no keys takes no access. -/
theorem access_remove_of_nil {keys : List K} (h : keys.isEmpty = true) :
    c.access (.remove keys) = ([], c) := by
  simp only [access, h, if_true]

/-- Keys are deleted from the store in one access; notices and the recency
    list come after. -/
theorem access_remove_of_cons {keys : List K} (h : keys.isEmpty = false) :
    c.access (.remove keys) = ([.mark (c.read.store.deleteAll c.now keys).1.1],
      { c.read with store := (c.read.store.deleteAll c.now keys).2 }) := by
  simp only [access, h, Bool.false_eq_true, if_false]

/-- To touch a key in the recency list leaves the victims, if there are any,
    to be evicted. -/
theorem obey_touch_of_ranked {recency : Recency K} (h : c.recency = some recency) (key : K) :
    c.obey (.touch key) =
      (if (recency.touch key).1.isEmpty then [] else [.evict (recency.touch key).1],
        { c with recency := some (recency.touch key).2 }) := by
  simp only [obey, h]

/-- A key found live is counted as a hit, and is to be touched. -/
theorem obey_lookUp_of_live {now : Int} (h : (c.store.live? now key).isSome = true) :
    c.obey (.lookUp key now) = ([.countHit, .touch key], c) := by
  simp only [obey, h, if_true]

/-- A key not found live is counted as a miss, and that is all. -/
theorem obey_lookUp_of_dead {now : Int} (h : (c.store.live? now key).isSome = false) :
    c.obey (.lookUp key now) = ([.countMiss], c) := by
  simp only [obey, h, Bool.false_eq_true, if_false]

variable {round : Round K}

/-- A sweep that finds no notice goes on to its buckets. -/
theorem obey_drain_of_none {queue : NoticeQueue K} (h : c.notices.pop = (none, queue)) :
    c.obey (.drain round) = ([.scan round scanOffsets], c) := by
  simp only [obey, h]

/-- A sweep takes the notices one by one. -/
theorem obey_drain_of_some {notice : Notice K} {queue : NoticeQueue K}
    (h : c.notices.pop = (some notice, queue)) :
    c.obey (.drain round) = ([.inspect round notice], { c with notices := queue }) := by
  simp only [obey, h]

/-- A notice of a key that is gone makes the sweep take the key off both
    lists. -/
theorem obey_inspect_of_gone {notice : Notice K} (h : c.store.item? notice.key = none) :
    c.obey (.inspect round notice) =
      ([.unlink [notice.key], .unindex notice.key, .drain round], c) := by
  simp only [obey, h]

/-- A notice of an item that has expired makes the sweep expel its key. -/
theorem obey_inspect_of_expired {notice : Notice K} {item : Item V}
    (h : c.store.item? notice.key = some item) (hexpired : item.isExpiredAt round.now = true) :
    c.obey (.inspect round notice) = ([.expel round notice.key], c) := by
  simp only [obey, h, hexpired, if_true]

/-- A notice of a live item makes the sweep file its key: under the second of
    the notice, or under that of the item if the sweep has passed the former. -/
theorem obey_inspect_of_live {notice : Notice K} {item : Item V}
    (h : c.store.item? notice.key = some item) (hlive : ¬item.isExpiredAt round.now = true) :
    c.obey (.inspect round notice) =
      ([.reindex notice.key (if bucketOf notice.expireAt < round.oldest then
        bucketOf item.expireAt else bucketOf notice.expireAt), .drain round], c) := by
  simp only [obey, h, if_neg hlive]

/-- A key that another caller has renewed or deleted since it was inspected is
    only taken off the index. -/
theorem obey_expel_of_false {store : Store K V}
    (h : c.store.deleteExpired round.now key = (false, store)) :
    c.obey (.expel round key) = ([.unindex key, .drain round], c) := by
  simp only [obey, h]

/-- A key that is expelled is taken off both lists in accesses of their own,
    after its deletion. -/
theorem obey_expel_of_true {store : Store K V}
    (h : c.store.deleteExpired round.now key = (true, store)) :
    c.obey (.expel round key) =
      ([.unlink [key], .unindex key, .drain round.counted], { c with store := store }) := by
  simp only [obey, h]

variable {offset : Int} {offsets : List Int}

/-- A sweep passes over a bucket that is not held. -/
theorem obey_scan_of_none {index : ExpiryIndex K}
    (h : c.index.deleteBucket (round.current - offset * bucketWidth) = (none, index)) :
    c.obey (.scan round (offset :: offsets)) = ([.scan round offsets], c) := by
  simp only [obey, h]

/-- A sweep deletes a bucket in one access and visits its keys afterwards, one
    by one. -/
theorem obey_scan_of_some {keys : List K} {index : ExpiryIndex K}
    (h : c.index.deleteBucket (round.current - offset * bucketWidth) = (some keys, index)) :
    c.obey (.scan round (offset :: offsets)) =
      ([.visit round (round.current - offset * bucketWidth) (round.order.arrange keys) offsets],
        { c with index := index }) := by
  simp only [obey, h]

variable {bucket : Int} {keys : List K}

/-- A live key of a deleted bucket is to be filed anew. -/
theorem obey_visit_of_live {item : Item V} (h : c.store.live? round.now key = some item) :
    c.obey (.visit round bucket (key :: keys) offsets) =
      ([.refile bucket key item.expireAt, .visit round bucket keys offsets], c) := by
  simp only [obey, h]

/-- A key of a deleted bucket that is not live is to be ousted. -/
theorem obey_visit_of_dead (h : c.store.live? round.now key = none) :
    c.obey (.visit round bucket (key :: keys) offsets) =
      ([.oust round bucket key keys offsets], c) := by
  simp only [obey, h]

/-- A key whose assignment has not changed since its bucket was deleted is
    filed under its expiry. -/
theorem obey_refile_of_eq (h : c.index.bucket key = bucket) (expireAt : Int) :
    c.obey (.refile bucket key expireAt) = ([.reindex key (bucketOf expireAt)], c) := by
  simp only [obey, if_pos h]

/-- A key that another caller has filed elsewhere in the meantime is left
    there. -/
theorem obey_refile_of_ne (h : c.index.bucket key ≠ bucket) (expireAt : Int) :
    c.obey (.refile bucket key expireAt) = ([], c) := by
  simp only [obey, if_neg h]

/-- A key that could not be ousted is checked once more. -/
theorem obey_oust_of_false {store : Store K V}
    (h : c.store.deleteExpired round.now key = (false, store)) :
    c.obey (.oust round bucket key keys offsets) =
      ([.check bucket key, .visit round bucket keys offsets], c) := by
  simp only [obey, h]

/-- A key that is ousted is taken off both lists in accesses of their own,
    after its deletion. -/
theorem obey_oust_of_true {store : Store K V}
    (h : c.store.deleteExpired round.now key = (true, store)) :
    c.obey (.oust round bucket key keys offsets) =
      ([.unlink [key], .unassign key bucket, .visit round.counted bucket keys offsets],
        { c with store := store }) := by
  simp only [obey, h]

/-- A key that is stored again is left as it is. -/
theorem obey_check_of_stored (h : c.store.contains key = true) (bucket : Int) :
    c.obey (.check bucket key) = ([], c) := by
  simp only [obey, h, if_true]

/-- A key that is gone loses its assignment. -/
theorem obey_check_of_gone (h : c.store.contains key = false) (bucket : Int) :
    c.obey (.check bucket key) = ([.unassign key bucket], c) := by
  simp only [obey, h, Bool.false_eq_true, if_false]

end Obey

/-- An entry is stored under `key`, live or expired. -/
def Stores (c : Cache K V) (key : K) : Prop := c.store.contains key = true

/-- The recency list has `key`. -/
def Lists (c : Cache K V) (key : K) : Prop :=
  ∃ recency, c.recency = some recency ∧ recency.contains key = true

end Cache

/-- A cache with what each of its callers has yet to do. -/
structure Traffic (I K V : Type) where
  cache : Cache K V
  tasks : I → List (Instr K V)

namespace Traffic

variable {I K V : Type}

/-- What can happen next. -/
inductive Step (I K V : Type) where
  -- a caller that has nothing to do makes a call
  | begin (i : I) (errand : Errand K V)
  -- a caller does what is next for it
  | go (i : I)
  | setWall (wall : Int)

/-- A cache that nobody uses. -/
def quiet (c : Cache K V) : Traffic I K V := ⟨c, fun _ => []⟩

/-- All calls have returned. -/
def Idle (t : Traffic I K V) : Prop := ∀ i, t.tasks i = []

/-- The instruction that is carried out next. -/
def next? (t : Traffic I K V) : Step I K V → Option (Instr K V)
  | .go i => (t.tasks i).head?
  | _ => none

variable [DecidableEq I] [DecidableEq K]

/-- What it comes to. -/
def after (t : Traffic I K V) : Step I K V → Traffic I K V
  | .begin i errand =>
      match t.tasks i with
      | [] => { t with tasks := Function.update t.tasks i [.call errand] }
      | _ :: _ => t
  | .go i =>
      match t.tasks i with
      | [] => t
      | instr :: rest =>
          { cache := (t.cache.obey instr).2
            tasks := Function.update t.tasks i ((t.cache.obey instr).1 ++ rest) }
  | .setWall wall => { t with cache := { t.cache with clock := t.cache.clock.setTo wall } }

section After

variable {t : Traffic I K V} {i : I}

/-- A call is accepted from a caller that has nothing to do, -/
theorem after_begin_of_free (h : t.tasks i = []) (errand : Errand K V) :
    t.after (.begin i errand) = ⟨t.cache, Function.update t.tasks i [.call errand]⟩ := by
  simp only [after, h]

/-- and from no other. -/
theorem after_begin_of_busy {instr : Instr K V} {rest : List (Instr K V)}
    (h : t.tasks i = instr :: rest) (errand : Errand K V) : t.after (.begin i errand) = t := by
  simp only [after, h]

/-- A caller that has nothing to do does nothing. -/
theorem after_go_of_free (h : t.tasks i = []) : t.after (.go i) = t := by
  simp only [after, h]

/-- A busy caller carries out its next instruction, and what that leaves to be
    done comes before the rest. -/
theorem after_go_of_busy {instr : Instr K V} {rest : List (Instr K V)}
    (h : t.tasks i = instr :: rest) :
    t.after (.go i) = ⟨(t.cache.obey instr).2,
      Function.update t.tasks i ((t.cache.obey instr).1 ++ rest)⟩ := by
  simp only [after, h]

end After

/-- What several steps come to. -/
def run (t : Traffic I K V) (steps : List (Step I K V)) : Traffic I K V := steps.foldl after t

end Traffic

end ExpiringCache
