import ExpiringCache.Proofs.Janitor.Session

/-! # What a call does, step by step

    Here each part of each call is written down as a list of `Action`s, the
    steps that it consists of in this order.  To carry out the actions one
    after another is to carry out the part, so that whatever is counted along
    the actions is counted along the calls.

    One action has a precondition: a key is marked as used without being stored
    only if it is stored already.  This holds of every part of every call,
    except for those that go on after having waited for a flight. -/

namespace ExpiringCache

variable {K V : Type}

/-- A step of a call, or something else that happens to a cache. -/
inductive Action (K V : Type) where
  | read
  | hit
  | miss
  -- a flight begins, or ends
  | enter (key : K)
  | leave (key : K)
  -- store an item, leave a notice of its expiry, and mark the key as used
  | write (key : K) (item : Item V)
  -- store an item that expires when the one before does, and mark the key as used
  | rewrite (key : K) (item : Item V)
  | use (key : K)
  | remove (keys : List K)
  | clear
  | close
  | sweep (order : VisitingOrder K)
  | setWall (wall : Int)

namespace Action

/-- What an action notes down of a look-up: whether the key was found. -/
def lookup? : Action K V → Option Bool
  | .hit => some true
  | .miss => some false
  | _ => none

variable [DecidableEq K]

/-- The cache after an action. -/
def act (c : Cache K V) : Action K V → Cache K V
  | .read => c.read
  | .hit => { c with counters := c.counters.hit }
  | .miss => { c with counters := c.counters.miss }
  | .enter key => { c with store := { c.store with flights := c.store.flights.enter key } }
  | .leave key => { c with store := { c.store with flights := c.store.flights.leave key } }
  | .write key item => c.write key item.value item.expireAt
  | .rewrite key item => Cache.touch { c with store := c.store.set key item } key
  | .use key => c.touch key
  | .remove keys => (c.remove keys).2
  | .clear => c.clear
  | .close => c.close
  | .sweep order => c.swept order
  | .setWall wall => { c with clock := c.clock.setTo wall }

/-- A key that is used without being stored is there. -/
def Ready (c : Cache K V) : Action K V → Prop
  | .use key => (c.store.item? key).isSome = true
  | _ => True

end Action

variable [DecidableEq K]

namespace Cache

/-! ## The actions of calls -/

section Actions

variable (c : Cache K V)

/-- Fixing when a lifetime ends. -/
def fixing (ttl : Duration) : List (Action K V) := if ttl.isZero then [] else [.read]

/-- Storing with an expiry that is fixed first. -/
def storing (key : K) (value : V) (ttl : Duration) : List (Action K V) :=
  fixing ttl ++ [.write key ⟨value, (c.expiryFrom ttl).1⟩]

def putting (key : K) (value : V) (ttl : Duration) : List (Action K V) :=
  if ttl.isNegative then [.remove [key]] else c.storing key value ttl

def puttingAll (entries : List (K × V)) (ttl : Duration) : List (Action K V) :=
  if ttl.isNegative then [.remove (entries.map Prod.fst)]
  else fixing ttl ++ entries.map fun entry => .write entry.1 ⟨entry.2, (c.expiryFrom ttl).1⟩

def getting (key : K) : List (Action K V) :=
  match c.store.live? c.now key with
  | some _ => [.read, .hit, .use key]
  | none => [.read, .miss]

def puttingIfAbsent (key : K) (value : V) (ttl : Duration) : List (Action K V) :=
  c.getting key ++
    if (c.get key).1.isSome || ttl.isNegative then [] else (c.get key).2.storing key value ttl

def replacing (key : K) (value : V) : List (Action K V) :=
  .read :: match c.store.live? c.now key with
    | some item => [.rewrite key { item with value := value }]
    | none => []

def settingLifetime (key : K) (ttl : Duration) : List (Action K V) :=
  fixing ttl ++ .read :: match c.store.live? c.now key with
    | some item => [.write key { item with expireAt := (c.expiryFrom ttl).1 }]
    | none => []

/-- Settling the value of a turn where nothing was stored by it. -/
def settling (turn : Turn K V) (value : Option V) : List (Action K V) :=
  match turn.expireAt with
  | none => [.remove [turn.key]]
  | some _ => if value.isSome then [.use turn.key] else []

def entering (turn : Turn K V) : List (Action K V) :=
  if c.store.flights.isRunning turn.key then []
  else
    match turn.expireAt with
    | none =>
        match turn.payload with
        | .given _ => [.remove [turn.key]]
        | .produced => [.enter turn.key]
    | some expireAt =>
        .read :: match c.store.live? c.now turn.key with
          | some _ => [.use turn.key]
          | none =>
              match turn.payload with
              | .given value => [.write turn.key ⟨value, expireAt⟩]
              | .produced => [.enter turn.key]

def enteringNew (key : K) (payload : Payload V) (ttl : Duration) (asksStored : Bool) :
    List (Action K V) :=
  (if ttl.isNegative then [] else fixing ttl) ++
    (c.turn key payload ttl asksStored).2.entering (c.turn key payload ttl asksStored).1

/-- Ending a flight: only a panic leaves the key of a negative lifetime. -/
def leaving (turn : Turn K V) (ending : Ending V) : List (Action K V) :=
  .leave turn.key ::
    match turn.expireAt, ending with
    | none, .panicked _ => []
    | none, _ => [.remove [turn.key]]
    | some expireAt, .value value => [.write turn.key ⟨value, expireAt⟩]
    | some _, _ => []

/-- What the first part of a call does. -/
def beginning : Request K V → List (Action K V)
  | .put key value ttl => c.putting key value ttl
  | .putAll entries ttl => c.puttingAll entries ttl
  | .putIfAbsent key value ttl => c.puttingIfAbsent key value ttl
  | .putIfAbsentFrom key ttl exclusive =>
      c.getting key ++
        if (c.get key).1.isSome || ttl.isNegative || !exclusive then []
        else (c.get key).2.enteringNew key .produced ttl true
  | .get key => c.getting key
  | .getOrPut key payload ttl =>
      c.getting key ++
        if (c.get key).1.isSome then [] else (c.get key).2.enteringNew key payload ttl false
  | .getOrPutFrom key ttl exclusive =>
      c.getting key ++
        if (c.get key).1.isSome || !exclusive then []
        else (c.get key).2.enteringNew key .produced ttl false
  | .contains key => c.getting key
  | .lifetime _ => [.read]
  | .replace key value => c.replacing key value
  | .setLifetime key ttl => c.settingLifetime key ttl
  | .remove keys => [.remove keys]
  | .clear => [.clear]
  | .close => [.close]
  | _ => []

/-- What the part does that follows the computation. -/
def finishing : Pending K V → Ending V → List (Action K V)
  | .store key ttl, .value value => c.storing key value ttl
  | .offer key ttl, .value value => c.enteringNew key (.given value) ttl false
  | .lead turn, ending => leaving turn ending
  | _, _ => []

end Actions

/-! ## Carrying out actions -/

/-- Actions that can be carried out, and the cache that they lead to. -/
inductive Performs : Cache K V → List (Action K V) → Cache K V → Prop where
  | nil (c : Cache K V) : Performs c [] c
  | cons {c c' : Cache K V} {action : Action K V} {rest : List (Action K V)}
      (hready : action.Ready c) (h : Performs (action.act c) rest c') : Performs c (action :: rest) c'

namespace Performs

variable {c c' c'' : Cache K V} {actions more : List (Action K V)}

/-- Actions that come one after the other perform one part after the other. -/
theorem append (h : c.Performs actions c') (h' : c'.Performs more c'') :
    c.Performs (actions ++ more) c'' := by
  induction h with
  | nil c => exact h'
  | cons hready _ ih => exact .cons hready (ih h')

/-- An action whose precondition holds performs what it does. -/
theorem one {action : Action K V} (hready : action.Ready c) : c.Performs [action] (action.act c) :=
  .cons hready (.nil _)

end Performs

/-- An expiry is fixed with a reading of the clock, if the lifetime is not
    zero. -/
theorem performs_fixing (c : Cache K V) (ttl : Duration) :
    c.Performs (fixing ttl) (c.expiryFrom ttl).2 := by
  rw [fixing]
  cases hzero : ttl.isZero with
  | true =>
      simp only [expiryFrom, hzero, if_true]
      exact .nil c
  | false =>
      simp only [expiryFrom, hzero, Bool.false_eq_true, if_false]
      exact .one trivial

/-- To store a value is to fix its expiry and to write. -/
theorem performs_storing (c : Cache K V) (key : K) (value : V) (ttl : Duration) :
    c.Performs (c.storing key value ttl)
      ((c.expiryFrom ttl).2.write key value (c.expiryFrom ttl).1) :=
  (c.performs_fixing ttl).append (.one trivial)

/-- To set a key is to store its value, or to remove the key. -/
theorem performs_putting (c : Cache K V) (key : K) (value : V) (ttl : Duration) :
    c.Performs (c.putting key value ttl) (c.put key value ttl) := by
  rw [putting, put]
  split
  · exact .one trivial
  · exact c.performs_storing key value ttl

/-- A row of writes is performed write by write. -/
theorem performs_writes (c : Cache K V) (entries : List (K × V)) (expireAt : Int) :
    c.Performs (entries.map fun entry => .write entry.1 ⟨entry.2, expireAt⟩)
      (entries.foldl (fun c entry => c.write entry.1 entry.2 expireAt) c) := by
  induction entries generalizing c with
  | nil => exact .nil c
  | cons entry rest ih => exact .cons trivial (ih _)

/-- A batch is set with one expiry for all its keys. -/
theorem performs_puttingAll (c : Cache K V) (entries : List (K × V)) (ttl : Duration) :
    c.Performs (c.puttingAll entries ttl) (c.putAll entries ttl) := by
  rw [puttingAll, putAll]
  split
  · exact .one trivial
  · exact (c.performs_fixing ttl).append (performs_writes _ entries _)

/-- A reading of the clock shows what is live without being read. -/
theorem live?_read (c : Cache K V) (key : K) :
    c.read.store.live? c.read.now key = c.store.live? c.now key := by
  rw [now_read]
  rfl

/-- A live key is there to be used. -/
theorem isSome_of_live {c : Cache K V} {now : Int} {key : K} {item : Item V}
    (hlive : c.store.live? now key = some item) : (c.store.item? key).isSome = true := by
  rw [(Store.live?_eq_some.mp hlive).1]
  rfl

/-- A look-up counts a hit and uses its key, or counts a miss. -/
theorem performs_getting (c : Cache K V) (key : K) :
    c.Performs (c.getting key) (c.get key).2 := by
  have hread := c.live?_read key
  cases hlive : c.store.live? c.now key with
  | none =>
      rw [hlive] at hread
      simp only [getting, get, hlive, hread]
      exact .cons trivial (.one trivial)
  | some item =>
      rw [hlive] at hread
      simp only [getting, get, hlive, hread]
      exact .cons trivial (.cons trivial (.one (isSome_of_live hread)))

/-- To store under an absent key is to look whether it is live, and to store
    if not. -/
theorem performs_puttingIfAbsent (c : Cache K V) (key : K) (value : V) (ttl : Duration) :
    c.Performs (c.puttingIfAbsent key value ttl) (c.putIfAbsent key value ttl).2 := by
  have hgot := c.performs_getting key
  cases hidle : (c.get key).1.isSome || ttl.isNegative with
  | true =>
      simp only [puttingIfAbsent, putIfAbsent, contains, hidle, if_true, List.append_nil]
      exact hgot
  | false =>
      simp only [puttingIfAbsent, putIfAbsent, contains, hidle, Bool.false_eq_true, if_false]
      exact hgot.append ((c.get key).2.performs_storing key value ttl)

/-- To replace a value is to store another with the expiry of the one before,
    and to use the key. -/
theorem performs_replacing (c : Cache K V) (key : K) (value : V) :
    c.Performs (c.replacing key value) (c.replace key value).2 := by
  have hread := c.live?_read key
  cases hlive : c.store.live? c.now key with
  | none =>
      rw [hlive] at hread
      simp only [replacing, replace, Store.replaceValue, hlive, hread]
      exact .one trivial
  | some item =>
      rw [hlive] at hread
      simp only [replacing, replace, Store.replaceValue, hlive, hread]
      exact .cons trivial (.one trivial)

/-- To give a live key another lifetime is to store its value with another
    expiry, and to use the key. -/
theorem performs_settingLifetime (c : Cache K V) (key : K) (ttl : Duration) :
    c.Performs (c.settingLifetime key ttl) (c.setLifetime key ttl).2 := by
  refine (c.performs_fixing ttl).append (.cons trivial ?_)
  -- the lifetime is fixed first, which may read the clock once more
  have hread : (c.expiryFrom ttl).2.read.store.live? (c.expiryFrom ttl).2.read.now key =
      c.store.live? c.now key := by
    rw [read_expiryFrom]
    exact c.live?_read key
  cases hlive : c.store.live? c.now key with
  | none =>
      rw [hlive] at hread
      simp only [setLifetime, Store.replaceExpiry, hread]
      exact .nil _
  | some item =>
      rw [hlive] at hread
      have hspan := Item.remainingAt_ne_absent (Store.live?_eq_some.mp hread).2
      simp only [setLifetime, Store.replaceExpiry, hread, if_neg hspan]
      exact .one trivial

/-! ## Writes under a flight -/

/-- A turn that was obtained without being stored is settled by a use of its
    key, which is there then. -/
theorem performs_entering (c : Cache K V) (turn : Turn K V) :
    c.Performs (c.entering turn) (c.enter turn).2 := by
  have hread := c.live?_read turn.key
  cases hrunning : c.store.flights.isRunning turn.key with
  | true =>
      simp only [entering, enter, hrunning, if_true]
      exact .nil c
  | false =>
      have hfree : c.read.store.flights.isRunning turn.key = false := hrunning
      cases hexpire : turn.expireAt with
      | none => cases hpayload : turn.payload with
        | given value =>
            simp only [entering, enter, settle, Store.beginProduce, hrunning, hexpire, hpayload,
              Bool.false_eq_true, if_false]
            exact .one trivial
        | produced =>
            simp only [entering, enter, Store.beginProduce, hrunning, hexpire, hpayload,
              Bool.false_eq_true, if_false]
            exact .one trivial
      | some expireAt => cases hlive : c.store.live? c.now turn.key with
        | some item =>
            rw [hlive] at hread
            simp only [entering, enter, settle, Store.beginSetUnlessLive, hrunning, hfree,
              hexpire, hlive, hread, Bool.false_eq_true, if_false, Option.isSome_some, if_true]
            exact .cons trivial (.one (isSome_of_live hread))
        | none => cases hpayload : turn.payload with
          | given value =>
              rw [hlive] at hread
              simp only [entering, enter, settle, Store.beginSetUnlessLive, hrunning, hfree,
                hexpire, hlive, hread, hpayload, Bool.false_eq_true, if_false,
                Option.isSome_some, if_true]
              exact .cons trivial (.one trivial)
          | produced =>
              rw [hlive] at hread
              simp only [entering, enter, Store.beginSetUnlessLive, hrunning, hfree, hexpire,
                hlive, hread, hpayload, Bool.false_eq_true, if_false]
              exact .cons trivial (.one trivial)

/-- To enter a flight with a turn of its own is to fix the expiry and to
    enter. -/
theorem performs_enteringNew (c : Cache K V) (key : K) (payload : Payload V) (ttl : Duration)
    (asksStored : Bool) :
    c.Performs (c.enteringNew key payload ttl asksStored)
      (c.enterNew key payload ttl asksStored).2 := by
  have hturn : c.Performs (if ttl.isNegative then [] else fixing ttl)
      (c.turn key payload ttl asksStored).2 := by
    cases hneg : ttl.isNegative with
    | true =>
        simp only [turn, hneg, if_true]
        exact .nil c
    | false =>
        simp only [turn, hneg, Bool.false_eq_true, if_false]
        exact c.performs_fixing ttl
  exact hturn.append (performs_entering _ _)

/-- To leave a flight is to end it, and to store the value if there is one to
    store. -/
theorem performs_leaving (c : Cache K V) (turn : Turn K V) (ending : Ending V) :
    c.Performs (leaving turn ending) (c.leave turn ending).2 := by
  cases hexpire : turn.expireAt with
  | none => cases ending with
    | panicked text =>
        simp only [leaving, leave, hexpire, Store.endProduce, Ending.toExcept]
        exact .one trivial
    | _ =>
        simp only [leaving, leave, settle, hexpire, Store.endProduce, Ending.toExcept]
        exact .cons trivial (.one trivial)
  | some expireAt => cases ending with
    | value v =>
        simp only [leaving, leave, settle, hexpire, Store.endSetUnlessLive, Ending.toExcept,
          Except.map, Option.isSome_some, if_true]
        exact .cons trivial (.one trivial)
    | _ =>
        simp only [leaving, leave, settle, hexpire, Store.endSetUnlessLive, Ending.toExcept,
          Except.map, Option.isSome_none, Bool.false_eq_true, if_false]
        exact .one trivial

/-! ## The parts of a call -/

/-- To carry out the actions of the first part of a call is to carry it out. -/
theorem performs_beginning (c : Cache K V) (request : Request K V) :
    c.Performs (c.beginning request) (c.begin request).2 := by
  cases request with
  | put key value ttl => exact c.performs_putting key value ttl
  | putAll entries ttl => exact c.performs_puttingAll entries ttl
  | putIfAbsent key value ttl => exact c.performs_puttingIfAbsent key value ttl
  | putIfAbsentFrom key ttl exclusive =>
      have hgot := c.performs_getting key
      cases hidle : (c.get key).1.isSome || ttl.isNegative with
      | true =>
          simp only [beginning, begin, beginPutIfAbsentFrom, contains, hidle, Bool.true_or,
            if_true, List.append_nil]
          exact hgot
      | false => cases exclusive with
        | false =>
            simp only [beginning, begin, beginPutIfAbsentFrom, contains, hidle, Bool.not_false,
              Bool.or_true, Bool.false_eq_true, if_true, if_false, List.append_nil]
            exact hgot
        | true =>
            simp only [beginning, begin, beginPutIfAbsentFrom, contains, hidle, Bool.not_true,
              Bool.or_false, Bool.false_eq_true, if_true, if_false]
            exact hgot.append ((c.get key).2.performs_enteringNew key .produced ttl true)
  | get key => exact c.performs_getting key
  | getOrPut key payload ttl =>
      have hgot := c.performs_getting key
      cases hfound : (c.get key).1.isSome with
      | true =>
          simp only [beginning, begin, beginGetOrPut, hfound, if_true, List.append_nil]
          exact hgot
      | false =>
          simp only [beginning, begin, beginGetOrPut, hfound, Bool.false_eq_true, if_false]
          exact hgot.append ((c.get key).2.performs_enteringNew key payload ttl false)
  | getOrPutFrom key ttl exclusive =>
      have hgot := c.performs_getting key
      cases hfound : (c.get key).1.isSome with
      | true => cases exclusive with
        | true =>
            simp only [beginning, begin, beginGetOrPut, hfound, Bool.true_or, if_true,
              List.append_nil]
            exact hgot
        | false =>
            simp only [beginning, begin, beginGetOrOffer, hfound, Bool.true_or, if_true,
              List.append_nil]
            exact hgot
      | false => cases exclusive with
        | true =>
            simp only [beginning, begin, beginGetOrPut, hfound, Bool.not_true, Bool.or_false,
              Bool.false_eq_true, if_false]
            exact hgot.append ((c.get key).2.performs_enteringNew key .produced ttl false)
        | false =>
            simp only [beginning, begin, beginGetOrOffer, hfound, Bool.not_false, Bool.or_true,
              if_true, Bool.false_eq_true, if_false, List.append_nil]
            exact hgot
  | contains key => exact c.performs_getting key
  | lifetime key =>
      have hread : (c.lifetime key).2 = c.read := by
        rw [lifetime]
        split
        · rfl
        · rfl
      show c.Performs [.read] (c.lifetime key).2
      rw [hread]
      exact .one trivial
  | replace key value => exact c.performs_replacing key value
  | setLifetime key ttl => exact c.performs_settingLifetime key ttl
  | remove keys => exact .one trivial
  | clear => exact .one trivial
  | close => exact .one trivial
  | _ => exact .nil c

/-- So it is for the part that follows the computation. -/
theorem performs_finishing (c : Cache K V) (next : Pending K V) (ending : Ending V) :
    c.Performs (c.finishing next ending) (c.finish next ending).2 := by
  cases next with
  | store key ttl => cases ending with
    | value v => exact c.performs_storing key v ttl
    | _ => exact .nil c
  | offer key ttl => cases ending with
    | value v => exact c.performs_enteringNew key (.given v) ttl false
    | _ => exact .nil c
  | lead turn => exact c.performs_leaving turn ending

end Cache

end ExpiringCache
