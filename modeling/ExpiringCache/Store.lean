import ExpiringCache.Flight
import ExpiringCache.Item
import ExpiringCache.Table

/-! # The store

    The store keeps an item under each key, live or expired, and knows which
    keys are being computed.  Reading operations look only at items that
    are live at the instant they are given; snapshots and deletions see all
    items.

    Computing a value for a key is split where the caller's computation
    runs: `begin…` comes before it and `end…` after it, so whatever happens
    in between, be it other operations of the computation itself or of other
    callers, is visible to both. -/

namespace ExpiringCache

/-- The items by key, and the keys being computed. -/
structure Store (K V : Type) where
  items : Table K (Item V)
  flights : Flights K
  deriving DecidableEq

/-- Where a value to be stored comes from. -/
inductive Payload (V : Type) where
  | given (value : V)
  | produced
  deriving DecidableEq, Repr

/-- How far an operation on a key under its flight has come. -/
inductive Guarded (α : Type) where
  | done (result : α)
  | producing
  | waiting
  deriving DecidableEq, Repr

namespace Store

variable {K V : Type}

/-- The store without items. -/
def empty : Store K V := ⟨.empty, .none⟩

instance : Inhabited (Store K V) := ⟨empty⟩

/-! ## Snapshots -/

/-- The number of items. -/
def size (s : Store K V) : Nat := s.items.size

/-- The keys of all items. -/
def keys (s : Store K V) : List K := s.items.keys

/-- The values of all items. -/
def values (s : Store K V) : List V := s.items.values.map Item.value

/-- The keys and values of all items. -/
def data (s : Store K V) : List (K × V) :=
  s.items.entries.map fun entry => (entry.1, entry.2.value)

/-- Deletes all items; computations in progress go on. -/
def clear (s : Store K V) : Store K V := { s with items := .empty }

variable [DecidableEq K]

/-! ## Items -/

/-- The item under `key`, live or expired. -/
def item? (s : Store K V) (key : K) : Option (Item V) := s.items.get? key

/-- The item under `key`, if it is live at `now`. -/
def live? (s : Store K V) (now : Int) (key : K) : Option (Item V) :=
  (s.item? key).filter fun item => !item.isExpiredAt now

/-- Whether there is an item under `key`, live or expired. -/
def contains (s : Store K V) (key : K) : Bool := s.items.contains key

/-- Keeps an item under `key`. -/
def set (s : Store K V) (key : K) (item : Item V) : Store K V :=
  { s with items := s.items.insert key item }

/-- Deletes what is under `key`; whether there was something. -/
def delete (s : Store K V) (key : K) : Bool × Store K V :=
  (s.contains key, { s with items := s.items.erase key })

/-- Deletes what is under `key` if it is expired at `now`; whether it was. -/
def deleteExpired (s : Store K V) (now : Int) (key : K) : Bool × Store K V :=
  match s.item? key with
  | none => (false, s)
  | some item =>
      if item.isExpiredAt now then (true, { s with items := s.items.erase key })
      else (false, s)

/-- Gives a live item another value and answers the old one. -/
def replaceValue (s : Store K V) (now : Int) (key : K) (value : V) :
    Option V × Store K V :=
  match s.live? now key with
  | none => (none, s)
  | some item => (some item.value, s.set key { item with value := value })

/-- The span that stands for "no live item". -/
def absentSpan : Int := -1

/-- Gives a live item another expiry and answers the milliseconds it had
    left, or `absentSpan`. -/
def replaceExpiry (s : Store K V) (now : Int) (key : K) (expireAt : Int) :
    Int × Store K V :=
  match s.live? now key with
  | none => (absentSpan, s)
  | some item => (item.remainingAt now, s.set key { item with expireAt := expireAt })

/-- Deletes several keys.  Answers those that were there, in order, and the
    last of their values that was live. -/
def deleteAll (s : Store K V) (now : Int) : List K → (List K × Option V) × Store K V
  | [] => (([], none), s)
  | key :: rest =>
      match s.item? key with
      | none => s.deleteAll now rest
      | some item =>
          let s := { s with items := s.items.erase key }
          let ((deleted, last), s) := s.deleteAll now rest
          let own := if item.isExpiredAt now then none else some item.value
          ((key :: deleted, last.or own), s)

/-! ## Items under their flight -/

/-- Begins to store a value under `key` unless it holds a live one.  The
    result is the value it holds in the end and whether it was stored. -/
def beginSetUnlessLive (s : Store K V) (now : Int) (key : K) (payload : Payload V)
    (expireAt : Int) : Guarded (Option V × Bool) × Store K V :=
  if s.flights.isRunning key then (.waiting, s)
  else
    match s.live? now key with
    | some item => (.done (some item.value, false), s)
    | none =>
        match payload with
        | .given value => (.done (some value, true), s.set key ⟨value, expireAt⟩)
        | .produced => (.producing, { s with flights := s.flights.enter key })

/-- Stores what the caller's computation came to, if it is a value. -/
def endSetUnlessLive (s : Store K V) (key : K) (expireAt : Int) (ending : Ending V) :
    Except Fault (Option V × Bool) × Store K V :=
  let s := match ending with
    | .value value => s.set key ⟨value, expireAt⟩
    | _ => s
  (ending.toExcept.map fun value => (value, value.isSome),
    { s with flights := s.flights.leave key })

/-- Begins to obtain a value for `key` without storing it. -/
def beginProduce (s : Store K V) (key : K) (payload : Payload V) :
    Guarded (Option V) × Store K V :=
  if s.flights.isRunning key then (.waiting, s)
  else
    match payload with
    | .given value => (.done (some value), s)
    | .produced => (.producing, { s with flights := s.flights.enter key })

/-- Answers what the caller's computation came to. -/
def endProduce (s : Store K V) (key : K) (ending : Ending V) :
    Except Fault (Option V) × Store K V :=
  (ending.toExcept, { s with flights := s.flights.leave key })

/-! ## Both parts, for a caller that is alone -/

/-- The result of an operation that is not taken on any more, where nothing
    is kept of a computation that did not run. -/
def Guarded.result {α R : Type} : Guarded α → Except Fault α × Option R
  | .done result => (.ok result, none)
  | .producing => (.error .stuck, none)
  | .waiting => (.error .stuck, none)

/-- Stores a value under `key` unless it holds a live one, where `produce` is
    what the caller's computation does to the store, how it ends, and what is
    to be kept of it. -/
def setUnlessLive {R : Type} (s : Store K V) (now : Int) (key : K) (payload : Payload V)
    (expireAt : Int) (produce : Store K V → (Ending V × R) × Store K V) :
    (Except Fault (Option V × Bool) × Option R) × Store K V :=
  match s.beginSetUnlessLive now key payload expireAt with
  | (.producing, s) =>
      let ((ending, kept), s) := produce s
      let (result, s) := s.endSetUnlessLive key expireAt ending
      ((result, some kept), s)
  | (progress, s) => (Guarded.result progress, s)

/-- Obtains a value for `key` without storing it. -/
def produceAlone {R : Type} (s : Store K V) (key : K) (payload : Payload V)
    (produce : Store K V → (Ending V × R) × Store K V) :
    (Except Fault (Option V) × Option R) × Store K V :=
  match s.beginProduce key payload with
  | (.producing, s) =>
      let ((ending, kept), s) := produce s
      let (result, s) := s.endProduce key ending
      ((result, some kept), s)
  | (progress, s) => (Guarded.result progress, s)

/-! ## What is found under a key -/

@[simp] theorem item?_empty (key : K) : (empty : Store K V).item? key = none := rfl

@[simp] theorem item?_clear (s : Store K V) (key : K) : s.clear.item? key = none := rfl

/-- An item that was stored is found under its key, and nothing else has
    changed. -/
theorem item?_set (s : Store K V) (key k : K) (item : Item V) :
    (s.set key item).item? k = if key = k then some item else s.item? k :=
  s.items.get?_insert key k item

/-- An item that was deleted is not found, and nothing else has changed. -/
theorem item?_delete (s : Store K V) (key k : K) :
    (s.delete key).2.item? k = if key = k then none else s.item? k :=
  s.items.get?_erase key k

/-- A live item is one that has not expired. -/
theorem live?_eq_some {s : Store K V} {now : Int} {key : K} {item : Item V} :
    s.live? now key = some item ↔ s.item? key = some item ∧ now < item.expireAt := by
  unfold live? Item.isExpiredAt
  rw [Option.filter_eq_some_iff]
  constructor
  · rintro ⟨h, hl⟩
    refine ⟨h, ?_⟩
    simpa using hl
  · rintro ⟨h, hl⟩
    refine ⟨h, ?_⟩
    simpa using hl

/-- Whoever looks later finds no more entries live than whoever looks
    earlier. -/
theorem live?_of_le {s : Store K V} {now later : Int} {key : K} {item : Item V}
    (h : now ≤ later) (hl : s.live? later key = some item) : s.live? now key = some item := by
  obtain ⟨hi, hlt⟩ := live?_eq_some.mp hl
  exact live?_eq_some.mpr ⟨hi, Int.lt_of_le_of_lt h hlt⟩

end Store

end ExpiringCache
