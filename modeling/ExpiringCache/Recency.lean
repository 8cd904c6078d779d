import ExpiringCache.SlotList
import ExpiringCache.Table

/-! # Recency lists

    A recency list orders keys by their latest use, coldest first, and
    holds at most a fixed number of them.  Using a key puts it at the hot
    end; keys beyond the capacity fall off the cold end and are handed to
    the caller, who has to delete what they stand for.

    The order is a slot list; a table locates each key in it, so that no
    operation searches. -/

namespace ExpiringCache

/-- Keys by their latest use. -/
structure Recency (K : Type) where
  capacity : Nat
  -- the keys, coldest first
  order : SlotList K
  locator : Table K Nat
  deriving DecidableEq

namespace Recency

variable {K : Type}

/-- The empty list for `capacity` keys; there is room for one at least. -/
def empty (capacity : Nat) : Recency K := ⟨max capacity 1, .empty, .empty⟩

/-- The keys, coldest first. -/
def keys (r : Recency K) : List K := r.order.toList

/-- The number of keys. -/
def size (r : Recency K) : Nat := r.order.size

/-- The coldest key. -/
def coldest? (r : Recency K) : Option K := r.order.front?

/-- Forgets all keys. -/
def clear (r : Recency K) : Recency K := { r with order := r.order.clear, locator := .empty }

variable [DecidableEq K]

/-- Whether `key` is listed. -/
def contains (r : Recency K) (key : K) : Bool := r.locator.contains key

/-- Puts `key` at the hot end, whether or not it was listed. -/
def promote (r : Recency K) (key : K) : Recency K :=
  match r.locator.get? key with
  | some slot => { r with order := (r.order.moveToBack slot).2 }
  | none =>
      let (slot, order) := r.order.pushBack key
      { r with order := order, locator := r.locator.insert key slot }

/-- Drops up to `count` keys from the cold end and answers them in turn. -/
def dropCold : Nat → Recency K → List K × Recency K
  | 0, r => ([], r)
  | count + 1, r =>
      match r.order.popFront with
      | (none, order) => dropCold count { r with order := order }
      | (some key, order) =>
          let (dropped, r) := dropCold count
            { r with order := order, locator := r.locator.erase key }
          (key :: dropped, r)

/-- Marks `key` as used now and answers the keys that fall off. -/
def touch (r : Recency K) (key : K) : List K × Recency K :=
  let r := r.promote key
  dropCold (r.order.size - r.capacity) r

/-- Takes `key` out. -/
def remove (r : Recency K) (key : K) : Recency K :=
  match r.locator.get? key with
  | none => r
  | some slot =>
      { r with order := (r.order.remove slot).2, locator := r.locator.erase key }

/-- Takes several keys out. -/
def removeAll (r : Recency K) (keys : List K) : Recency K := keys.foldl remove r

end Recency

end ExpiringCache
