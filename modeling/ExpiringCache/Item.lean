import ExpiringCache.Time.Clock

/-! # Items

    An item is a stored value with the instant at which it expires.  It can
    be read while the clock is short of that instant, and is expired from
    that very millisecond on. -/

namespace ExpiringCache

/-- A stored value and its expiry. -/
structure Item (V : Type) where
  value : V
  -- the instant from which on it is expired
  expireAt : Int
  deriving DecidableEq, Repr

namespace Item

variable {V : Type}

/-- Whether the item is expired at `now`. -/
def isExpiredAt (item : Item V) (now : Int) : Bool := decide (item.expireAt ≤ now)

/-- The milliseconds that are left at `now`, where 0 stands for an item that
    never expires. -/
def remainingAt (item : Item V) (now : Int) : Int :=
  if item.expireAt = never then 0 else item.expireAt - now

end Item

end ExpiringCache
