/-! # Usage counters

    A cache counts the look-ups that found a live value, those that did not,
    the entries that fell off the cold end, and the entries that a sweep
    deleted.  Counts only grow; nothing resets them.  What is shown of them
    are 64-bit words, so a count that outgrows a word starts again at 0. -/

namespace ExpiringCache

/-- The four counts of a cache. -/
structure Counters where
  hits : Nat
  misses : Nat
  evictions : Nat
  expired : Nat
  deriving DecidableEq, Repr

/-- The counts as they are shown, with the number of stored entries. -/
structure Stats where
  hits : UInt64
  misses : UInt64
  evictions : UInt64
  expired : UInt64
  -- the number of stored entries, expired ones included
  entries : UInt64
  deriving DecidableEq, Repr

namespace Counters

/-- Nothing counted yet. -/
def zero : Counters := ⟨0, 0, 0, 0⟩

instance : Inhabited Counters := ⟨zero⟩

/-- Counts a look-up that found a value. -/
def hit (c : Counters) : Counters := { c with hits := c.hits + 1 }

/-- Counts a look-up that found none. -/
def miss (c : Counters) : Counters := { c with misses := c.misses + 1 }

/-- Counts `n` evictions. -/
def evicted (c : Counters) (n : Nat) : Counters := { c with evictions := c.evictions + n }

/-- Counts `n` entries deleted by a sweep. -/
def swept (c : Counters) (n : Nat) : Counters := { c with expired := c.expired + n }

/-- What is shown when `entries` entries are stored. -/
def snapshot (c : Counters) (entries : Nat) : Stats :=
  ⟨.ofNat c.hits, .ofNat c.misses, .ofNat c.evictions, .ofNat c.expired, .ofNat entries⟩

end Counters

namespace Stats

/-- What is shown where nothing but the number of entries is known. -/
def ofEntries (entries : Nat) : Stats := ⟨0, 0, 0, 0, .ofNat entries⟩

/-- The share of look-ups that found a value; 0 before the first one. -/
def hitRate (s : Stats) : Float :=
  if s.hits + s.misses = 0 then 0 else s.hits.toFloat / (s.hits + s.misses).toFloat

end Stats

end ExpiringCache
