import ExpiringCache.Counters
import ExpiringCache.Error
import ExpiringCache.Json.Printer
import ExpiringCache.Time.Timestamp

/-! # Bodies of responses

    Every response of a handler is an object whose members come in a fixed
    order. -/

namespace ExpiringCache.Http.Answer

open Json

/-- The text of an unsigned word. -/
def word (n : UInt64) : String := toString n.toNat

/-- A value was stored. -/
def stored (key : String) : String :=
  renderObject [("message", quote ("Key '" ++ key ++ "' set successfully")), ("key", quote key)]

/-- Whether a value was stored under an absent key. -/
def storedIfAbsent (key : String) (stored : Bool) : String :=
  renderObject [("key", quote key), ("stored", if stored then "true" else "false")]

/-- The value of a key. -/
def found (key : String) (value : Value) : String :=
  renderObject [("key", quote key), ("value", value.render)]

/-- A key was deleted. -/
def deleted (key : String) (value : Option Value) : String :=
  renderObject [("key", quote key), ("value", (value.getD .null).render)]

/-- The lifetime of a key. -/
def lifetime (key : String) (span : Int) : String :=
  renderObject [("key", quote key), ("ttl_ms", toString span)]

/-- The lifetime that a key had before. -/
def previousLifetime (key : String) (span : Int) : String :=
  renderObject [("key", quote key), ("previous_ttl_ms", toString span)]

/-- The stored keys. -/
def keys (keys : List String) : String :=
  renderObject [("keys", renderArray (keys.map quote)), ("size", toString keys.length)]

/-- A message. -/
def message (text : String) : String := renderObject [("message", quote text)]

/-- The members that show the counters. -/
def counts (s : Stats) : List (String × String) :=
  [("hits", word s.hits), ("misses", word s.misses), ("evictions", word s.evictions),
    ("expired", word s.expired), ("total_entries", word s.entries)]

/-- The counters. -/
def stats (s : Stats) : String := renderObject (counts s)

/-- The counters and the share of hits. -/
def statsWithRate (s : Stats) : String :=
  renderObject (counts s ++ [("hit_rate", (Number.binary s.hitRate).render)])

/-- The status of a server that serves. -/
def healthyStatus : String := "healthy"

/-- A sign of life at an instant in nanoseconds since the epoch. -/
def healthy (nanos : Int) : String :=
  renderObject [("status", quote healthyStatus), ("timestamp", quote (Timestamp.render nanos))]

/-- An error. -/
def failure (e : CacheError) : String := renderObject [("error", quote e.message)]

end ExpiringCache.Http.Answer
