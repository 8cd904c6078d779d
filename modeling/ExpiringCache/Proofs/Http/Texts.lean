import ExpiringCache.Cache.Call
import ExpiringCache.Http.Service

/-! # What clients are told

    The texts that a service sends stand here letter by letter: the names of
    members in their order, the words of messages, and the places of keys,
    values and numbers.  They are told apart from the functions with which the
    service puts its answers together; that these come to the same texts is
    what is shown of them. -/

namespace ExpiringCache.Http

open Json

/-! ## The texts -/

/-- The text that reports an error. -/
def errorText (message : String) : String :=
  "\x7b\"error\":" ++ quote message ++ "\x7d"

/-- The text that lists keys. -/
def keyListText (keys : List String) : String :=
  "\x7b\"keys\":[" ++ String.intercalate "," (keys.map quote) ++ "],\"size\":" ++
    toString keys.length ++ "\x7d"

/-- The text that shows counters. -/
def statsText (s : Stats) : String :=
  "\x7b\"hits\":" ++ toString s.hits.toNat ++ ",\"misses\":" ++ toString s.misses.toNat ++
    ",\"evictions\":" ++ toString s.evictions.toNat ++
    ",\"expired\":" ++ toString s.expired.toNat ++
    ",\"total_entries\":" ++ toString s.entries.toNat ++
    ",\"hit_rate\":" ++ (Number.binary s.hitRate).render ++ "\x7d"

/-- The text that is a sign of life at an instant in nanoseconds since the
    epoch. -/
def healthText (nanos : Int) : String :=
  "\x7b\"status\":\"healthy\",\"timestamp\":" ++ quote (Timestamp.render nanos) ++ "\x7d"

/-- The text that tells a client what the reply to its call was.  There is
    none for a key that is not live. -/
def Operation.telling? : Operation → Reply String Value → Option String
  | .put body, .done =>
      some ("\x7b\"message\":" ++ quote ("Key '" ++ body.key ++ "' set successfully") ++
        ",\"key\":" ++ quote body.key ++ "\x7d")
  | .putIfAbsent body, .flag stored =>
      some ("\x7b\"key\":" ++ quote body.key ++ ",\"stored\":" ++ toString stored ++ "\x7d")
  | .get key, .value (some found) =>
      some ("\x7b\"key\":" ++ quote key ++ ",\"value\":" ++ found.render ++ "\x7d")
  | .delete key, .value (some last) =>
      some ("\x7b\"key\":" ++ quote key ++ ",\"value\":" ++ last.render ++ "\x7d")
  | .delete key, .value none =>
      some ("\x7b\"key\":" ++ quote key ++ ",\"value\":null\x7d")
  | .lifetime key, .span ms =>
      some ("\x7b\"key\":" ++ quote key ++ ",\"ttl_ms\":" ++ toString ms ++ "\x7d")
  | .setLifetime key _, .span ms =>
      some ("\x7b\"key\":" ++ quote key ++ ",\"previous_ttl_ms\":" ++ toString ms ++ "\x7d")
  | .keys, .keys ks => some (keyListText (sortedKeys ks))
  | .clear, .done => some "\x7b\"message\":\"Cache cleared\"\x7d"
  | .stats, .stats s => some (statsText s)
  | _, _ => none

/-! ## The answers of a service -/

namespace Answer

variable (a b x y key : String)

/-- The text of an object with one member, cut before and behind what the
    member holds. -/
theorem renderObject_one : renderObject [(a, x)] = ("\x7b" ++ quote a ++ ":") ++ x ++ "\x7d" := by
  have hunfolded : renderObject [(a, x)] = "\x7b" ++ (quote a ++ ":" ++ x) ++ "\x7d" := rfl
  simp only [hunfolded, String.append_assoc]

/-- The text of an object with two members, cut before and behind what the
    members hold. -/
theorem renderObject_two : renderObject [(a, x), (b, y)] =
    ("\x7b" ++ quote a ++ ":") ++ x ++ ("," ++ quote b ++ ":") ++ y ++ "\x7d" := by
  have hunfolded : renderObject [(a, x), (b, y)] =
      "\x7b" ++ (quote a ++ ":" ++ x ++ "," ++ (quote b ++ ":" ++ y)) ++ "\x7d" := rfl
  simp only [hunfolded, String.append_assoc]

/-- An object that begins with the member `key`. -/
theorem renderObject_key : renderObject [("key", quote key), (b, y)] =
    "\x7b\"key\":" ++ quote key ++ ("," ++ quote b ++ ":") ++ y ++ "\x7d" := by
  have hkey : "\x7b" ++ quote "key" ++ ":" = "\x7b\"key\":" := rfl
  rw [renderObject_two, hkey]

-- from here on, what stands between two holes of a text is computed

/-- A client is told that its value was stored, and the key. -/
theorem stored_eq : stored key =
    "\x7b\"message\":" ++ quote ("Key '" ++ key ++ "' set successfully") ++
      ",\"key\":" ++ quote key ++ "\x7d" := by
  have hmessage : "\x7b" ++ quote "message" ++ ":" = "\x7b\"message\":" := rfl
  have hkey : "," ++ quote "key" ++ ":" = ",\"key\":" := rfl
  rw [stored, renderObject_two, hmessage, hkey]

/-- A client is told whether its value was stored. -/
theorem storedIfAbsent_eq (stored : Bool) : storedIfAbsent key stored =
    "\x7b\"key\":" ++ quote key ++ ",\"stored\":" ++ toString stored ++ "\x7d" := by
  have hname : "," ++ quote "stored" ++ ":" = ",\"stored\":" := rfl
  have hstored : (if stored then "true" else "false") = toString stored := by
    cases stored with
    | true => rfl
    | false => rfl
  rw [storedIfAbsent, renderObject_key, hname, hstored]

/-- A client is told the value of a key. -/
theorem found_eq (value : Value) : found key value =
    "\x7b\"key\":" ++ quote key ++ ",\"value\":" ++ value.render ++ "\x7d" := by
  have hname : "," ++ quote "value" ++ ":" = ",\"value\":" := rfl
  rw [found, renderObject_key, hname]

/-- The value of a key that held none is told as `null`. -/
theorem telling?_delete (last : Option Value) :
    (Operation.delete key).telling? (.value last) = some (deleted key last) := by
  have hfound : deleted key last = found key (last.getD .null) := rfl
  rw [hfound, found_eq]
  cases last with
  | some value => rfl
  | none =>
      have hnull : ",\"value\":" ++ (Value.null.render ++ "\x7d") = ",\"value\":null\x7d" := rfl
      rw [Option.getD_none, String.append_assoc, String.append_assoc, hnull, Operation.telling?]

/-- A client is told the lifetime of a key. -/
theorem lifetime_eq (span : Int) : lifetime key span =
    "\x7b\"key\":" ++ quote key ++ ",\"ttl_ms\":" ++ toString span ++ "\x7d" := by
  have hname : "," ++ quote "ttl_ms" ++ ":" = ",\"ttl_ms\":" := rfl
  rw [lifetime, renderObject_key, hname]

/-- A client is told the lifetime that a key had before. -/
theorem previousLifetime_eq (span : Int) : previousLifetime key span =
    "\x7b\"key\":" ++ quote key ++ ",\"previous_ttl_ms\":" ++ toString span ++ "\x7d" := by
  have hname : "," ++ quote "previous_ttl_ms" ++ ":" = ",\"previous_ttl_ms\":" := rfl
  rw [previousLifetime, renderObject_key, hname]

/-- A client is told the keys and how many they are. -/
theorem keys_eq (ks : List String) : keys ks = keyListText ks := by
  have hopened : ("\x7b" ++ quote "keys" ++ ":") ++ "[" = "\x7b\"keys\":[" := rfl
  have hclosed : "]" ++ ("," ++ quote "size" ++ ":") = "],\"size\":" := rfl
  rw [keys, keyListText, renderObject_two, renderArray, commas, ← hopened, ← hclosed]
  simp only [String.append_assoc]

/-- A client is told that the cache is empty. -/
theorem message_cleared :
    message "Cache cleared" = "\x7b\"message\":\"Cache cleared\"\x7d" := rfl

/-- A client is told the counters and the share of hits. -/
theorem statsWithRate_eq (s : Stats) : statsWithRate s = statsText s := by
  have hhits : "\x7b" ++ (quote "hits" ++ ":") = "\x7b\"hits\":" := rfl
  have hmisses : "," ++ (quote "misses" ++ ":") = ",\"misses\":" := rfl
  have hevictions : "," ++ (quote "evictions" ++ ":") = ",\"evictions\":" := rfl
  have hexpired : "," ++ (quote "expired" ++ ":") = ",\"expired\":" := rfl
  have hentries : "," ++ (quote "total_entries" ++ ":") = ",\"total_entries\":" := rfl
  have hrate : "," ++ (quote "hit_rate" ++ ":") = ",\"hit_rate\":" := rfl
  unfold statsWithRate statsText
  generalize (Number.binary s.hitRate).render = rate
  have hunfolded : renderObject (counts s ++ [("hit_rate", rate)]) =
      "\x7b" ++ (quote "hits" ++ ":" ++ word s.hits ++ "," ++
        (quote "misses" ++ ":" ++ word s.misses) ++ "," ++
        (quote "evictions" ++ ":" ++ word s.evictions) ++ "," ++
        (quote "expired" ++ ":" ++ word s.expired) ++ "," ++
        (quote "total_entries" ++ ":" ++ word s.entries) ++ "," ++
        (quote "hit_rate" ++ ":" ++ rate)) ++ "\x7d" := rfl
  rw [hunfolded, ← hhits, ← hmisses, ← hevictions, ← hexpired, ← hentries, ← hrate]
  simp only [word, String.append_assoc]

/-- A client is told that the server serves, and the time. -/
theorem healthy_eq (nanos : Int) : healthy nanos = healthText nanos := by
  have hstatus : ("\x7b" ++ quote "status" ++ ":") ++ quote healthyStatus ++
      ("," ++ quote "timestamp" ++ ":") = "\x7b\"status\":\"healthy\",\"timestamp\":" := rfl
  unfold healthy healthText
  -- nothing about an instant is to be computed here
  generalize Timestamp.render nanos = timestamp
  rw [renderObject_two, hstatus]

/-- A client is told what went wrong. -/
theorem failure_eq (e : CacheError) : failure e = errorText e.message := by
  have hname : "\x7b" ++ quote "error" ++ ":" = "\x7b\"error\":" := rfl
  rw [failure, errorText, renderObject_one, hname]

end Answer

end ExpiringCache.Http
