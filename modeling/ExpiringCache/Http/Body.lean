import ExpiringCache.Json.Record

/-! # Bodies of requests

    Two kinds of bodies are understood: one with a key, a value and possibly
    a lifetime, and one with a lifetime alone.  A lifetime that is absent or
    `null` is left to the server, where it may be absent. -/

namespace ExpiringCache.Http

open Json

/-- A value to be stored under a key. -/
structure WriteBody where
  key : String
  value : Value
  ttl : Option Int

/-- What has been read of a `WriteBody`. -/
structure WriteParts where
  key : Option String
  value : Option Value
  -- the lifetime, once it has been read
  ttl : Option (Option Int)

namespace WriteBody

/-- The fields of a body, in order. -/
def fields : List (RecordField WriteParts) :=
  [⟨"key", fun parts => parts.key.isSome, fun parts cs =>
      (readText cs).map fun (key, rest) => ({ parts with key := some key }, rest)⟩,
    ⟨"value", fun parts => parts.value.isSome, fun parts cs =>
      (readValue (deepest - 1) cs).map fun (value, rest) =>
        ({ parts with value := some value }, rest)⟩,
    ⟨"ttl_ms", fun parts => parts.ttl.isSome, fun parts cs =>
      (readWholeOrNull cs).map fun (ttl, rest) => ({ parts with ttl := some ttl }, rest)⟩]

/-- The body made of its parts; key and value are required. -/
def ofParts (parts : WriteParts) : Except String WriteBody :=
  match parts.key, parts.value with
  | none, _ => .error "key"
  | _, none => .error "value"
  | some key, some value => .ok ⟨key, value, parts.ttl.join⟩

/-- The kind of these bodies. -/
def kind : RecordKind WriteParts WriteBody :=
  ⟨"struct SetRequest", fields, ⟨none, none, none⟩, ofParts⟩

/-- Reads a body from the beginning of a text. -/
def read (cs : List Char) : Except ReadError (WriteBody × List Char) := kind.read cs

end WriteBody

/-- A lifetime to be given to a key. -/
structure LifetimeBody where
  ttl : Int

namespace LifetimeBody

/-- The fields of a body. -/
def fields : List (RecordField (Option Int)) :=
  [⟨"ttl_ms", Option.isSome, fun _ cs =>
      (readWhole cs).map fun (ttl, rest) => (some ttl, rest)⟩]

/-- The body with a lifetime, which is required. -/
def ofPart (ttl : Option Int) : Except String LifetimeBody :=
  match ttl with
  | none => .error "ttl_ms"
  | some ttl => .ok ⟨ttl⟩

/-- The kind of these bodies. -/
def kind : RecordKind (Option Int) LifetimeBody :=
  ⟨"struct ExpireRequest", fields, none, ofPart⟩

/-- Reads a body from the beginning of a text. -/
def read (cs : List Char) : Except ReadError (LifetimeBody × List Char) := kind.read cs

end LifetimeBody

/-- The record at the beginning of a text, whatever follows it. -/
def readBegin {α : Type} (read : List Char → Except ReadError (α × List Char))
    (text : String) : Except ReadError α :=
  (read text.toList).map Prod.fst

/-- The record of a whole text. -/
def readAll {α : Type} (read : List Char → Except ReadError (α × List Char))
    (text : String) : Except ReadError α :=
  match read text.toList with
  | .error e => .error e
  | .ok (record, rest) => (readEnd rest).map fun _ => record

end ExpiringCache.Http
