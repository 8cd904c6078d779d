import ExpiringCache.Cache.Basic
import ExpiringCache.Http.Answer
import ExpiringCache.Http.Body
import ExpiringCache.Http.Endpoint
import ExpiringCache.Http.MediaType
import ExpiringCache.Http.Rejection
import ExpiringCache.Settings

/-! # The HTTP service

    The service puts a cache behind a handful of endpoints.  A request is
    first turned into an `Operation`: its endpoint is found, its key decoded
    and its body read, and it is turned away if one of that fails.  An
    operation is then checked and carried out by one call on the cache at
    most, and the result of that call becomes the response. -/

namespace ExpiringCache.Http

open Json

/-- A cache behind HTTP. -/
structure Service where
  cache : Cache String Value
  -- the lifetime of entries stored without one
  defaultTtl : Duration

/-- A request whose parts have been understood. -/
inductive Operation where
  | put (body : WriteBody)
  | putIfAbsent (body : WriteBody)
  | get (key : String)
  | delete (key : String)
  | lifetime (key : String)
  | setLifetime (key : String) (ms : Int)
  | keys
  | clear
  | stats
  | health

/-! ## Checking -/

/-- The greatest number of bytes in a key. -/
def longestKey : Nat := 256

/-- What is wrong with a key. -/
def keyComplaint? (key : String) : Option String :=
  if key.isEmpty then some "Key cannot be empty"
  else if longestKey < key.utf8ByteSize then
    some ("Key exceeds maximum length of " ++ toString longestKey ++ " bytes")
  else none

/-- Refuses a key with which something is wrong. -/
def checkKey (key : String) : Except CacheError Unit :=
  match keyComplaint? key with
  | some complaint => .error (.invalidRequest complaint)
  | none => .ok ()

/-- The lifetime of some milliseconds, unless it is too long. -/
def checkTtl (ms : Int) : Except CacheError Duration :=
  match Duration.ofMillis? ms with
  | some ttl => .ok ttl
  | none => .error (.invalidRequest ("ttl_ms " ++ toString ms ++ " is out of range"))

/-- The lifetime that a client has chosen, or else the default. -/
def chosenTtl (defaultTtl : Duration) (ttl : Option Int) : Except CacheError Duration :=
  match ttl with
  | none => .ok defaultTtl
  | some ms => checkTtl ms

/-- The lifetime of a value to be stored, if its key is right. -/
def checkWrite (defaultTtl : Duration) (body : WriteBody) : Except CacheError Duration := do
  checkKey body.key
  chosenTtl defaultTtl body.ttl

/-! ## Carrying out -/

/-- Keys in ascending order. -/
def sortedKeys (keys : List String) : List String := keys.mergeSort fun a b => decide (a ≤ b)

/-- What an operation comes to: the text of its response or an error, and
    the cache it leaves behind. -/
abbrev Performed := Except CacheError String × Cache String Value

/-- Goes on with what the checks answer.  If they fail, the cache stays as it
    is. -/
def afterChecks {α : Type} (cache : Cache String Value) (checks : Except CacheError α)
    (next : α → Performed) : Performed :=
  match checks with
  | .error e => (.error e, cache)
  | .ok a => next a

/-- Carries an operation out.  It comes down to one call on the cache at
    most. -/
def Operation.perform (defaultTtl : Duration) (cache : Cache String Value) :
    Operation → Performed
  | .put body =>
      afterChecks cache (checkWrite defaultTtl body) fun ttl =>
        (.ok (Answer.stored body.key), cache.put body.key body.value ttl)
  | .putIfAbsent body =>
      afterChecks cache (checkWrite defaultTtl body) fun ttl =>
        let (stored, cache) := cache.putIfAbsent body.key body.value ttl
        (.ok (Answer.storedIfAbsent body.key stored), cache)
  | .get key =>
      afterChecks cache (checkKey key) fun _ =>
        match cache.get key with
        | (some value, cache) => (.ok (Answer.found key value), cache)
        | (none, cache) => (.error (.notFound key), cache)
  | .delete key =>
      afterChecks cache (checkKey key) fun _ =>
        let (value, cache) := cache.remove [key]
        (.ok (Answer.deleted key value), cache)
  | .lifetime key =>
      afterChecks cache (checkKey key) fun _ =>
        let (span, cache) := cache.lifetime key
        (.ok (Answer.lifetime key span), cache)
  | .setLifetime key ms =>
      afterChecks cache (checkKey key *> checkTtl ms) fun ttl =>
        let (span, cache) := cache.setLifetime key ttl
        (.ok (Answer.previousLifetime key span), cache)
  | .keys => (.ok (Answer.keys (sortedKeys cache.keys)), cache)
  | .clear => (.ok (Answer.message "Cache cleared"), cache.clear)
  | .stats => (.ok (Answer.statsWithRate cache.stats), cache)
  | .health => (.ok (Answer.healthy (cache.clock.wall * 1000000)), cache)

/-- The response that reports an error. -/
def Response.ofError (e : CacheError) : Response := .json e.status (Answer.failure e)

/-- The response with a text, or the one that reports an error. -/
def Response.ofResult : Except CacheError String → Response
  | .ok text => .json 200 text
  | .error e => .ofError e

/-- Why a service does not start. -/
inductive StartError where
  | lifetimeTooLong (ms : Int)
  deriving DecidableEq, Repr

namespace Service

/-- A new service with an empty cache. -/
def start (settings : Settings) (clock : Clock) : Except StartError Service :=
  match Duration.ofMillis? settings.defaultTtl with
  | some ttl => .ok ⟨.new settings.capacity clock, ttl⟩
  | none => .error (.lifetimeTooLong settings.defaultTtl)

/-- Carries an operation out and reports what it came to. -/
def perform (s : Service) (operation : Operation) : Response × Service :=
  let (result, cache) := operation.perform s.defaultTtl s.cache
  (.ofResult result, { s with cache := cache })

end Service

/-! ## Requests -/

/-- The greatest number of bytes in the body of a request. -/
def longestBody : Nat := 2 * 1024 * 1024

/-- The body of a request, if its media type, its length and its text are
    right. -/
def readBody {α : Type} (request : Request)
    (read : List Char → Except ReadError (α × List Char)) : Except Rejection α :=
  if request.contentType.all fun type => !MediaType.isJson type then .error .notJson
  else if longestBody < request.body.utf8ByteSize then .error .bodyTooLong
  else
    match readBegin read request.body with
    | .ok body => .ok body
    | .error e => .error (.unreadable e request.body)

/-- The key of a path, if its escapes stand for text. -/
def readKey (key : String) : Except Rejection String :=
  match Percent.decode? key with
  | some key => .ok key
  | none => .error .badKey

/-- The operation that a request asks for at an endpoint that answers its
    method: the key is read before the body. -/
def Endpoint.operation (request : Request) : Endpoint → Except Rejection Operation
  | .put => do
      let body ← readBody request WriteBody.read
      return .put body
  | .putIfAbsent => do
      let body ← readBody request WriteBody.read
      return .putIfAbsent body
  | .get key => do
      let key ← readKey key
      return .get key
  | .delete key => do
      let key ← readKey key
      return .delete key
  | .lifetime key => do
      let key ← readKey key
      if request.method = "PUT" then
        let body ← readBody request LifetimeBody.read
        return .setLifetime key body.ttl
      else return .lifetime key
  | .keys => .ok .keys
  | .clear => .ok .clear
  | .stats => .ok .stats
  | .health => .ok .health

namespace Service

/-- Answers a request at an endpoint. -/
def answerAt (s : Service) (endpoint : Endpoint) (request : Request) : Response × Service :=
  if endpoint.methods.contains request.method then
    let (response, s) := match endpoint.operation request with
      | .error rejection => (Response.ofRejection rejection, s)
      | .ok operation => s.perform operation
    (if request.method = "HEAD" then response.withoutBody else response, s)
  else ((Response.bare 405).withHeaders [endpoint.allow], s)

/-- The headers that let scripts of any origin read a response. -/
def sharingHeaders : List (String × String) :=
  [("access-control-allow-origin", "*"),
    ("vary", "origin, access-control-request-method, access-control-request-headers")]

/-- The headers that answer the question which requests are allowed: all. -/
def permissionHeaders : List (String × String) :=
  [("access-control-allow-methods", "*"), ("access-control-allow-headers", "*")]

/-- Answers a request.  Asking for permission is answered at any path; where
    there is an endpoint, its methods are named as well. -/
def answer (s : Service) (request : Request) : Response × Service :=
  let endpoint := Endpoint.ofPath? (Endpoint.path request.target)
  let (response, s) :=
    if request.method = "OPTIONS" then
      let allowed := endpoint.toList.map Endpoint.allow
      ((Response.bare 200).withHeaders (permissionHeaders ++ allowed), s)
    else match endpoint with
      | none => (Response.bare 404, s)
      | some endpoint => s.answerAt endpoint request
  (response.withHeaders sharingHeaders, s)

end Service

end ExpiringCache.Http
