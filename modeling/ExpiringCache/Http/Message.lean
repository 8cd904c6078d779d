/-! # Requests and responses

    A request has a method, a target, a body and possibly a media type that
    says what the body is.  A response has a status, a body and headers.
    Bodies of responses are JSON; where a request is turned away before
    anybody has looked at what it asks for, the body is a short note in plain
    words. -/

namespace ExpiringCache.Http

/-- What a client sends. -/
structure Request where
  method : String
  -- the target: a path, possibly with a scheme and an authority before it and a query behind
  -- it
  target : String
  contentType : Option String
  body : String
  deriving DecidableEq, Repr

/-- The body of a response. -/
inductive Body where
  | empty
  | json (text : String)
  | note (text : String)
  deriving DecidableEq, Repr

/-- What a client gets. -/
structure Response where
  status : Nat
  body : Body
  -- names, in small letters, and texts of the headers
  headers : List (String × String)
  deriving DecidableEq, Repr

namespace Response

/-- The headers that tell the media type of a body and its length in bytes. -/
def bodyHeaders (type text : String) : List (String × String) :=
  [("content-type", type), ("content-length", toString text.utf8ByteSize)]

/-- A response with a JSON body. -/
def json (status : Nat) (text : String) : Response :=
  ⟨status, .json text, bodyHeaders "application/json" text⟩

/-- A response without a body. -/
def bare (status : Nat) : Response := ⟨status, .empty, [("content-length", "0")]⟩

/-- A response that turns a request away. -/
def turnedAway (status : Nat) (text : String) : Response :=
  ⟨status, .note text, bodyHeaders "text/plain; charset=utf-8" text⟩

/-- The text of a header, in whose name capital letters are like small ones. -/
def header? (r : Response) (name : String) : Option String := r.headers.lookup name.toLower

/-- The response with further headers. -/
def withHeaders (r : Response) (headers : List (String × String)) : Response :=
  { r with headers := r.headers ++ headers }

/-- The response without its body; the headers stay. -/
def withoutBody (r : Response) : Response := { r with body := .empty }

end Response

end ExpiringCache.Http
