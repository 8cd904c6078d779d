import ExpiringCache.Http.Message
import ExpiringCache.Json.Complaint

/-! # Rejections

    A request is turned away without a look at what it asks for if its body
    is not said to be JSON, is too long or cannot be read, or if its key is
    not text.  The client is told why in a note. -/

namespace ExpiringCache.Http

open Json

/-- Why a request is turned away before it is known what it asks for. -/
inductive Rejection where
  | notJson
  | bodyTooLong
  -- the body, given whole, cannot be read
  | unreadable (e : ReadError) (body : String)
  | badKey

namespace Rejection

/-- The status of the response. -/
def status : Rejection → Nat
  | .notJson => 415
  | .bodyTooLong => 413
  | .unreadable e _ => if e.kind = .unfit then 422 else 400
  | .badKey => 400

/-- The note that tells the client. -/
def note : Rejection → String
  | .notJson => "Expected request with `Content-Type: application/json`"
  | .bodyTooLong => "Failed to buffer the request body: length limit exceeded"
  | .unreadable e body =>
      let attempt :=
        if e.kind = .unfit then "Failed to deserialize the JSON body into the target type"
        else "Failed to parse the request body as JSON"
      attempt ++ ": " ++ e.complaint body
  | .badKey => "Invalid URL: Invalid UTF-8 in `key`"

end Rejection

/-- The response that turns a request away. -/
def Response.ofRejection (r : Rejection) : Response := .turnedAway r.status r.note

end ExpiringCache.Http
