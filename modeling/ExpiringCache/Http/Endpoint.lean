import ExpiringCache.Http.Percent

/-! # Endpoints

    The path of a target names an endpoint.  Some endpoints are about one
    key, which is the last part of the path and must not be empty there; its
    escapes do not take part in finding the endpoint, so an escaped slash
    belongs to the key.  A target may also begin with a scheme and an
    authority; which ones makes no difference. -/

namespace ExpiringCache.Http

/-- What a path can name; keys still have their escapes. -/
inductive Endpoint where
  | put
  | putIfAbsent
  | get (key : String)
  | delete (key : String)
  | lifetime (key : String)
  | keys
  | clear
  | stats
  | health
  deriving DecidableEq, Repr

namespace Endpoint

/-- A character of schemes. -/
def isSchemeChar (c : Char) : Bool := c.isAlphanum || c = '+' || c = '-' || c = '.'

/-- A character that begins a query or a fragment. -/
def endsPath (c : Char) : Bool := c = '?' || c = '#'

/-- A target without scheme and authority, if it begins with them. -/
def withoutAuthority (target : List Char) : List Char :=
  match target.dropWhile isSchemeChar with
  | ':' :: '/' :: '/' :: rest => rest.dropWhile fun c => !(c = '/' || endsPath c)
  | _ => target

/-- The path of a target: what stands behind an authority, and before a
    query or a fragment. -/
def path (target : String) : String :=
  String.ofList ((withoutAuthority target.toList).takeWhile fun c => !endsPath c)

/-- The parts of a text between its slashes. -/
def parts : List Char → List (List Char)
  | [] => [[]]
  | c :: rest =>
      if c = '/' then [] :: parts rest
      else match parts rest with
        | [] => [[c]]
        | part :: others => (c :: part) :: others

/-- The endpoint that a path names. -/
def ofPath? (path : String) : Option Endpoint :=
  match (parts path.toList).map String.ofList with
  | ["", "set"] => some .put
  | ["", "setnx"] => some .putIfAbsent
  | ["", "get", key] => if key.isEmpty then none else some (.get key)
  | ["", "del", key] => if key.isEmpty then none else some (.delete key)
  | ["", "expire", key] => if key.isEmpty then none else some (.lifetime key)
  | ["", "keys"] => some .keys
  | ["", "clear"] => some .clear
  | ["", "stats"] => some .stats
  | ["", "health"] => some .health
  | _ => none

/-- The methods that an endpoint answers.  Whoever may read may also ask for
    the head of what would be read. -/
def methods : Endpoint → List String
  | .put => ["PUT"]
  | .putIfAbsent => ["PUT"]
  | .get _ => ["GET", "HEAD"]
  | .delete _ => ["DELETE"]
  | .lifetime _ => ["GET", "HEAD", "PUT"]
  | .keys => ["GET", "HEAD"]
  | .clear => ["POST"]
  | .stats => ["GET", "HEAD"]
  | .health => ["GET", "HEAD"]

/-- The header that names the methods that an endpoint answers. -/
def allow (e : Endpoint) : String × String := ("allow", String.intercalate "," e.methods)

end Endpoint

end ExpiringCache.Http
