/-! # JSON values

    Numbers keep whether they are whole: a whole number that fits 64 bits is
    exact, every other number is a binary floating-point one.  The members
    of an object are sorted by name, and no name occurs twice. -/

namespace ExpiringCache.Json

/-- A JSON number. -/
inductive Number where
  | whole (i : Int)
  | binary (f : Float)
  deriving Repr

/-- A JSON value. -/
inductive Value where
  | null
  | bool (b : Bool)
  | number (n : Number)
  | string (s : String)
  | array (elements : List Value)
  | object (members : List (String × Value))
  deriving Repr, Inhabited

namespace Value

/-- A whole number as a value. -/
def int (i : Int) : Value := .number (.whole i)

/-- Puts a member in its place; one of the same name gives way. -/
def insertMember (name : String) (value : Value) :
    List (String × Value) → List (String × Value)
  | [] => [(name, value)]
  | (n, v) :: rest =>
      if name < n then (name, value) :: (n, v) :: rest
      else if name = n then (name, value) :: rest
      else (n, v) :: insertMember name value rest

/-- The object with the given members, of which the last of each name
    counts. -/
def ofMembers (members : List (String × Value)) : Value :=
  .object (members.foldl (fun sorted m => insertMember m.1 m.2 sorted) [])

/-- The member of an object with a given name. -/
def member? (name : String) : Value → Option Value
  | .object members => members.lookup name
  | _ => none

end Value

end ExpiringCache.Json
