/-! # Media types

    A media type consists of a type, a slash, a subtype, and parameters
    behind semicolons.  A body is read as JSON if its media type is
    well-formed, its type is `application`, and its subtype is `json` or
    ends in `+json`.  Capital letters are like small ones. -/

namespace ExpiringCache.Http.MediaType

/-- A character that names are made of. -/
def isToken (c : Char) : Bool := c.isAlphanum || "!#$%&'*+-.^_`|~".toList.contains c

/-- A character that may stand inside a quoted parameter. -/
def isQuotable (c : Char) : Bool := 31 < c.toNat && c.toNat < 127

/-- Where a reader of parameters stands. -/
inductive Place where
  | beforeName
  | name
  | beforeValue
  | value
  | opened
  | quoted
  | closed

/-- Whether a text is well-formed as the rest of the parameters. -/
def parametersFrom : Place → List Char → Bool
  | .beforeName, [] => true
  | .value, [] => true
  | .beforeValue, [] => true
  | .closed, [] => true
  | _, [] => false
  | .beforeName, c :: rest =>
      if c = ' ' then parametersFrom .beforeName rest
      else isToken c && parametersFrom .name rest
  | .name, c :: rest =>
      if c = '=' then parametersFrom .beforeValue rest
      else isToken c && parametersFrom .name rest
  | .beforeValue, c :: rest =>
      if c = '"' then parametersFrom .opened rest
      else isToken c && parametersFrom .value rest
  | .value, c :: rest =>
      if c = ';' then parametersFrom .beforeName rest
      else isToken c && parametersFrom .value rest
  | .opened, c :: rest => isQuotable c && parametersFrom .quoted rest
  | .quoted, c :: rest =>
      if c = '"' then parametersFrom .closed rest
      else isQuotable c && parametersFrom .quoted rest
  | .closed, c :: rest =>
      if c = ' ' then parametersFrom .closed rest
      else c = ';' && parametersFrom .beforeName rest

/-- The part of a subtype before its last plus sign, and the part behind it.
    A plus sign at the very beginning separates nothing. -/
def splitSuffix (subtype : List Char) : List Char × Option (List Char) :=
  let suffix := (subtype.reverse.takeWhile (· != '+')).reverse
  if subtype.length ≤ suffix.length + 1 then (subtype, none)
  else (subtype.take (subtype.length - suffix.length - 1), some suffix)

/-- Whether a subtype says that a body is JSON. -/
def isJsonSubtype (subtype : List Char) : Bool :=
  let (name, suffix) := splitSuffix subtype
  name == "json".toList || suffix == some "json".toList

/-- Whether a media type says that a body is JSON. -/
def isJson (text : String) : Bool :=
  let cs := text.toList.map Char.toLower
  let (type, rest) := (cs.takeWhile isToken, cs.dropWhile isToken)
  match rest with
  | '/' :: rest =>
      let (subtype, rest) := (rest.takeWhile isToken, rest.dropWhile isToken)
      type == "application".toList && isJsonSubtype subtype &&
        match rest with
        | [] => true
        | c :: rest => c = ';' && parametersFrom .beforeName rest
  | _ => false

end ExpiringCache.Http.MediaType
