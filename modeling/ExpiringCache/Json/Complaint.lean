import ExpiringCache.Json.Printer
import ExpiringCache.Json.ReadError
import ExpiringCache.Text.Visible

/-! # What is said of reading errors

    A complaint names the way to the part that is wrong, says what is wrong
    there, and tells the line and the column.  Columns count bytes. -/

namespace ExpiringCache.Json

/-- What a text breaks off in, in words. -/
def Unfinished.text : Unfinished → String
  | .value => "a value"
  | .list => "a list"
  | .object => "an object"
  | .string => "a string"

/-- What was found, in words. -/
def Found.text : Found → String
  | .null => "null"
  | .bool b => "boolean `" ++ (if b then "true" else "false") ++ "`"
  | .number (.whole i) => "integer `" ++ toString i ++ "`"
  | .number (.binary f) => "floating point `" ++ (Number.binary f).render ++ "`"
  | .string s => "string " ++ Text.quoteVisible s
  | .list => "sequence"
  | .object => "map"

/-- What is wrong, in words. -/
def Cause.text : Cause → String
  | .breaksOff inside => "EOF while parsing " ++ inside.text
  | .valueExpected => "expected value"
  | .wordExpected => "expected ident"
  | .colonExpected => "expected `:`"
  | .listGoesOn => "expected `,` or `]`"
  | .objectGoesOn => "expected `,` or `\x7d`"
  | .nameExpected => "key must be a string"
  | .commaTrails => "trailing comma"
  | .moreFollows => "trailing characters"
  | .badEscape => "invalid escape"
  | .badNumber => "invalid number"
  | .numberTooGreat => "number out of range"
  | .controlCharacter => "control character (\\u0000-\\u001F) found while parsing a string"
  | .halfAlone => "lone leading surrogate in hex escape"
  | .halfExpected => "unexpected end of hex escape"
  | .tooDeep => "recursion limit exceeded"
  | .mistyped found expected => "invalid type: " ++ found.text ++ ", expected " ++ expected
  | .outOfRange i expected =>
      "invalid value: " ++ (Found.number (.whole i)).text ++ ", expected " ++ expected
  | .missing field => "missing field `" ++ field ++ "`"
  | .repeated field => "duplicate field `" ++ field ++ "`"
  | .tooShort length expected =>
      "invalid length " ++ toString length ++ ", expected " ++ expected

/-! ## Ways -/

/-- Writes a step of a way; the first one needs no dot. -/
def PathStep.text (first : Bool) (step : PathStep) : String :=
  let dot := if first then "" else "."
  match step with
  | .index i => "[" ++ toString i ++ "]"
  | .name s => dot ++ s
  | .unnamed => dot ++ "?"

/-- The way to a part. -/
def pathText : List PathStep → String
  | [] => ""
  | step :: rest => step.text true ++ String.join (rest.map (PathStep.text false))

/-! ## Places -/

/-- A place in a text. -/
structure Place where
  line : Nat
  -- how many bytes of the line lie before the place
  column : Nat
  deriving DecidableEq, Repr

/-- The place behind some bytes. -/
def Place.behind (bytes : List UInt8) : Place :=
  ⟨bytes.count 10 + 1, (bytes.reverse.takeWhile fun b => b != 10).length⟩

namespace ReadError

/-- The place in the whole text at which an error showed. -/
def place (e : ReadError) (whole : String) : Place :=
  let bytes := whole.toUTF8.data.toList
  let left := (String.ofList e.rest).utf8ByteSize
  Place.behind (bytes.take (bytes.length - left + e.seen))

/-- The complaint about an error in a text.  The way is left out where no
    step of it is known. -/
def complaint (e : ReadError) (whole : String) : String :=
  let way := if e.path.all fun step => step == .unnamed then "" else pathText e.path ++ ": "
  let place := e.place whole
  way ++ e.cause.text ++ " at line " ++ toString place.line ++ " column " ++ toString place.column

end ReadError

end ExpiringCache.Json
