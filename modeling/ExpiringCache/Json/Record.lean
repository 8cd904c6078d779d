import ExpiringCache.Json.Skip

/-! # Reading records

    A record with known fields is written as an object, in which unknown
    members are passed over and no known one may occur twice; or as a list
    of its fields in order, in which fields at the end may be left out if
    they are not required.  Where a value is well-formed but not of the
    expected kind, the text is unfit. -/

namespace ExpiringCache.Json

/-- A field of a record that is gathered in an `σ`. -/
structure RecordField (σ : Type) where
  name : String
  isRead : σ → Bool
  read : σ → List Char → Except ReadError (σ × List Char)

/-- A kind of records, gathered in an `σ` and made into an `α`. -/
structure RecordKind (σ α : Type) where
  title : String
  fields : List (RecordField σ)
  start : σ
  -- the record made of what was gathered, or the name of the first required field that is
  -- missing
  complete : σ → Except String α

/-! ## Values of a kind -/

/-- What a value is called that is found in the place of something else. -/
def Found.ofValue : Value → Found
  | .null => .null
  | .bool b => .bool b
  | .number n => .number n
  | .string s => .string s
  | .array _ => .list
  | .object _ => .object

/-- The error of a value that is not of the expected kind.  Only if it is
    well-formed is it called unfit; lists and objects are not looked into. -/
def mistyped (expected : String) (c : Char) (rest : List Char) : ReadError :=
  if c = '[' then .before (.mistyped .list expected) (c :: rest)
  else if c = '{' then .before (.mistyped .object expected) (c :: rest)
  else
    match readScalar c rest with
    | .error e => e
    | .ok (value, rest) => .before (.mistyped (.ofValue value) expected) rest

/-- Reads a text. -/
def readText (cs : List Char) : Except ReadError (String × List Char) :=
  match skipBlanks cs with
  | [] => .error (.atEnd .value)
  | '"' :: rest => Quoted.read rest
  | c :: rest => .error (mistyped "a string" c rest)

/-- What errors call a whole number that fits a signed word. -/
def wholeTitle : String := "i64"

/-- Reads a whole number that fits a signed word. -/
def readWhole (cs : List Char) : Except ReadError (Int × List Char) :=
  match skipBlanks cs with
  | [] => .error (.atEnd .value)
  | c :: rest =>
      match readScalar c rest with
      | .ok (.number (.whole i), rest) =>
          if Word.Fits i then .ok (i, rest) else .error (.before (.outOfRange i wholeTitle) rest)
      | _ => .error (mistyped wholeTitle c rest)

/-- Reads a whole number that fits a signed word, or `null`. -/
def readWholeOrNull (cs : List Char) : Except ReadError (Option Int × List Char) :=
  match skipBlanks cs with
  | 'n' :: rest => (readWord "ull".toList rest).map fun rest => (none, rest)
  | cs => (readWhole cs).map fun (i, rest) => (some i, rest)

/-! ## Records -/

variable {σ α : Type}

/-- The error of a field that occurs a second time, which shows when its name
    has been read; an object that ends there is still read to its end. -/
def repeatedField (name : String) (cs : List Char) : ReadError :=
  match skipBlanks cs with
  | '}' :: rest => .before (.repeated name) rest
  | rest => .before (.repeated name) rest

/-- Reads the members of a record from behind its brace, at most `fuel` of
    them. -/
def readFields (fields : List (RecordField σ)) :
    Nat → Bool → σ → List Char → Except ReadError (σ × List Char)
  | 0, _, _, cs => .error (.before .valueExpected cs)
  | fuel + 1, first, state, cs =>
      match nextName first cs with
      | .error e => .error (e.within .unnamed)
      | .ok (none, rest) => .ok (state, rest)
      | .ok (some name, cs) =>
          match fields.find? fun field => field.name == name with
          | none =>
              match (readColon cs).bind skipValue with
              | .error e => .error (e.within (.name name))
              | .ok cs => readFields fields fuel false state cs
          | some field =>
              if field.isRead state then .error (repeatedField name cs)
              else
                match (readColon cs).bind (field.read state) with
                | .error e => .error (e.within (.name name))
                | .ok (state, cs) => readFields fields fuel false state cs

/-- Reads the elements of a record from behind its bracket: the fields in
    order, as far as they go, where `index` of them have been read before.
    Answers also whether the end was met. -/
def readPositions : List (RecordField σ) → Nat → σ → List Char →
    Except ReadError ((σ × Bool) × List Char)
  | [], _, state, cs => .ok ((state, false), cs)
  | field :: fields, index, state, cs =>
      match nextElement (index == 0) cs with
      | .error e => .error (e.within (.index index))
      | .ok (none, rest) => .ok ((state, true), rest)
      | .ok (some cs, _) =>
          match field.read state cs with
          | .error e => .error (e.within (.index index))
          | .ok (state, cs) => readPositions fields (index + 1) state cs

/-- Reads the bracket that ends a list. -/
def readListEnd (cs : List Char) : Except ReadError (List Char) :=
  match skipBlanks cs with
  | [] => .error (.atEnd .list)
  | ']' :: rest => .ok rest
  | ',' :: rest =>
      match skipBlanks rest with
      | ']' :: rest => .error (.atNext .commaTrails (']' :: rest))
      | rest => .error (.atNext .moreFollows rest)
  | rest => .error (.atNext .moreFollows rest)

namespace RecordKind

/-- What errors call the list of all fields. -/
def listTitle (kind : RecordKind σ α) : String :=
  kind.title ++ " with " ++ toString kind.fields.length
    ++ if kind.fields.length = 1 then " element" else " elements"

/-- The error of a list in which a required field is missing. -/
def tooShort (kind : RecordKind σ α) (missing : String) (rest : List Char) : ReadError :=
  let length := kind.fields.findIdx fun field => field.name == missing
  .before (.tooShort length kind.listTitle) rest

/-- Reads a record. -/
def read (kind : RecordKind σ α) (cs : List Char) : Except ReadError (α × List Char) :=
  match skipBlanks cs with
  | [] => .error (.atEnd .value)
  | '{' :: rest =>
      match readFields kind.fields (rest.length + 1) true kind.start rest with
      | .error e => .error e
      | .ok (state, rest) =>
          match kind.complete state with
          | .error missing => .error (.before (.missing missing) rest)
          | .ok record => .ok (record, rest)
  | '[' :: rest =>
      match readPositions kind.fields 0 kind.start rest with
      | .error e => .error e
      | .ok ((state, ended), rest) =>
          match kind.complete state with
          | .error missing => .error (kind.tooShort missing rest)
          | .ok record =>
              if ended then .ok (record, rest)
              else (readListEnd rest).map fun rest => (record, rest)
  | c :: rest => .error (mistyped kind.title c rest)

end RecordKind

end ExpiringCache.Json
