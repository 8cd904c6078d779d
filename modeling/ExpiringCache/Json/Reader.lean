import ExpiringCache.Json.Quoted

/-! # Reading JSON values

    Every reader takes what remains of a text and answers a value with what
    remains behind it.  Lists and objects may be nested only so deep; the
    reader of a value is therefore defined by recursion on how much deeper
    it may go.  If a text breaks off, the reader says so, unless it was
    malformed before.  An error names the way to the part in which it shows;
    elements are counted from 0. -/

namespace ExpiringCache.Json

/-- The number of lists and objects that may be nested in a text. -/
def deepest : Nat := 127

/-- The four characters that may stand between the parts of a text. -/
def isBlank (c : Char) : Bool := c = ' ' || c = '\n' || c = '\t' || c = '\r'

/-- What remains behind any blanks. -/
def skipBlanks (cs : List Char) : List Char := cs.dropWhile isBlank

/-- Reads the rest of a word. -/
def readWord : List Char → List Char → Except ReadError (List Char)
  | [], cs => .ok cs
  | _ :: _, [] => .error (.atEnd .value)
  | letter :: letters, c :: cs =>
      if c = letter then readWord letters cs else .error (.atNext .wordExpected (c :: cs))

/-- Reads `null`, a truth value, a number or a text, whose first character
    is given apart from the rest. -/
def readScalar (c : Char) (rest : List Char) : Except ReadError (Value × List Char) :=
  if c = 'n' then (readWord "ull".toList rest).map fun rest => (.null, rest)
  else if c = 't' then (readWord "rue".toList rest).map fun rest => (.bool true, rest)
  else if c = 'f' then (readWord "alse".toList rest).map fun rest => (.bool false, rest)
  else if c = '"' then (Quoted.read rest).map fun (s, rest) => (.string s, rest)
  else if c = '-' then (readNumber true rest).map fun (n, rest) => (.number n, rest)
  else if Numeral.isDigit c then
    (readNumber false (c :: rest)).map fun (n, rest) => (.number n, rest)
  else .error (.atNext .valueExpected (c :: rest))

/-! ## Lists and objects -/

/-- What remains at the next element of a list, or `none` behind its end. -/
def nextElement (first : Bool) (cs : List Char) :
    Except ReadError (Option (List Char) × List Char) :=
  match skipBlanks cs with
  | [] => .error (.atEnd .list)
  | ']' :: rest => .ok (none, rest)
  | c :: rest =>
      if first then .ok (some (c :: rest), [])
      else if c = ',' then
        match skipBlanks rest with
        | [] => .error (.atEnd .value)
        | ']' :: rest => .error (.atNext .commaTrails (']' :: rest))
        | rest => .ok (some rest, [])
      else .error (.atNext .listGoesOn (c :: rest))

/-- The name of the next member of an object with what remains behind it, or
    `none` behind the end of the object. -/
def nextName (first : Bool) (cs : List Char) :
    Except ReadError (Option String × List Char) :=
  let name (cs : List Char) : Except ReadError (Option String × List Char) :=
    match cs with
    | [] => .error (.atEnd .value)
    | '"' :: rest => (Quoted.read rest).map fun (s, rest) => (some s, rest)
    | cs => .error (.atNext .nameExpected cs)
  match skipBlanks cs with
  | [] => .error (.atEnd .object)
  | '}' :: rest => .ok (none, rest)
  | c :: rest =>
      if first then name (c :: rest)
      else if c = ',' then
        match skipBlanks rest with
        | '}' :: rest => .error (.atNext .commaTrails ('}' :: rest))
        | rest => name rest
      else .error (.atNext .objectGoesOn (c :: rest))

/-- Reads the colon behind a name. -/
def readColon (cs : List Char) : Except ReadError (List Char) :=
  match skipBlanks cs with
  | [] => .error (.atEnd .object)
  | ':' :: rest => .ok rest
  | rest => .error (.atNext .colonExpected rest)

/-- Reads the elements of a list from behind its bracket, at most `fuel` of
    them; `index` of them have been read before. -/
def readElements {α : Type} (element : List Char → Reading α) :
    Nat → Nat → List Char → Reading (List α)
  | 0, _, cs => .error (.before .valueExpected cs)
  | fuel + 1, index, cs =>
      match nextElement (index == 0) cs with
      | .error e => .error (e.within (.index index))
      | .ok (none, rest) => .ok ([], rest)
      | .ok (some cs, _) =>
          match element cs with
          | .error e => .error (e.within (.index index))
          | .ok (a, cs) =>
              (readElements element fuel (index + 1) cs).map fun (as, cs) => (a :: as, cs)

/-- Reads the members of an object from behind its brace, at most `fuel` of
    them. -/
def readMembers {α : Type} (element : List Char → Reading α) :
    Nat → Bool → List Char → Reading (List (String × α))
  | 0, _, cs => .error (.before .valueExpected cs)
  | fuel + 1, first, cs =>
      match nextName first cs with
      | .error e => .error (e.within .unnamed)
      | .ok (none, rest) => .ok ([], rest)
      | .ok (some name, cs) =>
          match (readColon cs).bind element with
          | .error e => .error (e.within (.name name))
          | .ok (a, cs) =>
              (readMembers element fuel false cs).map fun (as, cs) => ((name, a) :: as, cs)

/-- Reads a value with at most `depth` lists and objects nested in it. -/
def readValue : Nat → List Char → Except ReadError (Value × List Char)
  | depth, cs =>
      match skipBlanks cs with
      | [] => .error (.atEnd .value)
      | c :: rest =>
          if c = '[' then
            match depth with
            | 0 => .error (.atNext .tooDeep (c :: rest))
            | depth + 1 =>
                (readElements (readValue depth) (rest.length + 1) 0 rest).map
                  fun (elements, rest) => (.array elements, rest)
          else if c = '{' then
            match depth with
            | 0 => .error (.atNext .tooDeep (c :: rest))
            | depth + 1 =>
                (readMembers (readValue depth) (rest.length + 1) true rest).map
                  fun (members, rest) => (.ofMembers members, rest)
          else readScalar c rest

/-- Nothing but blanks may remain. -/
def readEnd (cs : List Char) : Except ReadError Unit :=
  match skipBlanks cs with
  | [] => .ok ()
  | rest => .error (.atNext .moreFollows rest)

/-- The value of a text. -/
def parse (text : String) : Except ReadError Value :=
  match readValue deepest text.toList with
  | .error e => .error e
  | .ok (value, rest) => (readEnd rest).map fun _ => value

end ExpiringCache.Json
