import ExpiringCache.Json.Reader

/-! # Passing over JSON values

    A value that nobody asked for is passed over.  It has to be well-formed,
    but it is looked at less closely: numbers may be of any size, halves of
    characters need no partner, and it may be nested to any depth. -/

namespace ExpiringCache.Json.Skip

/-- Passes over a run of digits, of which there has to be one. -/
def digits (cs : List Char) : Except ReadError (List Char) :=
  match Numeral.digits cs with
  | ([], rest) => .error (.atNext .badNumber rest)
  | (_, rest) => .ok rest

/-- Passes over an exponent, if there is one. -/
def exponent : List Char → Except ReadError (List Char)
  | [] => .ok []
  | c :: rest =>
      if c = 'e' || c = 'E' then
        match rest with
        | '+' :: rest => digits rest
        | '-' :: rest => digits rest
        | rest => digits rest
      else .ok (c :: rest)

/-- Passes over a point with digits, if there is one, and an exponent. -/
def fraction : List Char → Except ReadError (List Char)
  | '.' :: rest => (digits rest).bind exponent
  | rest => exponent rest

/-- Passes over a number whose sign has been read. -/
def number : List Char → Except ReadError (List Char)
  | '0' :: rest =>
      match rest with
      | c :: _ =>
          if Numeral.isDigit c then .error (.atNext .badNumber rest) else fraction rest
      | [] => .ok []
  | rest => (digits rest).bind fraction

/-- Passes over `null`, a truth value, a number or a text. -/
def scalar (c : Char) (rest : List Char) : Except ReadError (List Char) :=
  if c = 'n' then readWord "ull".toList rest
  else if c = 't' then readWord "rue".toList rest
  else if c = 'f' then readWord "alse".toList rest
  else if c = '"' then Quoted.skip rest
  else if c = '-' then number rest
  else if Numeral.isDigit c then number (c :: rest)
  else .error (.atNext .valueExpected (c :: rest))

/-- What a value may stand in. -/
inductive Frame where
  | list
  | object

/-- The character that ends a list or an object. -/
def Frame.closer : Frame → Char
  | .list => ']'
  | .object => '}'

/-- What a text breaks off in. -/
def Frame.unfinished : Frame → Unfinished
  | .list => .list
  | .object => .object

/-- What is wrong if a value is followed by neither a comma nor the end. -/
def Frame.goesOn : Frame → Cause
  | .list => .listGoesOn
  | .object => .objectGoesOn

/-- Passes over the name of a member and its colon, if there has to be one
    before the next value. -/
def name (frame : Frame) (cs : List Char) : Except ReadError (List Char) :=
  match frame with
  | .list => .ok cs
  | .object =>
      match skipBlanks cs with
      | [] => .error (.atEnd .object)
      | '"' :: rest => (Quoted.skip rest).bind readColon
      | rest => .error (.atNext .nameExpected rest)

mutual

/-- Passes over a value inside the given frames and on to the end of the
    outermost one, in at most `fuel` steps. -/
def value : Nat → List Frame → List Char → Except ReadError (List Char)
  | 0, _, cs => .error (.before .valueExpected cs)
  | fuel + 1, frames, cs =>
      match skipBlanks cs with
      | [] => .error (.atEnd .value)
      | c :: rest =>
          if c = '[' then inside fuel (.list :: frames) false rest
          else if c = '{' then inside fuel (.object :: frames) false rest
          else
            match scalar c rest with
            | .error e => .error e
            | .ok rest => inside fuel frames true rest

/-- Passes on inside the given frames, behind a value or else behind the
    opening character of the innermost frame. -/
def inside : Nat → List Frame → Bool → List Char → Except ReadError (List Char)
  | 0, _, _, cs => .error (.before .valueExpected cs)
  | _ + 1, [], _, cs => .ok cs
  | fuel + 1, frame :: outer, behindValue, cs =>
      match skipBlanks cs with
      | [] => .error (.atEnd frame.unfinished)
      | c :: rest =>
          if behindValue && c = ',' then
            match name frame rest with
            | .error e => .error e
            | .ok rest => value fuel (frame :: outer) rest
          else if c = frame.closer then inside fuel outer true rest
          else if behindValue then .error (.atNext frame.goesOn (c :: rest))
          else
            match name frame (c :: rest) with
            | .error e => .error e
            | .ok rest => value fuel (frame :: outer) rest

end

end ExpiringCache.Json.Skip

namespace ExpiringCache.Json

/-- Passes over a value. -/
def skipValue (cs : List Char) : Except ReadError (List Char) :=
  Skip.value (2 * cs.length + 2) [] cs

end ExpiringCache.Json
