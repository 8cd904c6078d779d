import ExpiringCache.Json.Numeral

/-! # Reading quoted texts

    A quoted text ends at the first quotation mark that is not escaped.
    Control characters below the space have to be escaped.  An escape of
    four hexadecimal digits names a unit of sixteen bits; units that stand
    for half a character have to come in pairs. -/

namespace ExpiringCache.Json.Quoted

/-- Where a reader of a quoted text stands. -/
inductive Position where
  | plain
  | escape
  -- before `left + 1` hexadecimal digits of a unit whose digits so far have the value `unit`;
  -- `high` is the first half of its pair, if it is a second half
  | hex (left unit : Nat) (high : Option Nat)
  -- behind a first half: a backslash has to follow
  | pairBackslash (high : Nat)
  -- behind a first half and a backslash: a `u` has to follow
  | pairLetter (high : Nat)

/-- The value of a hexadecimal digit. -/
def hexValue? (c : Char) : Option Nat :=
  if '0' ≤ c && c ≤ '9' then some (c.toNat - '0'.toNat)
  else if 'a' ≤ c && c ≤ 'f' then some (c.toNat - 'a'.toNat + 10)
  else if 'A' ≤ c && c ≤ 'F' then some (c.toNat - 'A'.toNat + 10)
  else none

/-- The character that a letter behind a backslash stands for. -/
def escaped? (c : Char) : Option Char :=
  match c with
  | '"' => some '"'
  | '\\' => some '\\'
  | '/' => some '/'
  | 'b' => some (Char.ofNat 8)
  | 'f' => some (Char.ofNat 12)
  | 'n' => some '\n'
  | 'r' => some '\r'
  | 't' => some '\t'
  | _ => none

/-- Whether a text has at least `count` bytes. -/
def hasBytes (count : Nat) (cs : List Char) : Bool :=
  count ≤ (cs.take count).foldl (fun bytes c => bytes + c.utf8Size) 0

/-- Whether a unit is the first half of a pair. -/
def isHigh (unit : Nat) : Bool := 0xD800 ≤ unit && unit ≤ 0xDBFF

/-- Whether a unit is the second half of a pair. -/
def isLow (unit : Nat) : Bool := 0xDC00 ≤ unit && unit ≤ 0xDFFF

/-- The position behind the letter `u`, if four more bytes are there. -/
def enterHex (high : Option Nat) (rest : List Char) : Except ReadError Position :=
  if hasBytes 4 rest then .ok (.hex 3 0 high) else .error (.atEnd .string)

/-- The error of a unit that has something else in the place of one of its
    digits, behind which `left` more were due.  All four are looked at. -/
def badDigit (left : Nat) (rest : List Char) : ReadError := ⟨.badEscape, rest, left + 1, []⟩

/-- Reads on to the end of a quoted text; `taken` holds its characters so
    far, the last one first. -/
def readFrom (taken : List Char) : Position → List Char → Reading String
  | _, [] => .error (.atEnd .string)
  | .plain, c :: rest =>
      if c = '"' then .ok (String.ofList taken.reverse, rest)
      else if c = '\\' then readFrom taken .escape rest
      else if c.toNat < 32 then .error (.atNext .controlCharacter (c :: rest))
      else readFrom (c :: taken) .plain rest
  | .escape, c :: rest =>
      if c = 'u' then
        match enterHex none rest with
        | .ok position => readFrom taken position rest
        | .error e => .error e
      else
        match escaped? c with
        | some escaped => readFrom (escaped :: taken) .plain rest
        | none => .error (.atNext .badEscape (c :: rest))
  | .hex left unit high, c :: rest =>
      match hexValue? c with
      | none => .error (badDigit left (c :: rest))
      | some digit =>
          let unit := unit * 16 + digit
          match left, high with
          | left + 1, _ => readFrom taken (.hex left unit high) rest
          | 0, none =>
              if isLow unit then .error (.before .halfAlone rest)
              else if isHigh unit then readFrom taken (.pairBackslash unit) rest
              else readFrom (Char.ofNat unit :: taken) .plain rest
          | 0, some high =>
              if isLow unit then
                let code := 0x10000 + (high - 0xD800) * 0x400 + (unit - 0xDC00)
                readFrom (Char.ofNat code :: taken) .plain rest
              else .error (.before .halfAlone rest)
  | .pairBackslash high, c :: rest =>
      if c = '\\' then readFrom taken (.pairLetter high) rest
      else .error (.atNext .halfExpected (c :: rest))
  | .pairLetter high, c :: rest =>
      if c = 'u' then
        match enterHex (some high) rest with
        | .ok position => readFrom taken position rest
        | .error e => .error e
      else .error (.atNext .halfExpected (c :: rest))

/-- Reads a text whose opening quotation mark has been read. -/
def read (cs : List Char) : Reading String := readFrom [] .plain cs

/-- Passes over a text whose opening quotation mark has been read.  Units
    need not come in pairs here. -/
def skipFrom : Position → List Char → Except ReadError (List Char)
  | _, [] => .error (.atEnd .string)
  | .escape, c :: rest =>
      if c = 'u' then
        match enterHex none rest with
        | .ok position => skipFrom position rest
        | .error e => .error e
      else if (escaped? c).isSome then skipFrom .plain rest
      else .error (.atNext .badEscape (c :: rest))
  | .hex left unit high, c :: rest =>
      if (hexValue? c).isNone then .error (badDigit left (c :: rest))
      else
        match left with
        | left + 1 => skipFrom (.hex left unit high) rest
        | 0 => skipFrom .plain rest
  | _, c :: rest =>
      if c = '"' then .ok rest
      else if c = '\\' then skipFrom .escape rest
      else if c.toNat < 32 then .error (.before .controlCharacter (c :: rest))
      else skipFrom .plain rest

/-- Passes over a text whose opening quotation mark has been read. -/
def skip (cs : List Char) : Except ReadError (List Char) := skipFrom .plain cs

end ExpiringCache.Json.Quoted
