import ExpiringCache.Decimal.Layout
import ExpiringCache.Json.Value

/-! # Writing JSON

    Values are written without blanks.  In a text only the quotation mark,
    the backslash and the control characters below the space are escaped;
    everything else stands for itself. -/

namespace ExpiringCache.Json

/-- Numbers are written positionally if their leading digit has an exponent
    from -5 to 15; a whole one among them keeps a zero behind the point.
    Other exponents always have a sign. -/
def numberLayout : Decimal.Layout := ⟨-5, 15, ".0", "e", "+"⟩

/-- The text of a number. -/
def Number.render : Number → String
  | .whole i => toString i
  | .binary f => numberLayout.write f

/-- A hexadecimal digit. -/
def hexDigit (n : Nat) : Char := (Nat.toDigits 16 n).getLastD '0'

/-- What stands for a character inside a quoted text. -/
def escape (c : Char) : List Char :=
  if c = '"' then ['\\', '"']
  else if c = '\\' then ['\\', '\\']
  else if c.toNat = 8 then ['\\', 'b']
  else if c.toNat = 9 then ['\\', 't']
  else if c.toNat = 10 then ['\\', 'n']
  else if c.toNat = 12 then ['\\', 'f']
  else if c.toNat = 13 then ['\\', 'r']
  else if c.toNat < 32 then
    ['\\', 'u', '0', '0', hexDigit (c.toNat / 16), hexDigit (c.toNat % 16)]
  else [c]

/-- A text in quotation marks. -/
def quote (s : String) : String := "\"" ++ String.ofList (s.toList.flatMap escape) ++ "\""

/-- Texts with a comma between any two. -/
def commas (texts : List String) : String := String.intercalate "," texts

/-- The text of an object, given the texts of its members. -/
def renderObject (members : List (String × String)) : String :=
  "\x7b" ++ commas (members.map fun m => quote m.1 ++ ":" ++ m.2) ++ "\x7d"

/-- The text of an array, given the texts of its elements. -/
def renderArray (elements : List String) : String := "[" ++ commas elements ++ "]"

mutual

/-- The text of a value. -/
def Value.render : Value → String
  | .null => "null"
  | .bool true => "true"
  | .bool false => "false"
  | .number n => n.render
  | .string s => quote s
  | .array elements => renderArray (renderElements elements)
  | .object members => renderObject (renderMembers members)

/-- The texts of the elements of an array. -/
def renderElements : List Value → List String
  | [] => []
  | element :: rest => element.render :: renderElements rest

/-- The texts of the members of an object, with their names. -/
def renderMembers : List (String × Value) → List (String × String)
  | [] => []
  | (name, value) :: rest => (name, value.render) :: renderMembers rest

end

end ExpiringCache.Json
