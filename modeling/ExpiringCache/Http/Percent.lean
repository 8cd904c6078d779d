/-! # Percent escapes

    In a path, a percent sign with two hexadecimal digits behind it stands
    for the byte of that value; a percent sign without them stands for
    itself.  The bytes together have to be text. -/

namespace ExpiringCache.Http.Percent

/-- The value of a hexadecimal digit. -/
def hexValue? (c : Char) : Option Nat :=
  if '0' ≤ c && c ≤ '9' then some (c.toNat - '0'.toNat)
  else if 'a' ≤ c && c ≤ 'f' then some (c.toNat - 'a'.toNat + 10)
  else if 'A' ≤ c && c ≤ 'F' then some (c.toNat - 'A'.toNat + 10)
  else none

/-- The bytes of a character. -/
def bytesOf (c : Char) : List UInt8 := (String.singleton c).toUTF8.toList

/-- The bytes that a text with escapes stands for. -/
def bytes : List Char → List UInt8
  | [] => []
  | '%' :: high :: low :: rest =>
      match hexValue? high, hexValue? low with
      | some h, some l => UInt8.ofNat (h * 16 + l) :: bytes rest
      | _, _ => bytesOf '%' ++ bytes (high :: low :: rest)
  | c :: rest => bytesOf c ++ bytes rest

/-- The text that a text with escapes stands for, if it stands for one. -/
def decode? (text : String) : Option String :=
  String.fromUTF8? ⟨(bytes text.toList).toArray⟩

end ExpiringCache.Http.Percent
