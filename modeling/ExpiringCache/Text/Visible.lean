/-! # Texts as a reader can see them

    A message that shows a text puts it in quotation marks and spells out
    what could not be seen on its own: controls, blanks other than the space,
    joiners, marks that sit on other characters, and characters for private
    use.  Such a character is written as its code. -/

namespace ExpiringCache.Text

/-- The first and the last codes of characters that cannot be seen on their
    own, in the blocks that are set aside for them and in the scripts of
    Europe and the Near East. -/
def unseen : List (Nat × Nat) :=
  [(0x0, 0x1F), (0x7F, 0xA0), (0xAD, 0xAD), (0x300, 0x36F), (0x378, 0x379), (0x380, 0x383),
    (0x483, 0x489), (0x590, 0x5BD), (0x5BF, 0x5BF), (0x5C1, 0x5C2), (0x5C4, 0x5C5),
    (0x5C7, 0x5CF), (0x610, 0x61A), (0x61C, 0x61C), (0x64B, 0x65F), (0x670, 0x670),
    (0x6D6, 0x6DD), (0x6DF, 0x6E4), (0x6E7, 0x6E8), (0x6EA, 0x6ED), (0x1680, 0x1680),
    (0x180B, 0x180F), (0x1AB0, 0x1AFF), (0x1DC0, 0x1DFF), (0x2000, 0x200F), (0x2028, 0x202F),
    (0x205F, 0x206F), (0x20D0, 0x20FF), (0x3000, 0x3000), (0x302A, 0x302F), (0x3099, 0x309A),
    (0xE000, 0xF8FF), (0xFB1E, 0xFB1E), (0xFE00, 0xFE0F), (0xFE20, 0xFE2F), (0xFEFF, 0xFEFF),
    (0xFFF0, 0xFFFB), (0xFFFE, 0xFFFF), (0xE0000, 0x10FFFF)]

/-- Whether a character can be seen on its own. -/
def isVisible (c : Char) : Bool := unseen.all fun range => c.toNat < range.1 || range.2 < c.toNat

/-- What a reader sees of a character inside a quoted text. -/
def visible (c : Char) : List Char :=
  if c.toNat = 0 then ['\\', '0']
  else if c = '\t' then ['\\', 't']
  else if c = '\n' then ['\\', 'n']
  else if c = '\r' then ['\\', 'r']
  else if c = '"' || c = '\\' then ['\\', c]
  else if isVisible c then [c]
  else ['\\', 'u', '{'] ++ Nat.toDigits 16 c.toNat ++ ['}']

/-- A text in quotation marks, as a reader can see it. -/
def quoteVisible (s : String) : String := "\"" ++ String.ofList (s.toList.flatMap visible) ++ "\""

end ExpiringCache.Text
