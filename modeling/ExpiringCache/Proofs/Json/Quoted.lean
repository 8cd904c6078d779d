import ExpiringCache.Json.Printer
import ExpiringCache.Json.Record
import Mathlib.Tactic.SplitIfs

/-! # Texts are read as they were written

    Whatever stands in a text, it is quoted in such a way that who reads the
    quoted text gets it back, and goes on right behind it.  Character by
    character, the reader comes from the escape to the character. -/

namespace ExpiringCache.Json

namespace Quoted

variable (taken rest : List Char)

/-- A letter behind a backslash is read as what it stands for. -/
theorem readFrom_escaped (letter : Char) {c : Char} (hletter : escaped? letter = some c) :
    readFrom taken .plain ('\\' :: letter :: rest) = readFrom (c :: taken) .plain rest := by
  have hu : letter ≠ 'u' := by
    rintro rfl
    cases hletter
  rw [readFrom, if_neg (by decide), if_pos rfl, readFrom, if_neg hu, hletter]

/-- The digits of a number below 32 have their values. -/
theorem hexValue?_hexDigit {n : Nat} (hn : n < 32) :
    hexValue? (hexDigit (n / 16)) = some (n / 16) ∧
      hexValue? (hexDigit (n % 16)) = some (n % 16) := by
  have hall : ∀ n < 32, hexValue? (hexDigit (n / 16)) = some (n / 16) ∧
      hexValue? (hexDigit (n % 16)) = some (n % 16) := by decide
  exact hall n hn

/-- Four characters have at least four bytes. -/
theorem hasBytes_four (a b c d : Char) : hasBytes 4 (a :: b :: c :: d :: rest) = true := by
  have ha := a.utf8Size_pos
  have hb := b.utf8Size_pos
  have hc := c.utf8Size_pos
  have hd := d.utf8Size_pos
  refine decide_eq_true ?_
  show 4 ≤ 0 + a.utf8Size + b.utf8Size + c.utf8Size + d.utf8Size
  omega

/-- A control character is read from its four digits. -/
theorem readFrom_control {c : Char} (hc : c.toNat < 32) :
    readFrom taken .plain
      ('\\' :: 'u' :: '0' :: '0' :: hexDigit (c.toNat / 16) :: hexDigit (c.toNat % 16) :: rest) =
      readFrom (c :: taken) .plain rest := by
  obtain ⟨hhigh, hlow⟩ := hexValue?_hexDigit hc
  have hzero : hexValue? '0' = some 0 := by decide
  have hunit : ((0 * 16 + 0) * 16 + c.toNat / 16) * 16 + c.toNat % 16 = c.toNat := by omega
  -- a unit below 32 is a character of its own
  have hnotLow : isLow c.toNat = false := by
    rw [isLow, Bool.and_eq_false_iff]
    exact .inl (decide_eq_false (by omega))
  have hnotHigh : isHigh c.toNat = false := by
    rw [isHigh, Bool.and_eq_false_iff]
    exact .inl (decide_eq_false (by omega))
  rw [readFrom, if_neg (by decide), if_pos rfl, readFrom, if_pos rfl, enterHex, hasBytes_four,
    if_pos rfl]
  simp only [readFrom, hzero, hhigh, hlow, hunit, hnotLow, hnotHigh, Bool.false_eq_true,
    if_false, Char.ofNat_toNat]

/-- A character is read from what stands for it. -/
theorem readFrom_escape (c : Char) :
    readFrom taken .plain (escape c ++ rest) = readFrom (c :: taken) .plain rest := by
  have hcode : ∀ {n : Nat} {letter : Char}, c.toNat = n →
      escaped? letter = some (Char.ofNat n) →
      readFrom taken .plain ('\\' :: letter :: rest) = readFrom (c :: taken) .plain rest := by
    intro n letter hn hletter
    rw [← hn, Char.ofNat_toNat] at hletter
    exact readFrom_escaped taken rest letter hletter
  unfold escape
  split_ifs with hquote hbackslash h8 h9 h10 h12 h13 hcontrol
  · exact hquote ▸ readFrom_escaped taken rest '"' rfl
  · exact hbackslash ▸ readFrom_escaped taken rest '\\' rfl
  · exact hcode h8 rfl
  · exact hcode h9 rfl
  · exact hcode h10 rfl
  · exact hcode h12 rfl
  · exact hcode h13 rfl
  · exact readFrom_control taken rest hcontrol
  · rw [List.singleton_append, readFrom, if_neg hquote, if_neg hbackslash, if_neg hcontrol]

/-- A text is read from what stands for its characters, up to the quotation
    mark behind it. -/
theorem readFrom_flatMap_escape (cs : List Char) :
    readFrom taken .plain (cs.flatMap escape ++ '"' :: rest) =
      .ok (String.ofList (taken.reverse ++ cs), rest) := by
  induction cs generalizing taken with
  | nil => rw [List.flatMap_nil, List.nil_append, readFrom, if_pos rfl, List.append_nil]
  | cons c cs ih =>
      rw [List.flatMap_cons, List.append_assoc, readFrom_escape, ih, List.reverse_cons,
        List.append_assoc, List.singleton_append]

/-- Behind the opening quotation mark, a text is read that was quoted. -/
theorem read_escaped (s : String) (rest : List Char) :
    read (s.toList.flatMap escape ++ '"' :: rest) = .ok (s, rest) := by
  rw [read, readFrom_flatMap_escape, List.reverse_nil, List.nil_append, String.ofList_toList]

end Quoted

/-- A quoted text begins with its quotation mark. -/
theorem toList_quote_append (s : String) (rest : List Char) :
    (quote s).toList ++ rest = '"' :: (s.toList.flatMap escape ++ '"' :: rest) := by
  simp [quote]

/-- Who reads a quoted text gets the text, and what stands behind it
    remains. -/
theorem readText_quote (s : String) (rest : List Char) :
    readText ((quote s).toList ++ rest) = .ok (s, rest) := by
  rw [toList_quote_append]
  exact Quoted.read_escaped s rest

/-- So does who reads the name of a member, be it the first or behind a
    comma. -/
theorem nextName_quote (first : Bool) (name : String) (rest : List Char) :
    nextName first ((if first then [] else [',']) ++ ((quote name).toList ++ rest)) =
      .ok (some name, rest) := by
  rw [toList_quote_append]
  cases first with
  | true =>
      show (Quoted.read (name.toList.flatMap escape ++ '"' :: rest)).map _ = _
      rw [Quoted.read_escaped]
      rfl
  | false =>
      show (Quoted.read (name.toList.flatMap escape ++ '"' :: rest)).map _ = _
      rw [Quoted.read_escaped]
      rfl

/-- A quoted text stands for itself among the values, however deep. -/
theorem readValue_quote (depth : Nat) (s : String) (rest : List Char) :
    readValue depth ((quote s).toList ++ rest) = .ok (.string s, rest) := by
  rw [toList_quote_append, readValue]
  show (Quoted.read (s.toList.flatMap escape ++ '"' :: rest)).map _ = _
  rw [Quoted.read_escaped]
  rfl

end ExpiringCache.Json
