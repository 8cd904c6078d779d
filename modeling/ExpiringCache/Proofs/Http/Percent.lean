import ExpiringCache.Http.Percent
import ExpiringCache.Json.Printer

/-! # Keys are read from paths as they were spelled

    A client spells a key character by character: a character stands for
    itself, unless it is the percent sign, or for its bytes, each of them
    written as a percent sign with two hexadecimal digits behind it.  However
    a key is spelled, it is read back. -/

namespace ExpiringCache.Http.Percent

open Json

/-- A hexadecimal digit, whose letter may be a capital. -/
def digit (capital : Bool) (n : Nat) : Char :=
  if capital then (hexDigit n).toUpper else hexDigit n

/-- A byte as it is escaped. -/
def escapedByte (capital : Bool) (b : UInt8) : List Char :=
  ['%', digit capital (b.toNat / 16), digit capital (b.toNat % 16)]

/-- A part of a path that stands for the characters of a key. -/
inductive Spells : List Char → List Char → Prop where
  | nil : Spells [] []
  | plain {c : Char} {part key : List Char} (hc : c ≠ '%') (h : Spells part key) :
      Spells (c :: part) (c :: key)
  | escaped {c : Char} {part key : List Char} (capital : Bool) (h : Spells part key) :
      Spells ((String.utf8EncodeChar c).flatMap (escapedByte capital) ++ part) (c :: key)

/-- What a count over the bytes of an array comes to, when it has come to the
    `i`-th of them. -/
theorem toList_loop_eq (bytes : ByteArray) (i : Nat) (taken : List UInt8) :
    ByteArray.toList.loop bytes i taken = taken.reverse ++ bytes.data.toList.drop i := by
  induction i, taken using ByteArray.toList.loop.induct bytes with
  | case1 i taken hlt ih =>
      have hi : i < bytes.data.toList.length := hlt
      have hget : bytes.get! i = bytes.data.toList[i] := getElem!_pos bytes.data i hlt
      rw [ByteArray.toList.loop, if_pos hlt, ih, List.drop_eq_getElem_cons hi, hget,
        List.reverse_cons, List.append_assoc, List.singleton_append]
  | case2 i taken hge =>
      have hi : bytes.data.toList.length ≤ i := Nat.le_of_not_lt hge
      rw [ByteArray.toList.loop, if_neg hge, List.drop_eq_nil_of_le hi, List.append_nil]

/-- The bytes of a character are those of its encoding. -/
theorem bytesOf_eq (c : Char) : bytesOf c = String.utf8EncodeChar c := by
  rw [bytesOf, ByteArray.toList, toList_loop_eq]
  show (String.singleton c).toByteArray.data.toList = _
  rw [String.toByteArray_singleton, List.utf8Encode_singleton, List.toList_data_toByteArray]

/-- A byte is read from its two digits. -/
theorem bytes_escapedByte (capital : Bool) (b : UInt8) (rest : List Char) :
    bytes (escapedByte capital b ++ rest) = b :: bytes rest := by
  have hvalues : ∀ n < 16, hexValue? (digit capital n) = some n := by
    cases capital with
    | true => decide
    | false => decide
  have hb := b.toNat_lt
  have hhigh := hvalues (b.toNat / 16) (by omega)
  have hlow := hvalues (b.toNat % 16) (by omega)
  have hbyte : UInt8.ofNat (b.toNat / 16 * 16 + b.toNat % 16) = b := by
    rw [Nat.div_add_mod']
    exact UInt8.ofNat_toNat
  show bytes ('%' :: digit capital _ :: digit capital _ :: rest) = _
  rw [bytes, hhigh, hlow]
  simp only [hbyte]

/-- The bytes that a part stands for are those of its key. -/
theorem bytes_of_spells {part key : List Char} (h : Spells part key) :
    bytes part = key.flatMap String.utf8EncodeChar := by
  induction h with
  | nil => rfl
  | @plain c part key hc h ih =>
      rw [bytes, bytesOf_eq, ih, List.flatMap_cons]
      exact fun _ _ _ hpercent => absurd hpercent hc
  | @escaped c part key capital h ih =>
      rw [List.flatMap_cons, ← ih]
      induction String.utf8EncodeChar c with
      | nil => rfl
      | cons b bs ihs =>
          rw [List.flatMap_cons, List.append_assoc, bytes_escapedByte, ihs, List.cons_append]

/-- Bytes are read as the text whose bytes they are. -/
theorem fromUTF8?_eq_some {bytes : ByteArray} {text : String} :
    String.fromUTF8? bytes = some text ↔ bytes = text.toUTF8 := by
  by_cases hvalid : bytes.IsValidUTF8
  · rw [String.fromUTF8?, dif_pos hvalid, Option.some_inj]
    exact ⟨fun h => congrArg String.toByteArray h, fun h => String.toByteArray_inj.mp h⟩
  · rw [String.fromUTF8?, dif_neg hvalid]
    refine ⟨nofun, ?_⟩
    rintro rfl
    exact absurd text.isValidUTF8 hvalid

/-- A key is read from any part that spells it. -/
theorem decode?_of_spells {part key : String} (h : Spells part.toList key.toList) :
    decode? part = some key := by
  rw [decode?, bytes_of_spells h, fromUTF8?_eq_some]
  show _ = key.toByteArray
  rw [← String.utf8Encode_toList]
  exact ByteArray.ext (Array.toList_inj.mp (List.toList_data_toByteArray).symm)

end ExpiringCache.Http.Percent
