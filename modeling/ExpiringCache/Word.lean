/-! # The limits of a 64-bit word

    Instants, bucket labels and spans are whole numbers that fit a signed
    64-bit word.  They are kept as integers here, and the few operations
    that could leave the range stop at its ends: `add` and `mul` answer the
    exact result whenever a word holds it, and the nearest end otherwise. -/

namespace ExpiringCache.Word

/-- The least signed 64-bit number. -/
def least : Int := -9223372036854775808

/-- The greatest signed 64-bit number. -/
def greatest : Int := 9223372036854775807

/-- The greatest unsigned 64-bit number. -/
def greatestUnsigned : Nat := 18446744073709551615

/-- A number that a signed word can hold. -/
def Fits (i : Int) : Prop := least ≤ i ∧ i ≤ greatest

instance (i : Int) : Decidable (Fits i) :=
  inferInstanceAs (Decidable (least ≤ i ∧ i ≤ greatest))

/-- The number nearest to `i` that a word can hold. -/
def clamp (i : Int) : Int :=
  if i < least then least else if greatest < i then greatest else i

/-- Addition that stops at the ends of the range. -/
def add (a b : Int) : Int := clamp (a + b)

/-- Multiplication that stops at the ends of the range. -/
def mul (a b : Int) : Int := clamp (a * b)

/-! ## What clamping does -/

/-- What has been cut to the range is in range. -/
theorem fits_clamp (i : Int) : Fits (clamp i) := by
  unfold Fits clamp least greatest
  split
  · decide
  · split
    · decide
    · omega

/-- What is in range is not cut. -/
theorem clamp_of_fits {i : Int} (h : Fits i) : clamp i = i := by
  unfold Fits at h
  unfold clamp
  rw [if_neg (by omega), if_neg (by omega)]

theorem clamp_of_greatest_lt {i : Int} (h : greatest < i) : clamp i = greatest := by
  rw [clamp, if_neg (by rw [greatest] at h; rw [least]; omega), if_pos h]

/-- Cutting to the range keeps the order. -/
theorem clamp_mono {i j : Int} (h : i ≤ j) : clamp i ≤ clamp j := by
  unfold clamp least greatest
  split <;> split <;> (try split) <;> (try split) <;> omega

end ExpiringCache.Word
