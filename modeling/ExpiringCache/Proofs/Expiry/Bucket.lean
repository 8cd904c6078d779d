import ExpiringCache.Expiry.Bucket

/-! # Labels of buckets

    A sweep finds an expired key through its bucket, so what it finds
    depends on how the labels of two instants lie to each other.  Labels keep
    the order of the instants.  A label is the instant rounded up to whole
    seconds, plus one second, or the end of the word range if that lies
    beyond it; that the steps on the way stop at the ends as well does not
    show. -/

namespace ExpiringCache

/-- From this time on, all buckets that a sweep visits have labels above
    `noBucket`. -/
def earliestSweep : Int := 10000

theorem bucketOf_mono {i j : Int} (h : i ≤ j) : bucketOf i ≤ bucketOf j := by
  have hadd : Word.add i (bucketWidth - 1) ≤ Word.add j (bucketWidth - 1) :=
    Word.clamp_mono (by omega)
  have hdiv := Int.ediv_le_ediv (show 0 < bucketWidth by decide) hadd
  have hlabel : Word.add ((Word.add i (bucketWidth - 1)).ediv bucketWidth) 1 ≤
      Word.add ((Word.add j (bucketWidth - 1)).ediv bucketWidth) 1 :=
    Word.clamp_mono (Int.add_le_add_right hdiv 1)
  exact Word.clamp_mono (Int.mul_le_mul_of_nonneg_right hlabel (by decide))

/-- The label of any word. -/
theorem bucketOf_eq_clamp {i : Int} (h : Word.Fits i) :
    bucketOf i = Word.clamp (((i + 999) / 1000 + 1) * 1000) := by
  obtain ⟨hlow, hhigh⟩ := h
  rw [Word.least] at hlow
  rw [Word.greatest] at hhigh
  show Word.mul (Word.add (Word.add i 999 / 1000) 1) 1000 = _
  by_cases hsum : i + 999 ≤ 9223372036854775807
  · -- only the product may leave the range
    have hadd : Word.add i 999 = i + 999 :=
      Word.clamp_of_fits (by simp only [Word.Fits, Word.least, Word.greatest]; omega)
    have hnext : Word.add ((i + 999) / 1000) 1 = (i + 999) / 1000 + 1 :=
      Word.clamp_of_fits (by simp only [Word.Fits, Word.least, Word.greatest]; omega)
    rw [hadd, hnext]
    rfl
  · -- the sum loses less than a second, and the product is beyond the range either way
    have hadd : Word.add i 999 = Word.greatest :=
      Word.clamp_of_greatest_lt (by rw [Word.greatest]; omega)
    have hend : Word.mul (Word.add (Word.greatest / 1000) 1) 1000 = Word.greatest := by decide
    rw [hadd, hend, Word.clamp_of_greatest_lt (by rw [Word.greatest]; omega)]

/-- The label of an instant that is far from the ends of the word range. -/
theorem bucketOf_eq {i : Int} (hlow : 0 ≤ i) (hhigh : i ≤ 9000000000000000000) :
    bucketOf i = ((i + 999) / 1000 + 1) * 1000 := by
  rw [bucketOf_eq_clamp, Word.clamp_of_fits]
  · simp only [Word.Fits, Word.least, Word.greatest]
    omega
  · simp only [Word.Fits, Word.least, Word.greatest]
    omega

/-- An instant after the first second has a proper bucket. -/
theorem bucketOf_ne_noBucket {i : Int} (h : 0 ≤ i) : bucketOf i ≠ noBucket := by
  have hmono := bucketOf_mono h
  have hzero : bucketOf 0 = 1000 := by decide
  rw [hzero] at hmono
  intro e
  rw [e] at hmono
  exact absurd hmono (by decide)

/-- What is in a bucket before that of the present is expired. -/
theorem le_of_bucketOf_lt {i now : Int} (h : bucketOf i < bucketOf now) : i ≤ now := by
  by_cases hle : i ≤ now
  · exact hle
  · exact absurd (bucketOf_mono (show now ≤ i by omega)) (by omega)

end ExpiringCache
