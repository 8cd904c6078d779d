import ExpiringCache.Word

/-! # Expiry buckets

    Keys are grouped by the second in which they expire.  The bucket of an
    instant is labelled with the end of its second, plus one second more, so
    that all of a bucket has expired once the clock has reached its label.
    Labels stop at the ends of the word range. -/

namespace ExpiringCache

/-- The width of a bucket in milliseconds. -/
def bucketWidth : Int := 1000

/-- The number of elapsed buckets that a sweep visits. -/
def scanWindow : Nat := 5

/-- The label that stands for "in no bucket". -/
def noBucket : Int := 0

/-- The label of the bucket of an instant. -/
def bucketOf (instant : Int) : Int :=
  Word.mul (Word.add ((Word.add instant (bucketWidth - 1)).ediv bucketWidth) 1) bucketWidth

end ExpiringCache
