import ExpiringCache.Proofs.Checked.Sweep
import Mathlib.Data.Rat.Floor

/-! # Labels are rounded instants

    The label of a bucket is computed in words, in steps that stop at the
    ends of the range.  What comes out is as simple as if it were computed
    in fractions without a limit: the instant in seconds, rounded up, and one
    second more; and then the number nearest to this that a word can hold.

    So a sweep, while the clock is short of `never`, visits the buckets of
    those instants whose rounded seconds are one to five before its own.  All
    of them have expired, and what expired at least one second and at most
    five seconds ago is among them, wherever in their seconds the instants
    lie. -/

namespace ExpiringCache

/-- The label of the bucket of an instant, if no limit were set to it. -/
def roundedLabel (instant : Int) : Int := (⌈(instant : ℚ) / 1000⌉ + 1) * 1000

theorem roundedLabel_eq (instant : Int) :
    roundedLabel instant = ((instant + 999) / 1000 + 1) * 1000 := by
  have hceil : ⌈(instant : ℚ) / 1000⌉ = (instant + 999) / 1000 := by
    have hdiv := Rat.ceil_intCast_div_natCast instant 1000
    rw [Nat.cast_ofNat, Nat.cast_ofNat] at hdiv
    rw [hdiv]
    omega
  rw [roundedLabel, hceil]

theorem bucketOf_eq_roundedLabel {instant : Int} (h : Word.Fits instant) :
    bucketOf instant = Word.clamp (roundedLabel instant) := by
  rw [bucketOf_eq_clamp h, roundedLabel_eq]

/-- While the clock is short of `never`, a sweep visits the buckets with the
    five labels before that of the present, and no limit shows in them. -/
theorem mem_window_iff {now instant : Int} (hinstant : Word.Fits instant) (hnow : 0 ≤ now)
    (hnever : now ≤ never) :
    bucketOf instant ∈ Cache.window now ↔
      roundedLabel now - 5000 ≤ roundedLabel instant ∧
        roundedLabel instant ≤ roundedLabel now - 1000 := by
  rw [never] at hnever
  obtain ⟨hlow, hhigh⟩ := hinstant
  rw [Word.least] at hlow
  rw [Word.greatest] at hhigh
  rw [Cache.mem_window, bucketOf_eq hnow (by omega), bucketOf_eq_clamp ⟨hlow, hhigh⟩,
    roundedLabel_eq, roundedLabel_eq]
  unfold Word.clamp Word.least Word.greatest
  split
  · omega
  · split
    · omega
    · omega

/-- What expired in the last five seconds, but not in the very last one, is
    in a bucket that a sweep visits. -/
theorem mem_window_of_elapsed {now instant : Int} (hinstant : Word.Fits instant) (hnow : 0 ≤ now)
    (hnever : now ≤ never) (hfrom : 1000 ≤ now - instant) (hto : now - instant ≤ 5000) :
    bucketOf instant ∈ Cache.window now := by
  rw [mem_window_iff hinstant hnow hnever, roundedLabel_eq, roundedLabel_eq]
  omega

variable {V : Type}

/-- The label of any instant that a word can hold is its rounded label, or
    the end of the range if that lies beyond it; no step overflows, and later
    instants have no lesser labels.  A sweep that is not before the epoch
    comes to the labels that it visits without overflow, and what has one of
    them is expired.  If the time is not after `never`, what expired at least
    one second and at most five seconds ago has one of them. -/
theorem bucketOf_rounds_up {e : Int} (he : Word.Fits e) :
    bucketOf e = Word.clamp (roundedLabel e) ∧
      checkedBucketOf e = some (bucketOf e) ∧
      (∀ later, e ≤ later → bucketOf e ≤ bucketOf later) ∧
      ∀ now, 0 ≤ now →
        (∀ offset ∈ Cache.scanOffsets,
          Word.checked (bucketOf now - offset * bucketWidth) =
              some (bucketOf now - offset * bucketWidth) ∧
            (bucketOf e = bucketOf now - offset * bucketWidth →
              ∀ item : Item V, item.expireAt = e → item.isExpiredAt now = true)) ∧
        (now ≤ never → 1000 ≤ now - e → now - e ≤ 5000 →
          ∃ offset ∈ Cache.scanOffsets, bucketOf e = bucketOf now - offset * bucketWidth) := by
  refine ⟨bucketOf_eq_roundedLabel he, checkedBucketOf_eq e, ?_, ?_⟩
  · intro later hle
    exact bucketOf_mono hle
  · intro now hnow
    constructor
    · intro offset hoffset
      obtain ⟨hlow, hhigh⟩ := scanOffsets_bounds hoffset
      refine ⟨(checked_label hnow hlow hhigh).2, ?_⟩
      intro hlabel item hitem
      have hwindow : bucketOf e ∈ Cache.window now :=
        List.mem_map.mpr ⟨offset, hoffset, hlabel.symm⟩
      rw [Item.isExpiredAt, hitem]
      exact decide_eq_true (Cache.le_of_mem_window hwindow)
    · intro hnever hfrom hto
      obtain ⟨offset, hoffset, hlabel⟩ :=
        List.mem_map.mp (mem_window_of_elapsed he hnow hnever hfrom hto)
      exact ⟨offset, hoffset, hlabel.symm⟩

/-- The last instant of the range, whose rounded label no word can hold; and
    at the last time before `never` is over, an item that expired just five
    seconds ago. -/
theorem bucketOf_rounds_up_at_ends :
    (Word.Fits Word.greatest ∧ bucketOf Word.greatest = Word.clamp (roundedLabel Word.greatest) ∧
        bucketOf Word.greatest < roundedLabel Word.greatest) ∧
      Word.Fits (never - 5000) ∧ 0 ≤ never ∧ never ≤ never ∧
        1000 ≤ never - (never - 5000) ∧ never - (never - 5000) ≤ 5000 ∧
        (∃ offset ∈ Cache.scanOffsets,
          bucketOf (never - 5000) = bucketOf never - offset * bucketWidth) ∧
        (Item.mk 7 (never - 5000)).isExpiredAt never = true := by
  have hlast : Word.Fits Word.greatest := by decide
  have hinstant : Word.Fits (never - 5000) := by decide
  obtain ⟨hlabel, -⟩ := bucketOf_rounds_up (V := Nat) hlast
  obtain ⟨-, -, -, hnow⟩ := bucketOf_rounds_up (V := Nat) hinstant
  obtain ⟨hexpired, hscanned⟩ := hnow never (by decide)
  obtain ⟨offset, hoffset, heq⟩ := hscanned (by decide) (by decide) (by decide)
  refine ⟨⟨hlast, hlabel, ?_⟩, hinstant, by decide, by decide, by decide, by decide,
    ⟨offset, hoffset, heq⟩, (hexpired offset hoffset).2 heq _ rfl⟩
  rw [roundedLabel_eq]
  decide

end ExpiringCache
