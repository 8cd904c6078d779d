import ExpiringCache.Proofs.Cache.Erosion
import ExpiringCache.Proofs.Cache.Notices
import ExpiringCache.Proofs.Expiry.Bucket
import ExpiringCache.Proofs.Expiry.Index

/-! # What the janitor knows

    Between two sweeps the index is out of date, but only about keys of which
    notices wait.  A cache is `Filed` up to some pending notices if every
    other key is filed under the bucket of its expiry, or in no bucket if it
    has no item, and if the last pending notice of a key tells the expiry of
    its item, should it have one.

    Every change that leaves its notice keeps to this, and working off a
    notice takes it off the pending ones.  So when the notices have been
    worked off, the index is right about every key. -/

namespace ExpiringCache.Cache

variable {K V : Type} [DecidableEq K]

/-- The index is right about every key of which no notice is pending, and the
    last notice is right about the others. -/
structure Filed (pending : List (Notice K)) (c : Cache K V) : Prop where
  sound : c.index.Sound
  settled : ∀ key, lastNotice? key pending = none →
    c.index.assigned.get? key = (c.expiry? key).map bucketOf
  told : ∀ key notice expireAt, lastNotice? key pending = some notice →
    c.expiry? key = some expireAt → expireAt = notice

theorem filed_new (capacity : Nat) (clock : Clock) :
    (new capacity clock : Cache K V).Filed (new capacity clock : Cache K V).notices.waiting where
  sound := ExpiryIndex.sound_empty
  settled := fun _ _ => rfl
  told := by
    intro key notice expireAt h
    exact nomatch h

/-! ## Between sweeps -/

namespace Filed

variable {c c' : Cache K V}

theorem noted (h : c.Filed c.notices.waiting) (hn : c.Noted c') :
    c'.Filed c'.notices.waiting := by
  obtain ⟨added, hwaiting, hexplains⟩ := hn.added
  refine ⟨?_, fun key hkey => ?_, fun key notice expireAt hkey hexpiry => ?_⟩
  · rw [hn.index]
    exact h.sound
  · rw [hwaiting, lastNotice?_append, Option.or_eq_none_iff] at hkey
    have hsame := hexplains key
    rw [hkey.1] at hsame
    have hexpiry : c'.expiry? key = c.expiry? key := hsame
    rw [hexpiry, hn.index]
    exact h.settled key hkey.2
  · have hexplain := hexplains key
    rw [hwaiting, lastNotice?_append] at hkey
    cases hadded : lastNotice? key added with
    | none =>
        rw [hadded] at hkey hexplain
        have hsame : c'.expiry? key = c.expiry? key := hexplain
        rw [hsame] at hexpiry
        exact h.told key notice expireAt hkey hexpiry
    | some told =>
        rw [hadded] at hkey hexplain
        have htold : told = notice := Option.some.inj hkey
        rcases hexplain with hgone | hsome
        · rw [hgone] at hexpiry
          exact nomatch hexpiry
        · rw [hsome] at hexpiry
          exact (Option.some.inj hexpiry).symm.trans htold

/-- Clearing leaves nothing to file and nothing that a notice could tell. -/
theorem clear (pending : List (Notice K)) (c : Cache K V) : c.clear.Filed pending where
  sound := ExpiryIndex.sound_empty
  settled := fun _ _ => rfl
  told := by
    intro key notice expireAt _ hexpiry
    exact nomatch hexpiry

/-- The index does not depend on the clock. -/
theorem clock {pending : List (Notice K)} (h : c.Filed pending) (clock : Clock) :
    Filed pending { c with clock := clock } :=
  ⟨h.sound, h.settled, h.told⟩

end Filed

/-! ## What stays -/

/-- The second cache has those items of the first that `p` keeps, and no
    others. -/
def Keeps (p : K → Item V → Prop) (c c' : Cache K V) : Prop :=
  ∀ key item, c'.store.item? key = some item ↔ c.store.item? key = some item ∧ p key item

namespace Keeps

variable {c c' c'' : Cache K V} {p q : K → Item V → Prop}

theorem trans (h : Keeps p c c') (h' : Keeps q c' c'') :
    Keeps (fun key item => p key item ∧ q key item) c c'' := by
  intro key item
  rw [h' key item, h key item, and_assoc]

theorem congr (h : Keeps p c c') (hpq : ∀ key item, p key item ↔ q key item) :
    Keeps q c c' := by
  intro key item
  rw [h key item, hpq key item]

end Keeps

/-- Only the live item of the one key stays; any other item does. -/
theorem keeps_of_live {c c' : Cache K V} {now : Int} {key : K}
    (h : ∀ k, c'.store.item? k = if key = k then c.store.live? now k else c.store.item? k) :
    Keeps (fun k item => key = k → now < item.expireAt) c c' := by
  intro k item
  rw [h k]
  split
  · rename_i hk
    rw [Store.live?_eq_some]
    exact and_congr_right fun _ => ⟨fun hlt _ => hlt, fun himp => himp hk⟩
  · rename_i hk
    exact (and_iff_left fun e => absurd e hk).symm

/-! ## Working off the notices -/

section Notices

variable {c : Cache K V} {now : Int} {notice : Notice K}

theorem item?_handleNotice (c : Cache K V) (now oldest : Int) (notice : Notice K) (k : K) :
    (c.handleNotice now oldest notice).2.store.item? k =
      if notice.key = k then c.store.live? now k else c.store.item? k := by
  cases hitem : c.store.item? notice.key with
  | none =>
      simp only [handleNotice, hitem]
      split
      · rename_i hk
        rw [← hk, Store.live?, hitem]
        rfl
      · rfl
  | some item =>
      cases hexp : item.isExpiredAt now with
      | true =>
          simp only [handleNotice, hitem, hexp, if_true]
          exact item?_collect c now notice.key k
      | false =>
          simp only [handleNotice, hitem, hexp, Bool.false_eq_true, if_false]
          split
          · rename_i hk
            rw [← hk, Store.live?, hitem]
            simp [Option.filter, hexp]
          · rfl

/-- A key without a live item is taken out of the index. -/
theorem index_handleNotice_of_dead (oldest : Int)
    (h : c.store.live? now notice.key = none) :
    (c.handleNotice now oldest notice).2.index = c.index.unindex notice.key := by
  cases hitem : c.store.item? notice.key with
  | none => simp only [handleNotice, hitem]
  | some item =>
      have hexp : item.isExpiredAt now = true := by
        rw [Store.live?, hitem, Option.filter_eq_none_iff] at h
        simpa using h item rfl
      simp only [handleNotice, hitem, hexp, if_true, index_collect]

/-- A live key is filed, under the bucket that the notice tells unless that
    is too old. -/
theorem index_handleNotice_of_live (oldest : Int) {item : Item V}
    (h : c.store.live? now notice.key = some item) :
    (c.handleNotice now oldest notice).2.index =
      (c.index.reindex notice.key
        (if bucketOf notice.expireAt < oldest then bucketOf item.expireAt
          else bucketOf notice.expireAt)).2 := by
  obtain ⟨hitem, hlive⟩ := Store.live?_eq_some.mp h
  have hexp : item.isExpiredAt now = false := by
    simpa [Item.isExpiredAt] using hlive
  simp only [handleNotice, hitem, hexp, Bool.false_eq_true, if_false]

/-- The oldest bucket of a sweep is a proper one. -/
theorem oldestBucket_pos (h : earliestSweep ≤ now) : noBucket < oldestBucket now := by
  have hmono := bucketOf_mono h
  have hearliest : bucketOf earliestSweep = 11000 := by decide
  rw [hearliest] at hmono
  show 0 < bucketOf now - 5 * 1000
  omega

/-- A notice is worked off when its key is settled, unless another notice of
    it is pending, and nothing has happened to the other keys. -/
theorem Filed.worked {c' : Cache K V} {rest : List (Notice K)} (h : c.Filed (notice :: rest))
    (hsound : c'.index.Sound)
    (hother : ∀ key, notice.key ≠ key →
      c'.index.assigned.get? key = c.index.assigned.get? key ∧ c'.expiry? key = c.expiry? key)
    (hkept : ∀ expireAt, c'.expiry? notice.key = some expireAt →
      c.expiry? notice.key = some expireAt)
    (hsettled : lastNotice? notice.key rest = none →
      c'.index.assigned.get? notice.key = (c'.expiry? notice.key).map bucketOf) :
    c'.Filed rest := by
  refine ⟨hsound, fun key hkey => ?_, fun key told expireAt hkey hexp => ?_⟩
  · by_cases hk : notice.key = key
    · rw [← hk] at hkey ⊢
      exact hsettled hkey
    · rw [(hother key hk).1, (hother key hk).2]
      exact h.settled key ((lastNotice?_cons_ne hk rest).trans hkey)
  · by_cases hk : notice.key = key
    · rw [← hk] at hkey hexp
      exact h.told notice.key told expireAt (lastNotice?_cons_of_some hkey) (hkept expireAt hexp)
    · rw [(hother key hk).2] at hexp
      exact h.told key told expireAt ((lastNotice?_cons_ne hk rest).trans hkey) hexp

/-- A key without a live item is settled by taking it out of the index. -/
theorem Filed.handleNotice_of_dead {rest : List (Notice K)} (h : c.Filed (notice :: rest))
    (hdead : c.store.live? now notice.key = none) :
    Filed rest (c.handleNotice now (oldestBucket now) notice).2 := by
  have hexpiry : ∀ key, (c.handleNotice now (oldestBucket now) notice).2.expiry? key =
      if notice.key = key then none else c.expiry? key := by
    intro key
    rw [expiry?, item?_handleNotice]
    split
    · rename_i hk
      rw [← hk, hdead]
      rfl
    · rfl
  have hindex := index_handleNotice_of_dead (oldestBucket now) hdead
  refine h.worked ?_ (fun key hk => ⟨?_, ?_⟩) (fun expireAt hexp => ?_) fun _ => ?_
  · rw [hindex]
    exact h.sound.unindex notice.key
  · rw [hindex, ExpiryIndex.assigned_unindex, if_neg hk]
  · rw [hexpiry, if_neg hk]
  · rw [hexpiry, if_pos rfl] at hexp
    cases hexp
  · rw [hindex, ExpiryIndex.assigned_unindex, hexpiry, if_pos rfl, if_pos rfl]
    rfl

/-- A live key is settled by filing it: the last notice of it tells its
    expiry. -/
theorem Filed.handleNotice_of_live {rest : List (Notice K)} {item : Item V}
    (h : c.Filed (notice :: rest)) (hnow : earliestSweep ≤ now)
    (hlive : c.store.live? now notice.key = some item) :
    Filed rest (c.handleNotice now (oldestBucket now) notice).2 := by
  obtain ⟨hitem, hafter⟩ := Store.live?_eq_some.mp hlive
  have hown := expiry?_eq_some hitem
  have hexpiry : ∀ key, (c.handleNotice now (oldestBucket now) notice).2.expiry? key =
      c.expiry? key := by
    intro key
    rw [expiry?, item?_handleNotice]
    split
    · rename_i hk
      rw [← hk, hlive, hown]
      rfl
    · rfl
  have hbucket : (if bucketOf notice.expireAt < oldestBucket now then
      bucketOf item.expireAt else bucketOf notice.expireAt) ≠ noBucket := by
    split
    · refine bucketOf_ne_noBucket ?_
      rw [earliestSweep] at hnow
      omega
    · have hpos := oldestBucket_pos hnow
      omega
  have hindex := index_handleNotice_of_live (oldestBucket now) hlive
  refine h.worked ?_ (fun key hk => ⟨?_, hexpiry key⟩)
    (fun expireAt hexp => (hexpiry notice.key).symm.trans hexp) fun hlast => ?_
  · rw [hindex]
    exact h.sound.reindex hbucket notice.key
  · rw [hindex, ExpiryIndex.assigned_reindex _ hbucket, if_neg hk]
  · -- this was the last notice of the key, so both buckets are that of its expiry
    rw [hindex, ExpiryIndex.assigned_reindex _ hbucket, if_pos rfl, hexpiry, hown,
      ← h.told notice.key _ _ (lastNotice?_cons_of_none hlast) hown, ite_self]
    rfl

/-- Working off a notice settles its key, unless another notice of it is
    pending. -/
theorem Filed.handleNotice {rest : List (Notice K)} (h : c.Filed (notice :: rest))
    (hnow : earliestSweep ≤ now) :
    Filed rest (c.handleNotice now (oldestBucket now) notice).2 := by
  cases hlive : c.store.live? now notice.key with
  | none => exact h.handleNotice_of_dead hlive
  | some item => exact h.handleNotice_of_live hnow hlive

/-- Working off all notices settles every key, and of the keys with a notice
    only live items stay. -/
theorem filed_tally_handleNotice {c : Cache K V} (hnow : earliestSweep ≤ now)
    {pending : List (Notice K)} (h : c.Filed pending) :
    Filed []
        (tally (fun c notice => c.handleNotice now (oldestBucket now) notice) pending c).2 ∧
      Keeps (fun key item => (lastNotice? key pending).isSome = true → now < item.expireAt) c
        (tally (fun c notice => c.handleNotice now (oldestBucket now) notice) pending c).2 := by
  induction pending generalizing c with
  | nil =>
      refine ⟨h, fun key item => ?_⟩
      exact (and_iff_left fun hsome => nomatch hsome).symm
  | cons notice rest ih =>
      obtain ⟨hfiled, hkeeps⟩ := ih (h.handleNotice hnow)
      have hfirst := keeps_of_live (item?_handleNotice c now (oldestBucket now) notice)
      refine ⟨hfiled, (hfirst.trans hkeeps).congr fun key item => ?_⟩
      show _ ↔ ((lastNotice? key rest).or
        (if notice.key = key then some notice.expireAt else none)).isSome = true → _
      rw [Option.isSome_or, Bool.or_eq_true]
      constructor
      · rintro ⟨hown, hrest⟩ (hsome | hsome)
        · exact hrest hsome
        · refine hown ?_
          by_cases hk : notice.key = key
          · exact hk
          · rw [if_neg hk] at hsome
            exact nomatch hsome
      · intro hlive
        refine ⟨fun hk => hlive (Or.inr ?_), fun hsome => hlive (Or.inl hsome)⟩
        rw [if_pos hk]
        rfl

/-- In the middle of a sweep the index is right about every key. -/
theorem filed_noticed {c : Cache K V} (hnow : earliestSweep ≤ now)
    (h : c.Filed c.notices.waiting) :
    Filed [] (c.noticed now) ∧
      Keeps (fun key item => (lastNotice? key c.notices.waiting).isSome = true →
        now < item.expireAt) c (c.noticed now) :=
  filed_tally_handleNotice (c := { c with notices := .empty }) hnow
    ⟨h.sound, h.settled, h.told⟩

end Notices

end ExpiringCache.Cache
