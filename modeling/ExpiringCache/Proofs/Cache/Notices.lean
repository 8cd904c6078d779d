import ExpiringCache.Proofs.Cache.Effects

/-! # Every change leaves a notice

    The janitor learns of a change only by the notice that it leaves.  Two
    things make this enough.  A key of which no notice was left has not
    changed its expiry; and if notices of a key were left, it either has no
    item any more or the last of them tells its expiry.  This is what
    `Noted` says of two caches, and every part of every call keeps to it,
    except that clearing a cache leaves no notices at all. -/

namespace ExpiringCache

variable {K V : Type}

/-- What became of an expiry, if the last notice since then, or the lack of
    one, is known. -/
def Explains (before notice after : Option Int) : Prop :=
  match notice with
  | none => after = before
  | some expireAt => after = none ∨ after = some expireAt

theorem Explains.trans {before notice between notice' after : Option Int}
    (h : Explains before notice between) (h' : Explains between notice' after) :
    Explains before (notice'.or notice) after := by
  cases notice' with
  | some expireAt => exact h'
  | none =>
      have hsame : after = between := h'
      rw [hsame]
      exact h

variable [DecidableEq K]

/-- The instant that the last notice of `key` tells. -/
def lastNotice? (key : K) : List (Notice K) → Option Int
  | [] => none
  | notice :: rest =>
      (lastNotice? key rest).or (if notice.key = key then some notice.expireAt else none)

/-- The first notice counts only if no later one is of its key. -/
theorem lastNotice?_cons_of_none {notice : Notice K} {rest : List (Notice K)}
    (h : lastNotice? notice.key rest = none) :
    lastNotice? notice.key (notice :: rest) = some notice.expireAt := by
  rw [lastNotice?, h, if_pos rfl]
  rfl

theorem lastNotice?_cons_of_some {notice : Notice K} {rest : List (Notice K)} {key : K}
    {told : Int} (h : lastNotice? key rest = some told) :
    lastNotice? key (notice :: rest) = some told := by
  rw [lastNotice?, h]
  rfl

theorem lastNotice?_cons_ne {notice : Notice K} {key : K} (h : notice.key ≠ key)
    (rest : List (Notice K)) : lastNotice? key (notice :: rest) = lastNotice? key rest := by
  rw [lastNotice?, if_neg h, Option.or_none]

theorem lastNotice?_append (key : K) (notices more : List (Notice K)) :
    lastNotice? key (notices ++ more) = (lastNotice? key more).or (lastNotice? key notices) := by
  induction notices with
  | nil =>
      show lastNotice? key more = (lastNotice? key more).or none
      rw [Option.or_none]
  | cons notice rest ih =>
      show (lastNotice? key (rest ++ more)).or _ = _
      rw [ih, Option.or_assoc]
      rfl

theorem lastNotice?_singleton (key k : K) (expireAt : Int) :
    lastNotice? k [⟨key, expireAt⟩] = if key = k then some expireAt else none := rfl

theorem lastNotice?_map (key : K) (keys : List K) (expireAt : Int) :
    lastNotice? key (keys.map fun k => ⟨k, expireAt⟩) =
      if key ∈ keys then some expireAt else none := by
  induction keys with
  | nil => rfl
  | cons k rest ih =>
      show (lastNotice? key (rest.map _)).or (if k = key then some expireAt else none) = _
      rw [ih]
      by_cases hr : key ∈ rest
      · rw [if_pos hr, if_pos (List.mem_cons_of_mem _ hr)]
        rfl
      · rw [if_neg hr]
        by_cases hk : k = key
        · rw [if_pos hk, if_pos (List.mem_cons.mpr (Or.inl hk.symm))]
          rfl
        · rw [if_neg hk, if_neg]
          · rfl
          · rw [List.mem_cons, not_or]
            exact ⟨fun e => hk e.symm, hr⟩

namespace Cache

/-- The expiry of `key`, live or expired. -/
def expiry? (c : Cache K V) (key : K) : Option Int := (c.store.item? key).map Item.expireAt

theorem expiry?_eq_some {c : Cache K V} {key : K} {item : Item V}
    (h : c.store.item? key = some item) : c.expiry? key = some item.expireAt :=
  congrArg (Option.map Item.expireAt) h

/-- No item expires after `never`. -/
def Bounded (c : Cache K V) : Prop := ∀ key expireAt, c.expiry? key = some expireAt →
  expireAt ≤ never

/-- The second cache comes from the first by changes that left their
    notices. -/
structure Noted (c c' : Cache K V) : Prop where
  index : c'.index = c.index
  now : c'.now = c.now
  added : ∃ notices, c'.notices.waiting = c.notices.waiting ++ notices ∧
    ∀ key, Explains (c.expiry? key) (lastNotice? key notices) (c'.expiry? key)
  bounded : c.Bounded → c'.Bounded

namespace Noted

variable {c c' c'' : Cache K V}

/-- Where no expiry changed, no notice is needed. -/
theorem same (hindex : c'.index = c.index) (hnow : c'.now = c.now)
    (hnotices : c'.notices = c.notices) (hexpiry : ∀ key, c'.expiry? key = c.expiry? key) :
    c.Noted c' where
  index := hindex
  now := hnow
  added := by
    refine ⟨[], ?_, hexpiry⟩
    rw [hnotices, List.append_nil]
  bounded := by
    intro h key expireAt hkey
    rw [hexpiry] at hkey
    exact h key expireAt hkey

theorem refl (c : Cache K V) : c.Noted c := same rfl rfl rfl fun _ => rfl

theorem trans (h : c.Noted c') (h' : c'.Noted c'') : c.Noted c'' where
  index := h'.index.trans h.index
  now := h'.now.trans h.now
  added := by
    obtain ⟨notices, hwaiting, hexplains⟩ := h.added
    obtain ⟨more, hwaiting', hexplains'⟩ := h'.added
    refine ⟨notices ++ more, ?_, fun key => ?_⟩
    · rw [hwaiting', hwaiting, List.append_assoc]
    · rw [lastNotice?_append]
      exact (hexplains key).trans (hexplains' key)
  bounded := fun hb => h'.bounded (h.bounded hb)

end Noted

/-! ## The operations that change expiries -/

/-- A key gets an item, and a notice tells when it expires. -/
theorem noted_set (c : Cache K V) (key : K) (item : Item V) (h : item.expireAt ≤ never) :
    c.Noted
      { c with
        store := c.store.set key item
        notices := c.notices.push key item.expireAt } where
  index := rfl
  now := rfl
  added := by
    refine ⟨[⟨key, item.expireAt⟩], rfl, fun k => ?_⟩
    show Explains _ _ (((c.store.set key item).item? k).map Item.expireAt)
    rw [Store.item?_set, lastNotice?_singleton]
    by_cases hk : key = k
    · rw [if_pos hk, if_pos hk]
      exact Or.inr rfl
    · rw [if_neg hk, if_neg hk]
      rfl
  bounded := by
    intro hb k expireAt hkey
    have hkey' : ((c.store.set key item).item? k).map Item.expireAt = some expireAt := hkey
    rw [Store.item?_set] at hkey'
    split at hkey'
    · cases hkey'
      exact h
    · exact hb k expireAt hkey'

/-- Keys without an item are not bound to expire at any time. -/
theorem bounded_of_deleted {c c' : Cache K V} {p : K → Prop} [DecidablePred p]
    (h : ∀ key, c'.store.item? key = if p key then none else c.store.item? key)
    (hb : c.Bounded) : c'.Bounded := by
  intro key expireAt hkey
  rw [expiry?, h] at hkey
  split at hkey
  · cases hkey
  · exact hb key expireAt hkey

/-- What falls off when a key is used leaves notices. -/
theorem noted_touch (c : Cache K V) (key : K) : c.Noted (c.touch key) where
  index := index_touch c key
  now := now_touch c key
  added := by
    refine ⟨_, waiting_touch c key, fun k => ?_⟩
    rw [lastNotice?_map, expiry?, expiry?, item?_touch]
    by_cases hk : k ∈ c.evicts key
    · rw [if_pos hk, if_pos hk]
      exact Or.inl rfl
    · rw [if_neg hk, if_neg hk]
      rfl
  bounded := bounded_of_deleted (item?_touch c key)

/-- Removed keys that were there leave notices; for a key that was not there,
    nothing has changed. -/
theorem noted_remove (c : Cache K V) (keys : List K) : c.Noted (c.remove keys).2 where
  index := index_remove c keys
  now := now_remove c keys
  added := by
    refine ⟨_, waiting_remove c keys, fun k => ?_⟩
    rw [lastNotice?_map, expiry?, expiry?, item?_remove]
    by_cases hk : k ∈ keys
    · rw [if_pos hk]
      cases hitem : c.store.item? k with
      | none =>
          rw [if_neg fun hd => by rw [mem_deletes, hitem] at hd; exact nomatch hd.2]
          rfl
      | some item =>
          rw [if_pos (mem_deletes.mpr ⟨hk, by rw [hitem]; rfl⟩)]
          exact Or.inl rfl
    · rw [if_neg hk, if_neg fun hd => hk (mem_deletes.mp hd).1]
      rfl
  bounded := bounded_of_deleted (item?_remove c keys)

end Cache

end ExpiringCache
