import ExpiringCache.Proofs.Order.Basic

/-! # Two orders of use under different capacities

    What calls do to the keys of a cache, coldest first, if no entry ever
    expires: a key is recalled or stored and moves to the hot end, or keys
    are dropped.  A key that is only looked for moves if it is there, which
    may be the case under one capacity and not under another.

    Still, all keys that there are under a capacity are there under a greater
    one, in the same order.  To see this, one has to know besides that the
    greater capacity is not used up by other keys: the list under the greater
    capacity is longer by no more than the difference of the capacities.
    Then whatever falls off there would have fallen off here as well. -/

namespace ExpiringCache

variable {K : Type}

namespace Recency

/-! ## The relation -/

/-- There is as much room under the second capacity as under the first; 0
    stands for any number. -/
def Roomier (capacity capacity' : Nat) : Prop :=
  capacity' = 0 ∨ capacity ≠ 0 ∧ capacity ≤ capacity'

/-- The first list is part of the second, which fits its capacity, and the
    lists differ in length by no more than the capacities. -/
structure Within (capacity capacity' : Nat) (ks ks' : List K) : Prop where
  roomier : Roomier capacity capacity'
  sublist : ks.Sublist ks'
  room' : capacity' ≠ 0 → ks'.length ≤ capacity'
  slack : capacity' ≠ 0 → ks'.length + capacity ≤ ks.length + capacity'

/-- What is taken out of a list is taken out of a longer one, too. -/
theorem length_filter_slack {ks ks' : List K} (h : ks.Sublist ks') (p : K → Bool) :
    (ks'.filter p).length + ks.length ≤ ks'.length + (ks.filter p).length := by
  have hout : (ks.filter fun k => !p k).length ≤ (ks'.filter fun k => !p k).length :=
    (h.filter fun k => !p k).length_le
  have hks := List.length_eq_length_filter_add (l := ks) p
  have hks' := List.length_eq_length_filter_add (l := ks') p
  omega

namespace Within

variable {capacity capacity' : Nat} {ks ks' : List K}

theorem nil (h : Roomier capacity capacity') : Within capacity capacity' ([] : List K) [] where
  roomier := h
  sublist := List.Sublist.refl []
  room' := fun _ => Nat.zero_le _
  slack := by
    intro hcap
    rcases h with hzero | ⟨-, hle⟩
    · exact absurd hzero hcap
    · simpa using hle

theorem filter (h : Within capacity capacity' ks ks') (p : K → Bool) :
    Within capacity capacity' (ks.filter p) (ks'.filter p) where
  roomier := h.roomier
  sublist := h.sublist.filter p
  room' := fun hcap => Nat.le_trans (List.length_filter_le p ks') (h.room' hcap)
  slack := by
    intro hcap
    have hslack := h.slack hcap
    have hfiltered := length_filter_slack h.sublist p
    omega

/-- What is too much under the greater capacity is too much under the
    other. -/
theorem surplus_le (h : Within capacity capacity' ks ks') :
    surplus capacity' (ks'.length + 1) ≤ surplus capacity (ks.length + 1) := by
  by_cases hcap' : capacity' = 0
  · simp [surplus, hcap']
  · rcases h.roomier with hzero | ⟨hcap, -⟩
    · exact absurd hzero hcap'
    · have hslack := h.slack hcap'
      rw [surplus_of_ne hcap, surplus_of_ne hcap']
      omega

end Within

/-! ## Keys that are used, looked for or dropped -/

variable [DecidableEq K]

/-- The keys after `key` was looked for, and stored if it `stores`: it is
    used if it is there in the end. -/
def recalled (capacity : Nat) (key : K) (stores : Bool) (ks : List K) : List K :=
  if key ∈ ks ∨ stores = true then used capacity key ks else ks

/-- What is left when some keys are dropped. -/
def kept (dropped ks : List K) : List K := ks.filter fun k => !decide (k ∈ dropped)

theorem kept_of_not_mem {key : K} {ks : List K} (h : key ∉ ks) : kept [key] ks = ks := by
  refine List.filter_eq_self.mpr fun k hk => ?_
  simpa using ne_of_mem_of_not_mem hk h

namespace Within

variable {capacity capacity' : Nat} {ks ks' : List K}

/-- A key that is used under both capacities. -/
theorem used (h : Within capacity capacity' ks ks') (key : K) :
    Within capacity capacity' (Recency.used capacity key ks)
      (Recency.used capacity' key ks') := by
  have hothers : Within capacity capacity' (others key ks) (others key ks') := h.filter _
  have hfalls := hothers.surplus_le
  refine ⟨h.roomier, ?_, fun hcap' => length_used_le hcap' key ks', fun hcap' => ?_⟩
  · have hhot : (others key ks ++ [key]).Sublist (others key ks' ++ [key]) :=
      hothers.sublist.append (List.Sublist.refl [key])
    exact (hhot.drop _).trans (List.drop_sublist_drop_left _ hfalls)
  · rcases h.roomier with hzero | ⟨hcap, hle⟩
    · exact absurd hzero hcap'
    · have hslack := hothers.slack hcap'
      rw [Recency.used, Recency.used, surplus_of_ne hcap, surplus_of_ne hcap',
        List.length_drop, List.length_drop, List.length_append, List.length_append,
        List.length_singleton]
      omega

/-- A key that is there only under the greater capacity moves among keys
    that are not there under the other; nothing falls off. -/
theorem used_right (h : Within capacity capacity' ks ks') {key : K} (hkey : key ∉ ks)
    (hkey' : key ∈ ks') (hnodup' : ks'.Nodup) :
    Within capacity capacity' ks (Recency.used capacity' key ks') := by
  have hlength : (others key ks').length + 1 = ks'.length := by
    obtain ⟨pre, post, rfl⟩ := List.append_of_mem hkey'
    rw [others_split hnodup']
    simp only [List.length_append, List.length_cons]
    omega
  have hfits : surplus capacity' ((others key ks').length + 1) = 0 := by
    by_cases hcap' : capacity' = 0
    · simp [surplus, hcap']
    · have hroom' := h.room' hcap'
      rw [surplus_of_ne hcap']
      omega
  have hused : Recency.used capacity' key ks' = others key ks' ++ [key] := by
    rw [Recency.used, hfits, List.drop_zero]
  have hsame : (others key ks' ++ [key]).length = ks'.length := by
    rw [List.length_append, List.length_singleton, hlength]
  have hothers : ks.Sublist (others key ks') := by
    rw [← others_eq_self hkey]
    exact h.sublist.filter _
  rw [hused]
  exact ⟨h.roomier, hothers.trans (List.sublist_append_left _ _),
    fun hcap' => hsame ▸ h.room' hcap', fun hcap' => hsame ▸ h.slack hcap'⟩

/-- A key that is looked for under both capacities. -/
theorem recalled (h : Within capacity capacity' ks ks') (hnodup' : ks'.Nodup) (key : K)
    (stores : Bool) :
    Within capacity capacity' (Recency.recalled capacity key stores ks)
      (Recency.recalled capacity' key stores ks') := by
  rw [Recency.recalled, Recency.recalled]
  by_cases hused : key ∈ ks ∨ stores = true
  · have hused' : key ∈ ks' ∨ stores = true := hused.imp_left fun hkey => h.sublist.subset hkey
    rw [if_pos hused, if_pos hused']
    exact h.used key
  · rw [not_or] at hused
    rw [if_neg (not_or.mpr hused)]
    by_cases hkey' : key ∈ ks'
    · rw [if_pos (Or.inl hkey')]
      exact h.used_right hused.1 hkey' hnodup'
    · rw [if_neg (not_or.mpr ⟨hkey', hused.2⟩)]
      exact h

end Within

end Recency

/-! ## The effect of calls -/

/-- What a call does to the order of use. -/
inductive Effect (K : Type) where
  | idle
  -- a key is looked for, and stored if the flag says so
  | seek (key : K) (stores : Bool)
  -- keys are stored, one after another
  | fill (keys : List K)
  | drop (keys : List K)
  | wipe

namespace Effect

variable [DecidableEq K]

/-- The order of use after an effect. -/
def order (capacity : Nat) : Effect K → List K → List K
  | idle, ks => ks
  | seek key stores, ks => Recency.recalled capacity key stores ks
  | fill keys, ks => keys.foldl (fun ks key => Recency.used capacity key ks) ks
  | drop keys, ks => Recency.kept keys ks
  | wipe, _ => []

/-- No effect makes a key occur twice. -/
theorem nodup_order {ks : List K} (h : ks.Nodup) (capacity : Nat) (effect : Effect K) :
    (effect.order capacity ks).Nodup := by
  cases effect with
  | idle => exact h
  | seek key stores =>
      rw [order, Recency.recalled]
      split
      · exact Recency.nodup_used h capacity key
      · exact h
  | fill keys =>
      rw [order]
      induction keys generalizing ks with
      | nil => exact h
      | cons key rest ih => exact ih (Recency.nodup_used h capacity key)
  | drop keys => exact h.sublist List.filter_sublist
  | wipe => exact List.nodup_nil

/-- Every effect leaves the keys under a capacity among those under a
    greater one. -/
theorem within_order {capacity capacity' : Nat} {ks ks' : List K}
    (h : Recency.Within capacity capacity' ks ks') (hnodup' : ks'.Nodup) (effect : Effect K) :
    Recency.Within capacity capacity' (effect.order capacity ks)
      (effect.order capacity' ks') := by
  cases effect with
  | idle => exact h
  | seek key stores => exact h.recalled hnodup' key stores
  | fill keys =>
      rw [order, order]
      clear hnodup'
      induction keys generalizing ks ks' with
      | nil => exact h
      | cons key rest ih => exact ih (h.used key)
  | drop keys => exact h.filter _
  | wipe => exact .nil h.roomier

end Effect

end ExpiringCache
