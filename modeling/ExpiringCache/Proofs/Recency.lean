import ExpiringCache.Proofs.SlotList.Holds
import ExpiringCache.Recency
import Mathlib.Data.List.Nodup

/-! # Recency lists are lists of keys

    A recency list `Lists` some keys, coldest first, if its slot list holds
    them in this order and its table sends each of them, and no other key,
    to its slot.  Using, dropping and removing keys is then what it is on a
    plain list without repetitions; no handle ever goes stale, because each
    operation moves the slot and the table together. -/

namespace ExpiringCache.Recency

variable {K : Type}

/-- The list holds the keys `ks`, coldest first, and finds each of them. -/
def Lists [DecidableEq K] (r : Recency K) (ks : List K) : Prop :=
  ∃ ps, r.order.Holds ps ∧ ps.map Prod.snd = ks ∧
    ∀ key slot, r.locator.get? key = some slot ↔ (slot, key) ∈ ps

variable [DecidableEq K]

/-- The keys of a list that differ from `key`. -/
def others (key : K) (ks : List K) : List K := ks.filter fun k => !decide (k = key)

/-! ## Lists without a key -/

theorem mem_others {key k : K} {ks : List K} : k ∈ others key ks ↔ k ∈ ks ∧ k ≠ key := by
  simp [others]

/-- A key that is not in a list leaves nothing out. -/
theorem others_eq_self {key : K} {ks : List K} (h : key ∉ ks) : others key ks = ks := by
  refine List.filter_eq_self.mpr fun k hk => ?_
  simpa using ne_of_mem_of_not_mem hk h

theorem nodup_others {key : K} {ks : List K} (h : ks.Nodup) : (others key ks).Nodup :=
  h.sublist List.filter_sublist

/-- Taking out the key between the two parts of a list leaves the parts. -/
theorem others_split {key : K} {pre post : List K} (h : (pre ++ key :: post).Nodup) :
    others key (pre ++ key :: post) = pre ++ post := by
  have hp := List.perm_middle.nodup_iff.mp h
  rw [List.nodup_cons, List.mem_append, not_or] at hp
  have hpre := others_eq_self hp.1.1
  have hpost := others_eq_self hp.1.2
  unfold others at *
  rw [List.filter_append, List.filter_cons, hpre, hpost]
  simp

/-! ## What is listed -/

/-- No key is listed twice. -/
theorem Lists.nodup {r : Recency K} {ks : List K} (h : r.Lists ks) : ks.Nodup := by
  obtain ⟨ps, hold, rfl, hloc⟩ := h
  refine List.Nodup.map_on ?_ (List.Nodup.of_map Prod.fst hold.nodup)
  rintro ⟨slot, key⟩ hp ⟨slot', key'⟩ hq heq
  have hkey : key = key' := heq
  subst hkey
  have h1 := (hloc key slot).mpr hp
  rw [(hloc key slot').mpr hq] at h1
  cases h1
  rfl

/-- The keys met on the way from the cold end are the listed ones. -/
theorem Lists.keys_eq {r : Recency K} {ks : List K} (h : r.Lists ks) : r.keys = ks := by
  obtain ⟨ps, hold, rfl, -⟩ := h
  exact hold.toList_eq

/-- A recency list is as long as the list of its keys. -/
theorem Lists.size_eq {r : Recency K} {ks : List K} (h : r.Lists ks) :
    r.order.size = ks.length := by
  obtain ⟨ps, hold, rfl, -⟩ := h
  rw [hold.size, List.length_map]

/-- A key that the table does not know is not listed. -/
theorem Lists.not_mem {r : Recency K} {ks : List K} (h : r.Lists ks) {key : K}
    (hkey : r.locator.get? key = none) : key ∉ ks := by
  obtain ⟨ps, -, rfl, hloc⟩ := h
  intro hmem
  obtain ⟨p, hp, rfl⟩ := List.mem_map.mp hmem
  rw [(hloc p.2 p.1).mpr hp] at hkey
  exact nomatch hkey

/-- The table knows the listed keys and no others. -/
theorem Lists.contains_iff {r : Recency K} {ks : List K} (h : r.Lists ks) (key : K) :
    r.contains key = true ↔ key ∈ ks := by
  obtain ⟨ps, -, rfl, hloc⟩ := h
  rw [contains, Table.contains, Option.isSome_iff_exists, List.mem_map]
  constructor
  · rintro ⟨slot, hslot⟩
    exact ⟨(slot, key), (hloc key slot).mp hslot, rfl⟩
  · rintro ⟨p, hp, rfl⟩
    exact ⟨p.1, (hloc p.2 p.1).mpr hp⟩

/-- A slot that the table knows cuts the chain at its key. -/
theorem exists_split_of_locator {r : Recency K} {ps : List (Nat × K)}
    (hloc : ∀ key slot, r.locator.get? key = some slot ↔ (slot, key) ∈ ps)
    {key : K} {slot : Nat} (hkey : r.locator.get? key = some slot) :
    ∃ pre post, ps = pre ++ (slot, key) :: post :=
  List.append_of_mem ((hloc key slot).mp hkey)

theorem lists_empty (capacity : Nat) : (empty capacity : Recency K).Lists [] := by
  refine ⟨[], SlotList.holds_empty, rfl, fun key slot => ?_⟩
  constructor
  · intro h
    exact nomatch h
  · intro h
    exact nomatch h

theorem lists_clear (r : Recency K) : r.clear.Lists [] := lists_empty 0

/-! ## Taking keys out -/

/-- The table without a key finds the pairs of the chain without its pair. -/
theorem get?_erase_split {t : Table K Nat} {pre post : List (Nat × K)} {key : K} {slot : Nat}
    (hloc : ∀ k s, t.get? k = some s ↔ (s, k) ∈ pre ++ (slot, key) :: post)
    (hn : ((pre ++ (slot, key) :: post).map Prod.snd).Nodup) (k : K) (s : Nat) :
    (t.erase key).get? k = some s ↔ (s, k) ∈ pre ++ post := by
  rw [List.map_append, List.map_cons] at hn
  have hp := List.perm_middle.nodup_iff.mp hn
  rw [List.nodup_cons, ← List.map_append] at hp
  rw [Table.get?_erase]
  split
  · rename_i hk
    subst hk
    refine ⟨fun h => (nomatch h), fun h => ?_⟩
    exact absurd (List.mem_map.mpr ⟨(s, key), h, rfl⟩) hp.1
  · rename_i hk
    rw [hloc k s, List.mem_append, List.mem_cons, List.mem_append]
    constructor
    · rintro (h | h | h)
      · exact Or.inl h
      · exact absurd (congrArg Prod.snd h).symm hk
      · exact Or.inr h
    · rintro (h | h)
      · exact Or.inl h
      · exact Or.inr (Or.inr h)

/-- Removing a key takes it out of the list. -/
theorem Lists.remove {r : Recency K} {ks : List K} (h : r.Lists ks) (key : K) :
    (r.remove key).Lists (others key ks) := by
  cases hkey : r.locator.get? key with
  | none =>
      simp only [Recency.remove, hkey]
      rw [others_eq_self (h.not_mem hkey)]
      exact h
  | some slot =>
      simp only [Recency.remove, hkey]
      have hn := h.nodup
      obtain ⟨ps, hold, rfl, hloc⟩ := h
      obtain ⟨pre, post, rfl⟩ := exists_split_of_locator hloc hkey
      refine ⟨pre ++ post, hold.remove.2, ?_, get?_erase_split hloc hn⟩
      rw [List.map_append, List.map_append, List.map_cons] at *
      exact (others_split hn).symm

/-- Removing several keys takes them out one after another. -/
theorem Lists.removeAll {r : Recency K} {ks : List K} (h : r.Lists ks) (keys : List K) :
    (r.removeAll keys).Lists (keys.foldl (fun ks key => others key ks) ks) := by
  induction keys generalizing r ks with
  | nil => exact h
  | cons key rest ih => exact ih (h.remove key)

/-- Dropping keys takes them off the cold end, in order. -/
theorem Lists.dropCold {r : Recency K} {ks : List K} (h : r.Lists ks) (count : Nat) :
    (Recency.dropCold count r).1 = ks.take count ∧
      (Recency.dropCold count r).2.Lists (ks.drop count) := by
  induction count generalizing r ks with
  | zero => exact ⟨rfl, h⟩
  | succ count ih =>
      have hn := h.nodup
      obtain ⟨ps, hold, rfl, hloc⟩ := h
      cases ps with
      | nil =>
          simp only [Recency.dropCold, hold.popFront_nil]
          have hempty : r.Lists [] := ⟨[], hold, rfl, hloc⟩
          obtain ⟨hdropped, hlists⟩ := ih hempty
          rw [List.take_nil] at hdropped
          rw [List.drop_nil] at hlists
          exact ⟨hdropped, hlists⟩
      | cons p rest =>
          obtain ⟨slot, key⟩ := p
          obtain ⟨hkey, hrest⟩ := hold.popFront
          cases hpop : r.order.popFront with
          | mk popped order =>
              rw [hpop] at hkey hrest
              subst hkey
              simp only [Recency.dropCold, hpop]
              have hfirst : ∀ k s, r.locator.get? k = some s ↔
                  (s, k) ∈ [] ++ (slot, key) :: rest := hloc
              have hnext : Lists { r with order := order, locator := r.locator.erase key }
                  (rest.map Prod.snd) :=
                ⟨rest, hrest, rfl, get?_erase_split hfirst hn⟩
              obtain ⟨hdropped, hlists⟩ := ih hnext
              refine ⟨?_, hlists⟩
              rw [hdropped]
              rfl

@[simp] theorem capacity_dropCold (count : Nat) (r : Recency K) :
    (Recency.dropCold count r).2.capacity = r.capacity := by
  induction count generalizing r with
  | zero => rfl
  | succ count ih =>
      cases hpop : r.order.popFront with
      | mk popped order => cases popped with
        | none =>
            simp only [Recency.dropCold, hpop]
            exact ih _
        | some key =>
            simp only [Recency.dropCold, hpop]
            exact ih _

@[simp] theorem capacity_remove (r : Recency K) (key : K) :
    (r.remove key).capacity = r.capacity := by
  cases hkey : r.locator.get? key with
  | none => simp only [Recency.remove, hkey]
  | some slot => simp only [Recency.remove, hkey]

@[simp] theorem capacity_removeAll (r : Recency K) (keys : List K) :
    (r.removeAll keys).capacity = r.capacity := by
  induction keys generalizing r with
  | nil => rfl
  | cons key rest ih => exact (ih _).trans (capacity_remove r key)

/-! ## Using keys -/

/-- Promoting a key puts it at the hot end, whether or not it was listed. -/
theorem Lists.promote {r : Recency K} {ks : List K} (h : r.Lists ks) (key : K) :
    (r.promote key).Lists (others key ks ++ [key]) := by
  -- a key that is not listed gets a slot of its own; another one takes its slot along
  cases hkey : r.locator.get? key with
  | none =>
      simp only [Recency.promote, hkey]
      rw [others_eq_self (h.not_mem hkey)]
      obtain ⟨ps, hold, rfl, hloc⟩ := h
      obtain ⟨hslot, hpush⟩ := hold.pushBack key
      refine ⟨_, hpush, by rw [List.map_append]; rfl, fun k s => ?_⟩
      rw [Table.get?_insert, List.mem_append, List.mem_singleton]
      split
      · rename_i hk
        subst hk
        constructor
        · intro hs
          cases hs
          exact Or.inr rfl
        · rintro (hs | hs)
          · rw [(hloc key s).mpr hs] at hkey
            exact nomatch hkey
          · exact congrArg (fun p => some p.1) hs.symm
      · rename_i hk
        rw [hloc k s]
        constructor
        · exact Or.inl
        · rintro (hs | hs)
          · exact hs
          · exact absurd (congrArg Prod.snd hs).symm hk
  | some slot =>
      simp only [Recency.promote, hkey]
      have hn := h.nodup
      obtain ⟨ps, hold, rfl, hloc⟩ := h
      obtain ⟨pre, post, rfl⟩ := exists_split_of_locator hloc hkey
      refine ⟨pre ++ post ++ [(slot, key)], hold.moveToBack.2, ?_, fun k s => ?_⟩
      · rw [List.map_append] at hn
        rw [List.map_append, List.map_append, List.map_append]
        exact congrArg (· ++ [key]) (others_split hn).symm
      · rw [hloc k s]
        simp only [List.mem_append, List.mem_cons, List.not_mem_nil, or_false]
        rw [or_assoc, or_comm (a := (s, k) = (slot, key))]

@[simp] theorem capacity_promote (r : Recency K) (key : K) :
    (r.promote key).capacity = r.capacity := by
  cases hkey : r.locator.get? key with
  | none => simp only [Recency.promote, hkey]
  | some slot => simp only [Recency.promote, hkey]

/-- Using a key puts it at the hot end and drops the cold keys that are too
    many. -/
theorem Lists.touch {r : Recency K} {ks : List K} (h : r.Lists ks) (key : K) :
    (r.touch key).1 = (others key ks ++ [key]).take ((others key ks).length + 1 - r.capacity) ∧
      (r.touch key).2.Lists
        ((others key ks ++ [key]).drop ((others key ks).length + 1 - r.capacity)) := by
  have hpromote := h.promote key
  have hsize := hpromote.size_eq
  rw [List.length_append, List.length_singleton] at hsize
  simp only [Recency.touch, hsize, capacity_promote]
  exact hpromote.dropCold _

@[simp] theorem capacity_touch (r : Recency K) (key : K) :
    (r.touch key).2.capacity = r.capacity := by
  simp only [Recency.touch, capacity_dropCold, capacity_promote]

end ExpiringCache.Recency
