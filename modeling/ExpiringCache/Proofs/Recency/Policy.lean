import ExpiringCache.Proofs.Order.Basic
import ExpiringCache.Proofs.SlotList.Row

/-! # The policy of a recency list

    On a plain list of keys, coldest first, using a key means to take it out,
    to append it, and to drop what is too much at the cold end.  A recency
    list does the same to its keys, although it never searches: its table
    finds the slot of each key, and slots are used again by other keys.

    So no entry of the table ever goes stale.  Nor do slots pile up.  A new
    one is made only if all others are taken, and no more keys than there is
    room for, and the one that is just used, are there at any time. -/

namespace ExpiringCache.Recency

variable {K : Type}

/-- An operation of a recency list. -/
inductive Operation (K : Type) where
  | touch (key : K)
  | remove (key : K)
  | removeAll (keys : List K)
  | clear
  deriving DecidableEq, Repr

variable [DecidableEq K]

/-- Carries out an operation; using a key answers the keys that fall off. -/
def perform (r : Recency K) : Operation K → Option (List K) × Recency K
  | .touch key => (some (r.touch key).1, (r.touch key).2)
  | .remove key => (none, r.remove key)
  | .removeAll keys => (none, r.removeAll keys)
  | .clear => (none, r.clear)

/-- The same on a plain list of keys, coldest first, with room for `room` of
    them. -/
def performPlain (room : Nat) (ks : List K) : Operation K → Option (List K) × List K
  | .touch key =>
      let used := others key ks ++ [key]
      let surplus := used.length - room
      (some (used.take surplus), used.drop surplus)
  | .remove key => (none, others key ks)
  | .removeAll keys => (none, keys.foldl (fun ks key => others key ks) ks)
  | .clear => (none, [])

end Recency

/-! ## The slots in use -/

namespace SlotList

variable {α : Type}

/-- Where no slot waits to be used again, each has a node. -/
theorem Holds.slots_le {l : SlotList α} {ps : List (Nat × α)} (h : l.Holds ps)
    (hfree : l.free = []) : l.slots.size ≤ ps.length := by
  have hsub : List.range l.slots.size ⊆ slotsOf ps := by
    intro slot hslot
    by_contra hmem
    have hwaits := (h.mem_free slot).mpr ⟨List.mem_range.mp hslot, hmem⟩
    rw [hfree] at hwaits
    exact nomatch hwaits
  have hle := (List.subperm_of_subset List.nodup_range hsub).length_le
  rwa [List.length_range, slotsOf, List.length_map] at hle

/-- A new slot is made only if there is one for each of the other values and no
    more. -/
theorem Holds.slots_pushBack_le {l : SlotList α} {ps : List (Nat × α)} (h : l.Holds ps)
    (value : α) : (l.pushBack value).2.slots.size ≤ max l.slots.size (ps.length + 1) := by
  rw [(l.slots_pushBack value).2.2]
  split
  · rename_i hfree
    have hfull := h.slots_le hfree
    omega
  · omega

/-- Slots are never given up one by one. -/
theorem size_slots_remove (l : SlotList α) (slot : Nat) :
    (l.remove slot).2.slots.size = l.slots.size := by
  cases hnode : l.node? slot with
  | none => simp only [SlotList.remove, hnode]
  | some node => exact (slots_remove hnode).2

theorem size_slots_popFront (l : SlotList α) : l.popFront.2.slots.size = l.slots.size := by
  cases hhead : l.head with
  | none => simp only [SlotList.popFront, hhead]
  | some slot =>
      simp only [SlotList.popFront, hhead]
      exact l.size_slots_remove slot

end SlotList

namespace Recency

variable {K : Type} [DecidableEq K]

theorem size_slots_dropCold (count : Nat) (r : Recency K) :
    (dropCold count r).2.order.slots.size = r.order.slots.size := by
  induction count generalizing r with
  | zero => rfl
  | succ count ih =>
      have hpopped := r.order.size_slots_popFront
      cases hpop : r.order.popFront with
      | mk popped order =>
          rw [hpop] at hpopped
          cases popped with
          | none =>
              simp only [dropCold, hpop]
              exact (ih _).trans hpopped
          | some key =>
              simp only [dropCold, hpop]
              exact (ih _).trans hpopped

theorem size_slots_remove (r : Recency K) (key : K) :
    (r.remove key).order.slots.size = r.order.slots.size := by
  cases hkey : r.locator.get? key with
  | none => simp only [Recency.remove, hkey]
  | some slot =>
      simp only [Recency.remove, hkey]
      exact r.order.size_slots_remove slot

/-- Only a key that was not listed may need a new slot. -/
theorem Lists.size_slots_touch {r : Recency K} {ks : List K} (h : r.Lists ks) (key : K) :
    (r.touch key).2.order.slots.size ≤ max r.order.slots.size (ks.length + 1) := by
  rw [Recency.touch, size_slots_dropCold, Recency.promote]
  cases hkey : r.locator.get? key with
  | none =>
      obtain ⟨ps, hold, rfl, -⟩ := h
      have hpushed := hold.slots_pushBack_le key
      rwa [List.length_map]
  | some slot =>
      have hmoved := (r.order.slots_moveToBack slot).2
      show (r.order.moveToBack slot).2.slots.size ≤ _
      omega

/-! ## The list follows the policy -/

/-- The recency list has the keys `ks` and room for `room` keys, and so far
    one more slot was enough. -/
structure Follows (room : Nat) (r : Recency K) (ks : List K) : Prop where
  capacity : r.capacity = room
  lists : r.Lists ks
  within : ks.length ≤ room
  slots : r.order.slots.size ≤ room + 1

theorem follows_empty (capacity : Nat) :
    (empty capacity : Recency K).Follows (max capacity 1) [] where
  capacity := rfl
  lists := lists_empty capacity
  within := Nat.zero_le _
  slots := Nat.zero_le _

namespace Follows

variable {room : Nat} {r : Recency K} {ks : List K}

theorem touch (h : r.Follows room ks) (key : K) :
    some (r.touch key).1 = (performPlain room ks (.touch key)).1 ∧
      (r.touch key).2.Follows room (performPlain room ks (.touch key)).2 := by
  obtain ⟨hdropped, hlists⟩ := h.lists.touch key
  have hlength : (others key ks ++ [key]).length = (others key ks).length + 1 :=
    List.length_append
  rw [h.capacity, ← hlength] at hdropped hlists
  refine ⟨congrArg some hdropped, ?_, hlists, ?_, ?_⟩
  · rw [capacity_touch, h.capacity]
  · show ((others key ks ++ [key]).drop _).length ≤ room
    rw [List.length_drop]
    omega
  · have hslots := h.lists.size_slots_touch key
    have hwithin := h.within
    have hbefore := h.slots
    omega

theorem remove (h : r.Follows room ks) (key : K) :
    (r.remove key).Follows room (others key ks) where
  capacity := (capacity_remove r key).trans h.capacity
  lists := h.lists.remove key
  within := Nat.le_trans (List.length_filter_le _ _) h.within
  slots := Nat.le_trans (Nat.le_of_eq (r.size_slots_remove key)) h.slots

theorem removeAll (h : r.Follows room ks) (keys : List K) :
    (r.removeAll keys).Follows room (keys.foldl (fun ks key => others key ks) ks) := by
  induction keys generalizing r ks with
  | nil => exact h
  | cons key rest ih => exact ih (h.remove key)

theorem clear (h : r.Follows room ks) : r.clear.Follows room [] where
  capacity := h.capacity
  lists := r.lists_clear
  within := Nat.zero_le _
  slots := Nat.zero_le _

/-- Every operation answers the same on both sides and keeps them so. -/
theorem perform (h : r.Follows room ks) (op : Operation K) :
    (r.perform op).1 = (performPlain room ks op).1 ∧
      (r.perform op).2.Follows room (performPlain room ks op).2 := by
  cases op with
  | touch key => exact h.touch key
  | remove key => exact ⟨rfl, h.remove key⟩
  | removeAll keys => exact ⟨rfl, h.removeAll keys⟩
  | clear => exact ⟨rfl, h.clear⟩

/-- Only one key can be too many, and the used one comes last. -/
theorem touch_drops (h : r.Follows room ks) (hroom : 0 < room) (key : K) :
    (r.touch key).1.length ≤ 1 ∧ key ∉ (r.touch key).1 := by
  have hdropped := (h.lists.touch key).1
  rw [h.capacity] at hdropped
  have hothers : (others key ks).length ≤ ks.length := List.length_filter_le _ _
  have hwithin := h.within
  rw [hdropped]
  constructor
  · rw [List.length_take]
    omega
  · rw [List.take_append_of_le_length (by omega)]
    intro hmem
    exact (mem_others.mp (List.mem_of_mem_take hmem)).2 rfl

end Follows

/-! ## Looking at the list -/

/-- What is seen of a recency list are the keys `ks`, coldest first, and the
    room for `room` keys. -/
structure Shows (room : Nat) (r : Recency K) (ks : List K) : Prop where
  distinct : ks.Nodup
  keys : r.keys = ks
  size : r.size = ks.length
  contains : ∀ key, r.contains key = decide (key ∈ ks)
  coldest : r.coldest? = ks.head?
  within : ks.length ≤ room
  -- the table knows these keys only, and sends each to the node that holds it
  located : ∀ key, (r.locator.get? key).isSome = true ↔ key ∈ ks
  holder : ∀ key slot, r.locator.get? key = some slot ↔
    (r.order.node? slot).map Node.value = some key
  -- no more slots were made than one beyond the room
  slots : r.order.slots.size ≤ room + 1

theorem Follows.shows {room : Nat} {r : Recency K} {ks : List K} (h : r.Follows room ks) :
    r.Shows room ks where
  distinct := h.lists.nodup
  keys := h.lists.keys_eq
  size := h.lists.size_eq
  contains := by
    intro key
    rw [Bool.eq_iff_iff, h.lists.contains_iff, decide_eq_true_iff]
  coldest := by
    obtain ⟨ps, hold, rfl, -⟩ := h.lists
    exact hold.front?_eq.trans List.head?_map.symm
  within := h.within
  located := h.lists.contains_iff
  holder := by
    intro key slot
    obtain ⟨ps, hold, -, hloc⟩ := h.lists
    exact (hloc key slot).trans hold.value_eq_some.symm
  slots := h.slots

/-- Whatever is done to a new recency list, with keys that are listed or not:
    all answers are those of the plain list, and so is all that is seen.
    Using a key drops at most one other key. -/
theorem performs_as_plain (capacity : Nat) (ops : List (Operation K)) :
    (carryOut perform ops (empty capacity)).1 =
        (carryOut (performPlain (max capacity 1)) ops []).1 ∧
      (carryOut perform ops (empty capacity)).2.Shows (max capacity 1)
        (carryOut (performPlain (max capacity 1)) ops []).2 ∧
      ∀ key, ((carryOut perform ops (empty capacity)).2.touch key).1.length ≤ 1 ∧
        key ∉ ((carryOut perform ops (empty capacity)).2.touch key).1 := by
  obtain ⟨hanswers, hfollows⟩ := carryOut_related (R := Follows (max capacity 1))
    (fun _ _ op h => h.perform op) (follows_empty capacity) ops
  have hroom : 0 < max capacity 1 := by omega
  exact ⟨hanswers, hfollows.shows, hfollows.touch_drops hroom⟩

end Recency

end ExpiringCache
