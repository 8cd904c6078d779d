import ExpiringCache.Proofs.Recency
import ExpiringCache.Word
import Mathlib.Data.List.Perm.Subperm

/-! # Recency lists without overflow

    The definitions of this development calculate with numbers of any size,
    and an array that is written beside its end stays as it is.  A machine
    has words, and must not write beside the end of an array.  So each
    operation that calculates has a `checked` counterpart, which does the same
    step by step, but has no result as soon as a number leaves its range or a
    slot does not exist.  Where the counterpart has a result, and the same
    one, nothing has gone wrong on the way.

    Counts are checked against the size of what they count: a collection in
    memory has no more elements than a word counts. -/

namespace ExpiringCache

/-! ## Checked arithmetic -/

namespace Word

/-- The number, if a signed word holds it. -/
def checked (i : Int) : Option Int := if Fits i then some i else none

/-- One less, if there is one to take away. -/
def checkedPred : Nat → Option Nat
  | 0 => none
  | n + 1 => some n

/-- One more, if so many can be counted. -/
def checkedSucc (n limit : Nat) : Option Nat := if n < limit then some (n + 1) else none

/-- A number within the range of a word can be calculated. -/
theorem checked_of_fits {i : Int} (h : Fits i) : checked i = some i := if_pos h

/-- A count above zero can be taken down by one. -/
theorem checkedPred_of_pos {n : Nat} (h : 0 < n) : checkedPred n = some (n - 1) := by
  cases n with
  | zero => exact absurd h (Nat.lt_irrefl 0)
  | succ n => rfl

/-- A count below its limit can be taken up by one. -/
theorem checkedSucc_of_lt {n limit : Nat} (h : n < limit) : checkedSucc n limit = some (n + 1) :=
  if_pos h

end Word

/-! ## Slot lists -/

namespace SlotList

variable {α : Type}

/-- The checked `allocate`: the slot freed last must exist, and the last slot
    has a number. -/
def checkedAllocate (l : SlotList α) (node : Node α) : Option (Nat × SlotList α) :=
  match l.free with
  | slot :: rest =>
      if slot < l.slots.size then
        some (slot, { l with slots := l.slots.setIfInBounds slot (some node), free := rest })
      else none
  | [] => do
      let slots := l.slots.push (some node)
      let slot ← Word.checkedPred slots.size
      some (slot, { l with slots := slots })

/-- The checked `pushBack`: there is no more than one node in each slot. -/
def checkedPushBack (l : SlotList α) (value : α) : Option (Nat × SlotList α) := do
  let last := l.tail
  let (slot, l) ← l.checkedAllocate ⟨value, last, none⟩
  let l := match last with
    | some before => l.modify before fun n => { n with next := some slot }
    | none => { l with head := some slot }
  let size ← Word.checkedSucc l.size l.slots.size
  some (slot, { l with tail := some slot, size := size })

/-- The checked `remove`: a node that is taken out has been counted. -/
def checkedRemove (l : SlotList α) (slot : Nat) : Option (Option α × SlotList α) :=
  match l.node? slot with
  | none => some (none, l)
  | some node => do
      let l := l.detach slot
      let size ← Word.checkedPred l.size
      some (some node.value,
        { l with
          slots := l.slots.setIfInBounds slot none
          free := slot :: l.free
          size := size })

/-- The checked `popFront`. -/
def checkedPopFront (l : SlotList α) : Option (Option α × SlotList α) :=
  match l.head with
  | none => some (none, l)
  | some slot => l.checkedRemove slot

variable {l : SlotList α} {ps : List (Nat × α)}

/-- There is a slot for each node. -/
theorem Holds.length_le (h : l.Holds ps) : ps.length ≤ l.slots.size := by
  have hsub : slotsOf ps ⊆ List.range l.slots.size := fun slot hslot =>
    List.mem_range.mpr (lt_of_linked h.linked slot hslot)
  have hle := (List.subperm_of_subset h.nodup hsub).length_le
  rwa [slotsOf, List.length_map, List.length_range] at hle

/-- There is a slot for a new node: a vacant one that exists, or one behind
    the last. -/
theorem Holds.checkedAllocate_eq (h : l.Holds ps) (node : Node α) :
    l.checkedAllocate node = some (l.allocate node) := by
  cases hfree : l.free with
  | nil =>
      simp only [checkedAllocate, SlotList.allocate, hfree, Array.size_push]
      rfl
  | cons slot rest =>
      have hlt : slot < l.slots.size :=
        ((h.mem_free slot).mp (hfree ▸ List.mem_cons_self)).1
      simp only [checkedAllocate, SlotList.allocate, hfree, if_pos hlt]

/-- No calculation fails as a value is put at the end of a list. -/
theorem Holds.checkedPushBack_eq (h : l.Holds ps) (value : α) :
    l.checkedPushBack value = some (l.pushBack value) := by
  have hsize : (l.pushBack value).2.size ≤ (l.pushBack value).2.slots.size := by
    have hpushed := (h.pushBack value).2
    rw [hpushed.size]
    exact hpushed.length_le
  simp only [checkedPushBack, h.checkedAllocate_eq]
  rw [SlotList.pushBack] at hsize ⊢
  generalize l.allocate ⟨value, l.tail, none⟩ = new at hsize ⊢
  cases htail : l.tail with
  | none =>
      rw [htail] at hsize
      show (Word.checkedSucc new.2.size new.2.slots.size).bind _ = _
      rw [Word.checkedSucc_of_lt hsize]
      rfl
  | some before =>
      rw [htail] at hsize
      have hroom : new.2.size <
          (new.2.modify before fun n => { n with next := some new.1 }).slots.size := hsize
      show (Word.checkedSucc new.2.size (new.2.modify before _).slots.size).bind _ = _
      rw [Word.checkedSucc_of_lt hroom]
      rfl

/-- No calculation fails as a node is taken out, also if its handle is stale. -/
theorem Holds.checkedRemove_eq (h : l.Holds ps) (slot : Nat) :
    l.checkedRemove slot = some (l.remove slot) := by
  cases hnode : l.node? slot with
  | none => simp only [checkedRemove, SlotList.remove, hnode]
  | some node =>
      have hmem : slot ∈ slotsOf ps := by
        by_contra hmem
        rw [h.vacant slot hmem] at hnode
        cases hnode
      have hpos : 0 < (l.detach slot).size := by
        rw [(detach_keeps hnode).2.1, h.size, ← List.length_map Prod.fst]
        exact List.length_pos_of_mem hmem
      simp only [checkedRemove, SlotList.remove, hnode, Word.checkedPred_of_pos hpos]
      rfl

/-- No calculation fails as the first value is taken out. -/
theorem Holds.checkedPopFront_eq (h : l.Holds ps) : l.checkedPopFront = some l.popFront := by
  cases hhead : l.head with
  | none => simp only [checkedPopFront, SlotList.popFront, hhead]
  | some slot => simp only [checkedPopFront, SlotList.popFront, hhead, h.checkedRemove_eq]

end SlotList

/-! ## Recency lists -/

namespace Recency

variable {K : Type} [DecidableEq K]

/-- The checked `promote`. -/
def checkedPromote (r : Recency K) (key : K) : Option (Recency K) :=
  match r.locator.get? key with
  | some slot => some { r with order := (r.order.moveToBack slot).2 }
  | none => do
      let (slot, order) ← r.order.checkedPushBack key
      some { r with order := order, locator := r.locator.insert key slot }

/-- The checked `dropCold`. -/
def checkedDropCold : Nat → Recency K → Option (List K × Recency K)
  | 0, r => some ([], r)
  | count + 1, r => do
      let (popped, order) ← r.order.checkedPopFront
      match popped with
      | none => checkedDropCold count { r with order := order }
      | some key =>
          let (dropped, r) ← checkedDropCold count
            { r with order := order, locator := r.locator.erase key }
          some (key :: dropped, r)

/-- The checked `touch`; the difference of the sizes stops at 0. -/
def checkedTouch (r : Recency K) (key : K) : Option (List K × Recency K) := do
  let r ← r.checkedPromote key
  checkedDropCold (r.order.size - r.capacity) r

/-- The checked `remove`. -/
def checkedRemove (r : Recency K) (key : K) : Option (Recency K) :=
  match r.locator.get? key with
  | none => some r
  | some slot => do
      let (_, order) ← r.order.checkedRemove slot
      some { r with order := order, locator := r.locator.erase key }

/-- The checked `removeAll`. -/
def checkedRemoveAll (r : Recency K) (keys : List K) : Option (Recency K) :=
  keys.foldlM checkedRemove r

variable {r : Recency K} {ks : List K}

/-- No calculation fails as a key moves to the hot end. -/
theorem Lists.checkedPromote_eq (h : r.Lists ks) (key : K) :
    r.checkedPromote key = some (r.promote key) := by
  obtain ⟨ps, hold, -, -⟩ := h
  cases hkey : r.locator.get? key with
  | none =>
      simp only [checkedPromote, Recency.promote, hkey, hold.checkedPushBack_eq]
      rfl
  | some slot => simp only [checkedPromote, Recency.promote, hkey]

/-- What is left after one key was dropped is in good order, too. -/
theorem Lists.checkedDropCold_eq (h : r.Lists ks) (count : Nat) :
    checkedDropCold count r = some (Recency.dropCold count r) := by
  induction count generalizing r ks with
  | zero => rfl
  | succ count ih =>
      have hrest := (h.dropCold 1).2
      obtain ⟨ps, hold, -, -⟩ := h
      simp only [checkedDropCold, hold.checkedPopFront_eq]
      cases hpop : r.order.popFront with
      | mk popped order => cases popped with
        | none =>
            simp only [Recency.dropCold, hpop] at hrest ⊢
            exact ih hrest
        | some key =>
            simp only [Recency.dropCold, hpop] at hrest ⊢
            show (checkedDropCold count _).bind _ = _
            rw [ih hrest]
            rfl

/-- No calculation fails in a touch, which drops the surplus at the cold end. -/
theorem Lists.checkedTouch_eq (h : r.Lists ks) (key : K) :
    r.checkedTouch key = some (r.touch key) := by
  simp only [checkedTouch, h.checkedPromote_eq, Recency.touch]
  exact (h.promote key).checkedDropCold_eq _

/-- No calculation fails as a key is taken out of a recency list. -/
theorem Lists.checkedRemove_eq (h : r.Lists ks) (key : K) :
    r.checkedRemove key = some (r.remove key) := by
  obtain ⟨ps, hold, -, -⟩ := h
  cases hkey : r.locator.get? key with
  | none => simp only [checkedRemove, Recency.remove, hkey]
  | some slot =>
      simp only [checkedRemove, Recency.remove, hkey, hold.checkedRemove_eq]
      rfl

/-- No calculation fails as keys are taken out one after the other. -/
theorem Lists.checkedRemoveAll_eq (h : r.Lists ks) (keys : List K) :
    r.checkedRemoveAll keys = some (r.removeAll keys) := by
  induction keys generalizing r ks with
  | nil => rfl
  | cons key rest ih =>
      show (r.checkedRemove key).bind _ = _
      rw [h.checkedRemove_eq]
      exact ih (h.remove key)

end Recency

end ExpiringCache
