import ExpiringCache.Proofs.Checked.Recency
import ExpiringCache.Proofs.EntryList
import Mathlib.Data.List.Induction

/-! # Rows of slots

    Seen from outside, a slot list is a row of pairs of a slot and a value.
    No slot occurs twice, so a handle means the pair of its slot, however old
    the handle is; one whose slot does not occur means nothing.  The row
    remembers the slots that were freed and the number of all slots, because
    these decide which slot the next value gets.

    Here the operations are written down for rows, without any links.  A slot
    list `Fills` a row if it holds the pairs of the row and has the same slots
    to give; every operation keeps it so and answers the same on both sides.
    Whoever looks at such a list, along its links in either direction, at its
    ends, or at its slots, sees the row. -/

namespace ExpiringCache

/-! ## Several operations -/

section CarryOut

variable {S S' O A : Type}

/-- The answers to several operations, carried out one after another, and the
    state in the end. -/
def carryOut (step : S → O → A × S) : List O → S → List A × S
  | [], s => ([], s)
  | o :: rest, s =>
      let (a, s) := step s o
      let (as, s) := carryOut step rest s
      (a :: as, s)

/-- The same for operations that may fail; nothing follows a failure. -/
def carryOut? (step : S → O → Option (A × S)) : List O → S → Option (List A × S)
  | [], s => some ([], s)
  | o :: rest, s => do
      let (a, s) ← step s o
      let (as, s) ← carryOut? step rest s
      some (a :: as, s)

/-- Two sides that answer alike and stay related answer alike all the time. -/
theorem carryOut_related {R : S → S' → Prop} {step : S → O → A × S} {step' : S' → O → A × S'}
    (hstep : ∀ s s' o, R s s' → (step s o).1 = (step' s' o).1 ∧ R (step s o).2 (step' s' o).2)
    {s : S} {s' : S'} (h : R s s') (os : List O) :
    (carryOut step os s).1 = (carryOut step' os s').1 ∧
      R (carryOut step os s).2 (carryOut step' os s').2 := by
  induction os generalizing s s' with
  | nil => exact ⟨rfl, h⟩
  | cons o rest ih =>
      obtain ⟨hanswer, hrelated⟩ := hstep s s' o h
      obtain ⟨hanswers, hend⟩ := ih hrelated
      refine ⟨?_, hend⟩
      show (step s o).1 :: _ = (step' s' o).1 :: _
      rw [hanswer, hanswers]

/-- Where no operation fails in a state of some kind and each leaves a state
    of this kind, none fails at all. -/
theorem carryOut?_eq {P : S → Prop} {step : S → O → A × S} {step? : S → O → Option (A × S)}
    (hstep : ∀ s o, P s → step? s o = some (step s o) ∧ P (step s o).2) {s : S} (h : P s)
    (os : List O) : carryOut? step? os s = some (carryOut step os s) := by
  induction os generalizing s with
  | nil => rfl
  | cons o rest ih =>
      obtain ⟨hdefined, hkept⟩ := hstep s o h
      show (step? s o).bind _ = _
      rw [hdefined]
      show (carryOut? step? rest (step s o).2).bind _ = _
      rw [ih hkept]
      rfl

end CarryOut

/-! ## The operations of a list and of a row -/

namespace SlotList

/-- An operation of a list.  A slot is that of any handle, stale or not. -/
inductive Operation (α : Type) where
  | pushBack (value : α)
  | popFront
  | remove (slot : Nat)
  | moveToBack (slot : Nat)
  | clear
  deriving DecidableEq, Repr

/-- What an operation answers. -/
inductive Answer (α : Type) where
  | pushed (slot : Nat)
  | taken (value : Option α)
  | moved (b : Bool)
  | cleared
  deriving DecidableEq, Repr

variable {α : Type}

/-- Carries out an operation. -/
def perform (l : SlotList α) : Operation α → Answer α × SlotList α
  | .pushBack value => (.pushed (l.pushBack value).1, (l.pushBack value).2)
  | .popFront => (.taken l.popFront.1, l.popFront.2)
  | .remove slot => (.taken (l.remove slot).1, (l.remove slot).2)
  | .moveToBack slot => (.moved (l.moveToBack slot).1, (l.moveToBack slot).2)
  | .clear => (.cleared, l.clear)

/-- The checked `perform`.  Moving and clearing calculate nothing and use no
    slot that they have not looked up. -/
def checkedPerform (l : SlotList α) : Operation α → Option (Answer α × SlotList α)
  | .pushBack value => (l.checkedPushBack value).map fun result => (.pushed result.1, result.2)
  | .popFront => l.checkedPopFront.map fun result => (.taken result.1, result.2)
  | .remove slot => (l.checkedRemove slot).map fun result => (.taken result.1, result.2)
  | .moveToBack slot => some (.moved (l.moveToBack slot).1, (l.moveToBack slot).2)
  | .clear => some (.cleared, l.clear)

end SlotList

/-- A row of values in slots. -/
structure Row (α : Type) where
  -- the slots with their values, in order
  pairs : List (Nat × α)
  -- the slots that were freed and not used again, the one freed last first
  freed : List Nat
  -- the number of slots that were ever used
  width : Nat
  deriving DecidableEq, Repr

namespace Row

open SlotList (Operation Answer)

variable {α : Type}

/-- The row without slots. -/
def empty : Row α := ⟨[], [], 0⟩

/-- A value goes to the end, into the slot freed last or else into a new
    one. -/
def pushBack (r : Row α) (value : α) : Nat × Row α :=
  match r.freed with
  | slot :: rest => (slot, ⟨r.pairs ++ [(slot, value)], rest, r.width⟩)
  | [] => (r.width, ⟨r.pairs ++ [(r.width, value)], [], r.width + 1⟩)

/-- The first pair is taken out and its slot freed. -/
def popFront (r : Row α) : Option α × Row α :=
  match r.pairs with
  | [] => (none, r)
  | (slot, value) :: rest => (some value, ⟨rest, slot :: r.freed, r.width⟩)

/-- The pair of a slot is taken out, if there is one, and the slot freed. -/
def remove (r : Row α) (slot : Nat) : Option α × Row α :=
  match Table.find? slot r.pairs with
  | none => (none, r)
  | some value => (some value, ⟨Table.without slot r.pairs, slot :: r.freed, r.width⟩)

/-- The pair of a slot goes to the end, if there is one. -/
def moveToBack (r : Row α) (slot : Nat) : Bool × Row α :=
  match Table.find? slot r.pairs with
  | none => (false, r)
  | some value => (true, { r with pairs := Table.without slot r.pairs ++ [(slot, value)] })

/-- Carries out an operation; clearing forgets all slots. -/
def perform (r : Row α) : Operation α → Answer α × Row α
  | .pushBack value => (.pushed (r.pushBack value).1, (r.pushBack value).2)
  | .popFront => (.taken r.popFront.1, r.popFront.2)
  | .remove slot => (.taken (r.remove slot).1, (r.remove slot).2)
  | .moveToBack slot => (.moved (r.moveToBack slot).1, (r.moveToBack slot).2)
  | .clear => (.cleared, empty)

end Row

namespace SlotList

variable {α : Type}

/-! ## Slots that wait to be used again -/

/-- A new node takes the slot freed last, or a new one behind all others. -/
theorem slots_allocate (l : SlotList α) (node : Node α) :
    (l.allocate node).1 = l.free.headD l.slots.size ∧
      (l.allocate node).2.free = l.free.tail ∧
      (l.allocate node).2.slots.size =
        if l.free = [] then l.slots.size + 1 else l.slots.size := by
  cases hfree : l.free with
  | nil =>
      simp only [SlotList.allocate, hfree]
      exact ⟨rfl, rfl, Array.size_push _⟩
  | cons slot rest =>
      simp only [SlotList.allocate, hfree]
      exact ⟨rfl, rfl, Array.size_setIfInBounds⟩

/-- A value gets the slot that was freed last, or a new one if there is none. -/
theorem slots_pushBack (l : SlotList α) (value : α) :
    (l.pushBack value).1 = l.free.headD l.slots.size ∧
      (l.pushBack value).2.free = l.free.tail ∧
      (l.pushBack value).2.slots.size =
        if l.free = [] then l.slots.size + 1 else l.slots.size := by
  obtain ⟨hslot, hfree, hsize⟩ := l.slots_allocate ⟨value, l.tail, none⟩
  rw [pushBack_eq]
  refine ⟨hslot, ?_, ?_⟩
  · show (SlotList.linkNext _ _ _).free = _
    rw [free_linkNext, hfree]
  · show (SlotList.linkNext _ _ _).slots.size = _
    rw [size_slots_linkNext, hsize]

/-- The slot of a node that is taken out waits to be used next. -/
theorem slots_remove {l : SlotList α} {slot : Nat} {node : Node α}
    (h : l.node? slot = some node) :
    (l.remove slot).2.free = slot :: l.free ∧
      (l.remove slot).2.slots.size = l.slots.size := by
  obtain ⟨hfree, -, hslots⟩ := detach_keeps h
  simp only [SlotList.remove, h]
  constructor
  · rw [hfree]
  · rw [Array.size_setIfInBounds, hslots]

/-- No slot comes or goes when a node is moved. -/
theorem slots_moveToBack (l : SlotList α) (slot : Nat) :
    (l.moveToBack slot).2.free = l.free ∧
      (l.moveToBack slot).2.slots.size = l.slots.size := by
  cases hnode : l.node? slot with
  | none =>
      simp only [SlotList.moveToBack, hnode]
      exact ⟨trivial, trivial⟩
  | some node =>
      obtain ⟨hfree, -, hslots⟩ := detach_keeps hnode
      by_cases htail : l.tail = some slot
      · simp only [SlotList.moveToBack, hnode, if_pos htail]
        exact ⟨trivial, trivial⟩
      · simp only [SlotList.moveToBack, hnode, if_neg htail]
        rw [attachBack_eq]
        constructor
        · show (SlotList.linkNext _ _ _).free = _
          rw [free_linkNext]
          exact hfree
        · show (SlotList.linkNext _ _ _).slots.size = _
          rw [size_slots_linkNext, size_slots_modify]
          exact hslots

/-! ## The list follows the row -/

/-- The list holds the pairs of the row, and the same slots wait to be used
    again. -/
structure Fills (l : SlotList α) (r : Row α) : Prop where
  holds : l.Holds r.pairs
  free : l.free = r.freed
  width : l.slots.size = r.width

/-- Leaving out a slot that cuts a chain leaves the two parts. -/
theorem without_split {pre post : List (Nat × α)} {slot : Nat} {value : α}
    (h : (slotsOf (pre ++ (slot, value) :: post)).Nodup) :
    Table.without slot (pre ++ (slot, value) :: post) = pre ++ post := by
  obtain ⟨-, hslot⟩ := nodup_split h
  have hrest : ∀ p ∈ pre ++ post, p.1 ≠ slot := by
    intro p hp hp'
    exact hslot (hp' ▸ List.mem_map_of_mem hp)
  have hkept : Table.without slot (pre ++ post) = pre ++ post := by
    refine List.filter_eq_self.mpr fun p hp => ?_
    simpa using hrest p hp
  rw [← hkept]
  simp [Table.without]

/-- A slot that is found in a row cuts it in two. -/
theorem exists_split_of_find? {ps : List (Nat × α)} (h : (slotsOf ps).Nodup) {slot : Nat}
    {value : α} (hfind : Table.find? slot ps = some value) :
    ∃ pre post, ps = pre ++ (slot, value) :: post :=
  List.append_of_mem ((Table.find?_eq_some h).mp hfind)

theorem fills_empty : (empty : SlotList α).Fills .empty := ⟨holds_empty, rfl, rfl⟩

namespace Fills

variable {l : SlotList α} {r : Row α}

/-- A value is put at the end, in the same slot, on both sides. -/
theorem pushBack (h : l.Fills r) (value : α) :
    (l.pushBack value).1 = (r.pushBack value).1 ∧
      (l.pushBack value).2.Fills (r.pushBack value).2 := by
  obtain ⟨-, hholds⟩ := h.holds.pushBack value
  obtain ⟨hslot, hfree, hsize⟩ := l.slots_pushBack value
  rw [h.free, h.width] at hslot hsize
  rw [h.free] at hfree
  rw [hslot] at hholds
  cases hfreed : r.freed with
  | nil =>
      simp only [hfreed, List.headD_nil, List.tail_nil, if_pos] at hslot hholds hfree hsize
      simp only [Row.pushBack, hfreed]
      exact ⟨hslot, hholds, hfree, hsize⟩
  | cons slot rest =>
      simp only [hfreed, List.headD_cons, List.tail_cons, reduceCtorEq, if_false]
        at hslot hholds hfree hsize
      simp only [Row.pushBack, hfreed]
      exact ⟨hslot, hholds, hfree, hsize⟩

/-- The same value is taken from the front on both sides. -/
theorem popFront (h : l.Fills r) :
    l.popFront.1 = r.popFront.1 ∧ l.popFront.2.Fills r.popFront.2 := by
  have hholds := h.holds
  cases hpairs : r.pairs with
  | nil =>
      rw [hpairs] at hholds
      simp only [Row.popFront, hpairs, hholds.popFront_nil]
      exact ⟨trivial, h⟩
  | cons p rest =>
      obtain ⟨slot, value⟩ := p
      rw [hpairs] at hholds
      obtain ⟨hvalue, hrest⟩ := hholds.popFront
      obtain ⟨hfree, hsize⟩ := slots_remove hholds.linked.1
      have hhead : l.head = some slot := hholds.head
      simp only [SlotList.popFront, hhead] at hvalue hrest ⊢
      simp only [Row.popFront, hpairs]
      refine ⟨hvalue, hrest, ?_, ?_⟩
      · rw [hfree, h.free]
      · rw [hsize, h.width]

/-- The same value is taken out by its slot on both sides. -/
theorem remove (h : l.Fills r) (slot : Nat) :
    (l.remove slot).1 = (r.remove slot).1 ∧ (l.remove slot).2.Fills (r.remove slot).2 := by
  cases hfind : Table.find? slot r.pairs with
  | none =>
      have hslot : slot ∉ slotsOf r.pairs := Table.find?_eq_none.mp hfind
      simp only [Row.remove, hfind, h.holds.remove_vacant hslot]
      exact ⟨trivial, h⟩
  | some value =>
      obtain ⟨pre, post, hsplit⟩ := exists_split_of_find? h.holds.nodup hfind
      have hholds := h.holds
      rw [hsplit] at hholds
      obtain ⟨hvalue, hrest⟩ := hholds.remove
      obtain ⟨hfree, hsize⟩ := slots_remove (node?_of_linked hholds.linked)
      simp only [Row.remove, hfind]
      refine ⟨hvalue, ?_, ?_, ?_⟩
      · show (l.remove slot).2.Holds (Table.without slot r.pairs)
        rw [hsplit, without_split hholds.nodup]
        exact hrest
      · rw [hfree, h.free]
      · rw [hsize, h.width]

/-- The same value moves to the end on both sides. -/
theorem moveToBack (h : l.Fills r) (slot : Nat) :
    (l.moveToBack slot).1 = (r.moveToBack slot).1 ∧
      (l.moveToBack slot).2.Fills (r.moveToBack slot).2 := by
  cases hfind : Table.find? slot r.pairs with
  | none =>
      have hslot : slot ∉ slotsOf r.pairs := Table.find?_eq_none.mp hfind
      simp only [Row.moveToBack, hfind, h.holds.moveToBack_vacant hslot]
      exact ⟨trivial, h⟩
  | some value =>
      obtain ⟨pre, post, hsplit⟩ := exists_split_of_find? h.holds.nodup hfind
      have hholds := h.holds
      rw [hsplit] at hholds
      obtain ⟨hmoved, hrest⟩ := hholds.moveToBack
      obtain ⟨hfree, hsize⟩ := l.slots_moveToBack slot
      simp only [Row.moveToBack, hfind]
      refine ⟨hmoved, ?_, hfree.trans h.free, hsize.trans h.width⟩
      show (l.moveToBack slot).2.Holds (Table.without slot r.pairs ++ [(slot, value)])
      rw [hsplit, without_split hholds.nodup]
      exact hrest

/-- Every operation answers the same on both sides and keeps them so. -/
theorem perform (h : l.Fills r) (op : Operation α) :
    (l.perform op).1 = (r.perform op).1 ∧ (l.perform op).2.Fills (r.perform op).2 := by
  cases op with
  | pushBack value =>
      obtain ⟨hslot, hfills⟩ := h.pushBack value
      exact ⟨congrArg Answer.pushed hslot, hfills⟩
  | popFront =>
      obtain ⟨hvalue, hfills⟩ := h.popFront
      exact ⟨congrArg Answer.taken hvalue, hfills⟩
  | remove slot =>
      obtain ⟨hvalue, hfills⟩ := h.remove slot
      exact ⟨congrArg Answer.taken hvalue, hfills⟩
  | moveToBack slot =>
      obtain ⟨hmoved, hfills⟩ := h.moveToBack slot
      exact ⟨congrArg Answer.moved hmoved, hfills⟩
  | clear => exact ⟨rfl, fills_empty⟩

end Fills

/-- No operation on a list that holds a chain leaves a range or misses a
    slot. -/
theorem Holds.checkedPerform_eq {l : SlotList α} {ps : List (Nat × α)} (h : l.Holds ps)
    (op : Operation α) : l.checkedPerform op = some (l.perform op) := by
  cases op with
  | pushBack value =>
      rw [checkedPerform, h.checkedPushBack_eq]
      rfl
  | popFront =>
      rw [checkedPerform, h.checkedPopFront_eq]
      rfl
  | remove slot =>
      rw [checkedPerform, h.checkedRemove_eq]
      rfl
  | moveToBack slot => rfl
  | clear => rfl

/-! ## Looking at the list -/

/-- Whoever follows `link` from `cursor` on meets the nodes of these slots with
    these values, one after another, and then the end. -/
def Meets (l : SlotList α) (link : Node α → Option Nat) : Option Nat → List (Nat × α) → Prop
  | cursor, [] => cursor = none
  | cursor, (slot, value) :: rest =>
      cursor = some slot ∧
        ∃ node, l.node? slot = some node ∧ node.value = value ∧ l.Meets link (link node) rest

theorem meets_next {l : SlotList α} {before : Option Nat} {ps : List (Nat × α)}
    (h : l.Linked before ps none) : l.Meets Node.next (firstSlot ps) ps := by
  induction ps generalizing before with
  | nil => rfl
  | cons p rest ih =>
      obtain ⟨slot, value⟩ := p
      obtain ⟨hnode, hrest⟩ := h
      rw [Option.or_none] at hnode
      exact ⟨rfl, _, hnode, rfl, ih hrest⟩

/-- The way back is that of the chain without its last pair, which comes
    first. -/
theorem meets_prev {l : SlotList α} {after : Option Nat} {ps : List (Nat × α)}
    (h : l.Linked none ps after) : l.Meets Node.prev (lastSlot ps) ps.reverse := by
  induction ps using List.reverseRecOn generalizing after with
  | nil => rfl
  | append_singleton init p ih =>
      obtain ⟨slot, value⟩ := p
      obtain ⟨hinit, hlast, -⟩ := (linked_append ..).mp h
      rw [Option.or_none] at hlast
      rw [lastSlot_concat, List.reverse_concat]
      exact ⟨rfl, _, hlast, rfl, ih hinit⟩

/-- The value at the cursor is the first one that is met. -/
theorem Meets.value_eq {l : SlotList α} {link : Node α → Option Nat} {cursor : Option Nat}
    {ps : List (Nat × α)} (h : l.Meets link cursor ps) :
    (cursor.bind l.node?).map Node.value = ps.head?.map Prod.snd := by
  cases ps with
  | nil =>
      have hcursor : cursor = none := h
      rw [hcursor]
      rfl
  | cons p rest =>
      obtain ⟨slot, value⟩ := p
      obtain ⟨hcursor, node, hnode, hvalue, -⟩ := h
      rw [hcursor]
      show (l.node? slot).map Node.value = some value
      rw [hnode, ← hvalue]
      rfl

/-- What is seen of a list is the row. -/
structure Shows (l : SlotList α) (r : Row α) : Prop where
  -- no slot occurs twice, and all of them exist
  distinct : (r.pairs.map Prod.fst).Nodup
  width : l.slots.size = r.width
  -- the links run through the row, forwards from the head and backwards from the tail
  forwards : l.Meets Node.next l.head r.pairs
  backwards : l.Meets Node.prev l.tail r.pairs.reverse
  -- whoever reads on for as many steps as there are values, or more, has read the values
  reads : ∀ steps, l.size ≤ steps → l.valuesFrom steps l.head = r.pairs.map Prod.snd
  values : l.toList = r.pairs.map Prod.snd
  size : l.size = r.pairs.length
  front : l.front? = r.pairs.head?.map Prod.snd
  back : l.back? = r.pairs.getLast?.map Prod.snd
  -- each empty slot waits to be used again, and no slot waits twice
  freed : l.free = r.freed
  free_nodup : l.free.Nodup
  mem_free : ∀ slot, slot ∈ l.free ↔ l.slots[slot]? = some none

/-- A slot without a node is one that exists and lies outside the chain. -/
theorem Holds.empty_iff {l : SlotList α} {ps : List (Nat × α)} (h : l.Holds ps) (slot : Nat) :
    l.slots[slot]? = some none ↔ slot < l.slots.size ∧ slot ∉ slotsOf ps := by
  constructor
  · intro hempty
    refine ⟨(Array.getElem?_eq_some_iff.mp hempty).1, fun hmem => ?_⟩
    obtain ⟨pre, value, post, hsplit⟩ := exists_split hmem
    have hlinked := h.linked
    rw [hsplit] at hlinked
    have hnode := node?_of_linked hlinked
    rw [node?, hempty] at hnode
    cases hnode
  · rintro ⟨hlt, hslot⟩
    have hnode := h.vacant slot hslot
    rw [node?, Array.getElem?_eq_getElem hlt] at hnode
    rw [Array.getElem?_eq_getElem hlt]
    exact congrArg some hnode

/-- The value in a slot is the one of its pair, and no slot outside the chain
    has one. -/
theorem Holds.value_eq_some {l : SlotList α} {ps : List (Nat × α)} (h : l.Holds ps) {slot : Nat}
    {value : α} : (l.node? slot).map Node.value = some value ↔ (slot, value) ∈ ps := by
  constructor
  · intro hvalue
    obtain ⟨node, hnode, rfl⟩ := Option.map_eq_some_iff.mp hvalue
    have hmem : slot ∈ slotsOf ps := by
      by_contra hslot
      rw [h.vacant slot hslot] at hnode
      cases hnode
    obtain ⟨pre, value, post, rfl⟩ := exists_split hmem
    rw [node?_of_linked h.linked] at hnode
    cases hnode
    simp
  · intro hmem
    obtain ⟨pre, post, rfl⟩ := List.append_of_mem hmem
    rw [node?_of_linked h.linked]
    rfl

/-- The front of a list is the first value of its row. -/
theorem Holds.front?_eq {l : SlotList α} {ps : List (Nat × α)} (h : l.Holds ps) :
    l.front? = ps.head?.map Prod.snd := by
  have hmeets : l.Meets Node.next l.head ps := h.head ▸ meets_next h.linked
  exact hmeets.value_eq

/-- The back of a list is the last value of its row. -/
theorem Holds.back?_eq {l : SlotList α} {ps : List (Nat × α)} (h : l.Holds ps) :
    l.back? = ps.getLast?.map Prod.snd := by
  have hmeets : l.Meets Node.prev l.tail ps.reverse := h.tail ▸ meets_prev h.linked
  have hback := hmeets.value_eq
  rwa [List.head?_reverse] at hback

/-- A list that fills a row shows it to whoever looks, in every way of
    looking. -/
theorem Fills.shows {l : SlotList α} {r : Row α} (h : l.Fills r) : l.Shows r where
  distinct := h.holds.nodup
  width := h.width
  forwards := h.holds.head ▸ meets_next h.holds.linked
  backwards := h.holds.tail ▸ meets_prev h.holds.linked
  reads := by
    intro steps hsteps
    rw [h.holds.size] at hsteps
    rw [h.holds.head]
    exact valuesFrom_of_linked h.holds.linked hsteps
  values := h.holds.toList_eq
  size := h.holds.size
  front := h.holds.front?_eq
  back := h.holds.back?_eq
  freed := h.free
  free_nodup := h.holds.free_nodup
  mem_free := fun slot => (h.holds.mem_free slot).trans (h.holds.empty_iff slot).symm

/-- Whatever is done to a new list, with handles of any age: all answers are
    those of a row, no step leaves its range or misses a slot, and what is
    seen of the list is the row. -/
theorem performs_as_row (ops : List (Operation α)) :
    (carryOut perform ops empty).1 = (carryOut Row.perform ops .empty).1 ∧
      carryOut? checkedPerform ops empty = some (carryOut perform ops empty) ∧
      (carryOut perform ops empty).2.Shows (carryOut Row.perform ops .empty).2 := by
  obtain ⟨hanswers, hfills⟩ :=
    carryOut_related (R := Fills) (fun _ _ op h => h.perform op) (fills_empty (α := α)) ops
  have hchecked := carryOut?_eq (P := fun l : SlotList α => ∃ r, l.Fills r)
    (fun _ op ⟨_, h⟩ => ⟨h.holds.checkedPerform_eq op, _, (h.perform op).2⟩)
    ⟨_, fills_empty⟩ ops
  exact ⟨hanswers, hchecked, hfills.shows⟩

end SlotList

end ExpiringCache
