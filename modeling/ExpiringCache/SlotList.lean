/-! # Slot lists

    A doubly linked list whose nodes live in numbered slots.  A slot number
    is a handle: it finds, unlinks and moves its node without a search.
    Slots of removed nodes are used again, the one freed last first, so a
    handle that outlived its node may find a newer one, an empty slot, or,
    after the list was cleared, no slot at all.

    `toList` is what the list stands for: the values met when the links are
    followed from the head. -/

namespace ExpiringCache

/-- A value with the slots of its neighbours. -/
structure Node (α : Type) where
  value : α
  prev : Option Nat
  next : Option Nat
  deriving DecidableEq, Repr

/-- A linked list in numbered slots. -/
structure SlotList (α : Type) where
  -- the slots; an empty one holds no node
  slots : Array (Option (Node α))
  -- the empty slots, the one freed last first
  free : List Nat
  head : Option Nat
  tail : Option Nat
  size : Nat
  deriving DecidableEq, Repr

namespace SlotList

variable {α : Type}

/-- The list without slots. -/
def empty : SlotList α := ⟨#[], [], none, none, 0⟩

instance : Inhabited (SlotList α) := ⟨empty⟩

/-! ## Looking at nodes -/

/-- The node in a slot, if there is one. -/
def node? (l : SlotList α) (slot : Nat) : Option (Node α) := l.slots[slot]?.join

/-- The first value. -/
def front? (l : SlotList α) : Option α := (l.head.bind l.node?).map Node.value

/-- The last value. -/
def back? (l : SlotList α) : Option α := (l.tail.bind l.node?).map Node.value

/-- The slots met from `cursor` on when the links to the next node are
    followed, at most `steps` of them. -/
def slotsFrom (l : SlotList α) : Nat → Option Nat → List Nat
  | 0, _ => []
  | _, none => []
  | steps + 1, some slot =>
      match l.node? slot with
      | none => []
      | some node => slot :: l.slotsFrom steps node.next

/-- The values met from `cursor` on when the links to the next node are
    followed, at most `steps` of them. -/
def valuesFrom (l : SlotList α) : Nat → Option Nat → List α
  | 0, _ => []
  | _, none => []
  | steps + 1, some slot =>
      match l.node? slot with
      | none => []
      | some node => node.value :: l.valuesFrom steps node.next

/-- The values from head to tail. -/
def toList (l : SlotList α) : List α := l.valuesFrom l.slots.size l.head

/-! ## Changing nodes -/

/-- Changes the node in a slot, if there is one. -/
def modify (l : SlotList α) (slot : Nat) (f : Node α → Node α) : SlotList α :=
  { l with slots := l.slots.modify slot (Option.map f) }

/-- Puts a node into the slot freed last, or into a new one at the end. -/
def allocate (l : SlotList α) (node : Node α) : Nat × SlotList α :=
  match l.free with
  | slot :: rest => (slot, { l with slots := l.slots.setIfInBounds slot (some node), free := rest })
  | [] => (l.slots.size, { l with slots := l.slots.push (some node) })

/-- Makes the neighbours of the node in `slot` each other's neighbours and
    leaves that node without any. -/
def detach (l : SlotList α) (slot : Nat) : SlotList α :=
  match l.node? slot with
  | none => l
  | some node =>
      let l := match node.prev with
        | some before => l.modify before fun n => { n with next := node.next }
        | none => { l with head := node.next }
      let l := match node.next with
        | some after => l.modify after fun n => { n with prev := node.prev }
        | none => { l with tail := node.prev }
      l.modify slot fun n => { n with prev := none, next := none }

/-- Links the node in `slot` behind the last one. -/
def attachBack (l : SlotList α) (slot : Nat) : SlotList α :=
  let last := l.tail
  let l := l.modify slot fun n => { n with prev := last, next := none }
  let l := match last with
    | some before => l.modify before fun n => { n with next := some slot }
    | none => { l with head := some slot }
  { l with tail := some slot }

/-! ## The operations of a list -/

/-- Appends a value and answers its slot. -/
def pushBack (l : SlotList α) (value : α) : Nat × SlotList α :=
  let last := l.tail
  let (slot, l) := l.allocate ⟨value, last, none⟩
  let l := match last with
    | some before => l.modify before fun n => { n with next := some slot }
    | none => { l with head := some slot }
  (slot, { l with tail := some slot, size := l.size + 1 })

/-- Takes the node in `slot` out, if there is one, and answers its value. -/
def remove (l : SlotList α) (slot : Nat) : Option α × SlotList α :=
  match l.node? slot with
  | none => (none, l)
  | some node =>
      let l := l.detach slot
      (some node.value,
        { l with
          slots := l.slots.setIfInBounds slot none
          free := slot :: l.free
          size := l.size - 1 })

/-- Takes the first node out, if there is one, and answers its value. -/
def popFront (l : SlotList α) : Option α × SlotList α :=
  match l.head with
  | none => (none, l)
  | some slot => l.remove slot

/-- Moves the node in `slot` to the end; `false` if the slot is empty. -/
def moveToBack (l : SlotList α) (slot : Nat) : Bool × SlotList α :=
  match l.node? slot with
  | none => (false, l)
  | some _ =>
      if l.tail = some slot then (true, l)
      else (true, (l.detach slot).attachBack slot)

/-- Forgets all nodes and all slots. -/
def clear (_ : SlotList α) : SlotList α := empty

end SlotList

end ExpiringCache
