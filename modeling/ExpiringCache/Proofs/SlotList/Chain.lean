import ExpiringCache.SlotList

/-! # Chains of linked nodes

    A chain is a list of slots with the values in them, and it is `Linked`
    if the node in each slot names the slots beside it.  Two facts carry all
    that follows: a chain can be cut anywhere (`linked_append`), and it only
    depends on the nodes in its own slots (`linked_congr`).  Relinking one
    end of a chain then leaves the rest of it alone. -/

namespace ExpiringCache.SlotList

variable {α : Type}

/-- The slots of a chain, in order. -/
def slotsOf (ps : List (Nat × α)) : List Nat := ps.map Prod.fst

/-- The first slot of a chain. -/
def firstSlot (ps : List (Nat × α)) : Option Nat := (slotsOf ps).head?

/-- The last slot of a chain. -/
def lastSlot (ps : List (Nat × α)) : Option Nat := (slotsOf ps).getLast?

/-- The nodes in the slots of a chain hold its values and name each other, the
    first one `before` and the last one `after`. -/
def Linked (l : SlotList α) : Option Nat → List (Nat × α) → Option Nat → Prop
  | _, [], _ => True
  | before, (slot, v) :: rest, after =>
      l.node? slot = some ⟨v, before, (firstSlot rest).or after⟩ ∧
        l.Linked (some slot) rest after

/-! ## Slots of chains -/

@[simp] theorem slotsOf_nil : slotsOf ([] : List (Nat × α)) = [] := rfl

@[simp] theorem slotsOf_cons (p : Nat × α) (ps : List (Nat × α)) :
    slotsOf (p :: ps) = p.1 :: slotsOf ps := rfl

/-- The slots of two chains put together are those of the one and then those
    of the other. -/
@[simp] theorem slotsOf_append (ps qs : List (Nat × α)) :
    slotsOf (ps ++ qs) = slotsOf ps ++ slotsOf qs :=
  List.map_append

@[simp] theorem firstSlot_nil : firstSlot ([] : List (Nat × α)) = none := rfl

@[simp] theorem firstSlot_cons (p : Nat × α) (ps : List (Nat × α)) :
    firstSlot (p :: ps) = some p.1 := rfl

@[simp] theorem lastSlot_nil : lastSlot ([] : List (Nat × α)) = none := rfl

/-- A chain put together of two begins where the first does, unless that is
    empty. -/
theorem firstSlot_append (ps qs : List (Nat × α)) :
    firstSlot (ps ++ qs) = (firstSlot ps).or (firstSlot qs) := by
  unfold firstSlot
  rw [slotsOf_append, List.head?_append]

/-- A chain put together of two ends where the second does, unless that is
    empty. -/
theorem lastSlot_append (ps qs : List (Nat × α)) :
    lastSlot (ps ++ qs) = (lastSlot qs).or (lastSlot ps) := by
  unfold lastSlot
  rw [slotsOf_append, List.getLast?_append]

@[simp] theorem lastSlot_concat (ps : List (Nat × α)) (p : Nat × α) :
    lastSlot (ps ++ [p]) = some p.1 := by
  rw [lastSlot_append]
  rfl

/-- What is put in front of a chain is its end only if the chain is empty. -/
theorem lastSlot_cons (p : Nat × α) (ps : List (Nat × α)) :
    lastSlot (p :: ps) = (lastSlot ps).or (some p.1) :=
  lastSlot_append [p] ps

/-- A chain with a slot has a last one. -/
theorem exists_lastSlot_cons (p : Nat × α) (ps : List (Nat × α)) :
    ∃ slot, lastSlot (p :: ps) = some slot := by
  rw [lastSlot_cons]
  cases lastSlot ps with
  | none => exact ⟨p.1, rfl⟩
  | some slot => exact ⟨slot, rfl⟩

/-- The first slot of a chain is one of its slots. -/
theorem mem_of_firstSlot {ps : List (Nat × α)} {slot : Nat}
    (h : firstSlot ps = some slot) : slot ∈ slotsOf ps :=
  List.mem_of_head? h

/-- The last slot of a chain is one of its slots. -/
theorem mem_of_lastSlot {ps : List (Nat × α)} {slot : Nat}
    (h : lastSlot ps = some slot) : slot ∈ slotsOf ps :=
  List.mem_of_getLast? h

/-- A slot of a chain cuts it in two. -/
theorem exists_split {ps : List (Nat × α)} {slot : Nat} (h : slot ∈ slotsOf ps) :
    ∃ pre v post, ps = pre ++ (slot, v) :: post := by
  obtain ⟨p, hp, hs⟩ := List.mem_map.mp h
  obtain ⟨pre, post, hsplit⟩ := List.append_of_mem hp
  refine ⟨pre, p.2, post, ?_⟩
  rw [hsplit, ← hs]

/-! ## Nodes after a change -/

/-- To modify the node in a slot leaves the nodes in all other slots alone. -/
theorem node?_modify (l : SlotList α) (slot t : Nat) (f : Node α → Node α) :
    (l.modify slot f).node? t = if slot = t then (l.node? t).map f else l.node? t := by
  unfold node? modify
  rw [Array.getElem?_modify]
  split
  · cases l.slots[t]? with
    | none => rfl
    | some content => rfl
  · rfl

/-- A node that is there is found as it has been modified. -/
theorem node?_modify_same {l : SlotList α} {slot : Nat} {node : Node α}
    (f : Node α → Node α) (h : l.node? slot = some node) :
    (l.modify slot f).node? slot = some (f node) := by
  rw [node?_modify, if_pos rfl, h]
  rfl

/-- What is done to the node in one slot is not seen in another. -/
theorem node?_modify_ne {l : SlotList α} {slot t : Nat} (f : Node α → Node α)
    (h : slot ≠ t) : (l.modify slot f).node? t = l.node? t := by
  rw [node?_modify, if_neg h]

@[simp] theorem size_slots_modify (l : SlotList α) (slot : Nat) (f : Node α → Node α) :
    (l.modify slot f).slots.size = l.slots.size :=
  Array.size_modify

/-- A slot that holds a node lies within the array. -/
theorem lt_of_node? {l : SlotList α} {slot : Nat} {node : Node α}
    (h : l.node? slot = some node) : slot < l.slots.size := by
  unfold node? at h
  cases hs : l.slots[slot]? with
  | none =>
      rw [hs] at h
      exact nomatch h
  | some content => exact (Array.getElem?_eq_some_iff.mp hs).1

/-! ## Chains -/

/-- A chain can be cut anywhere. -/
theorem linked_append (l : SlotList α) (before after : Option Nat)
    (ps qs : List (Nat × α)) :
    l.Linked before (ps ++ qs) after ↔
      l.Linked before ps ((firstSlot qs).or after) ∧
        l.Linked ((lastSlot ps).or before) qs after := by
  induction ps generalizing before with
  | nil => simp [Linked]
  | cons p rest ih =>
      obtain ⟨slot, v⟩ := p
      simp only [List.cons_append, Linked, ih, firstSlot_append, lastSlot_cons,
        Option.or_assoc, Option.some_or, and_assoc]

/-- A chain only depends on the nodes in its own slots. -/
theorem linked_congr {l l' : SlotList α} {before after : Option Nat}
    {ps : List (Nat × α)} (h : ∀ slot ∈ slotsOf ps, l'.node? slot = l.node? slot)
    (hl : l.Linked before ps after) : l'.Linked before ps after := by
  induction ps generalizing before with
  | nil => trivial
  | cons p rest ih =>
      obtain ⟨slot, v⟩ := p
      obtain ⟨hnode, hrest⟩ := hl
      refine ⟨?_, ih (fun t ht => h t (List.mem_cons_of_mem _ ht)) hrest⟩
      rw [h slot (List.mem_cons_self ..)]
      exact hnode

/-- The node in a slot of a chain names the slots beside it. -/
theorem node?_of_linked {l : SlotList α} {before after : Option Nat}
    {pre post : List (Nat × α)} {slot : Nat} {v : α}
    (h : l.Linked before (pre ++ (slot, v) :: post) after) :
    l.node? slot = some ⟨v, (lastSlot pre).or before, (firstSlot post).or after⟩ :=
  ((linked_append l before after pre _).mp h).2.1

/-- The slots of a chain are slots of the list. -/
theorem lt_of_linked {l : SlotList α} {before after : Option Nat}
    {ps : List (Nat × α)} (h : l.Linked before ps after) :
    ∀ slot ∈ slotsOf ps, slot < l.slots.size := by
  intro slot hs
  obtain ⟨pre, v, post, rfl⟩ := exists_split hs
  exact lt_of_node? (node?_of_linked h)

/-- Following the links of a chain meets its values. -/
theorem valuesFrom_of_linked {l : SlotList α} {before : Option Nat}
    {ps : List (Nat × α)} (h : l.Linked before ps none) {steps : Nat}
    (hsteps : ps.length ≤ steps) :
    l.valuesFrom steps (firstSlot ps) = ps.map Prod.snd := by
  induction ps generalizing before steps with
  | nil =>
      cases steps with
      | zero => rfl
      | succ steps => rfl
  | cons p rest ih =>
      obtain ⟨slot, v⟩ := p
      obtain ⟨hnode, hrest⟩ := h
      cases steps with
      | zero => exact absurd hsteps (by simp)
      | succ steps =>
          have hle : rest.length ≤ steps := Nat.le_of_succ_le_succ hsteps
          rw [Option.or_none] at hnode
          simp only [firstSlot_cons, valuesFrom, hnode, List.map_cons]
          rw [ih hrest hle]

/-! ## Relinking an end -/

/-- Makes `after` what follows the slot `before`, or the head if there is no
    such slot. -/
def linkNext (l : SlotList α) (before after : Option Nat) : SlotList α :=
  match before with
  | some slot => l.modify slot fun n => { n with next := after }
  | none => { l with head := after }

/-- Makes `before` what precedes the slot `after`, or the tail if there is no
    such slot. -/
def linkPrev (l : SlotList α) (after before : Option Nat) : SlotList α :=
  match after with
  | some slot => l.modify slot fun n => { n with prev := before }
  | none => { l with tail := before }

/-- To link forward changes one node at most, that before the link. -/
theorem node?_linkNext_ne {l : SlotList α} {before after : Option Nat} {t : Nat}
    (h : before ≠ some t) : (l.linkNext before after).node? t = l.node? t := by
  cases before with
  | none => rfl
  | some slot => exact node?_modify_ne _ fun e => h (congrArg some e)

/-- To link backward changes one node at most, that behind the link. -/
theorem node?_linkPrev_ne {l : SlotList α} {after before : Option Nat} {t : Nat}
    (h : after ≠ some t) : (l.linkPrev after before).node? t = l.node? t := by
  cases after with
  | none => rfl
  | some slot => exact node?_modify_ne _ fun e => h (congrArg some e)

@[simp] theorem head_linkPrev (l : SlotList α) (after before : Option Nat) :
    (l.linkPrev after before).head = l.head := by
  cases after with
  | none => rfl
  | some slot => rfl

@[simp] theorem tail_linkNext (l : SlotList α) (before after : Option Nat) :
    (l.linkNext before after).tail = l.tail := by
  cases before with
  | none => rfl
  | some slot => rfl

/-- A slot that is not in a chain is not its last. -/
theorem lastSlot_ne {ps : List (Nat × α)} {slot : Nat} (h : slot ∉ slotsOf ps) :
    lastSlot ps ≠ some slot :=
  fun e => h (mem_of_lastSlot e)

/-- A slot that is not in a chain is not its first. -/
theorem firstSlot_ne {ps : List (Nat × α)} {slot : Nat} (h : slot ∉ slotsOf ps) :
    firstSlot ps ≠ some slot :=
  fun e => h (mem_of_firstSlot e)

/-- The last node of a chain may be made to name another successor. -/
theorem linked_linkNext {l : SlotList α} {before after : Option Nat}
    {ps : List (Nat × α)} (h : l.Linked before ps after) (hn : (slotsOf ps).Nodup)
    (after' : Option Nat) :
    (l.linkNext (lastSlot ps) after').Linked before ps after' := by
  rcases List.eq_nil_or_concat ps with rfl | ⟨init, p, rfl⟩
  · trivial
  · obtain ⟨slot, v⟩ := p
    rw [List.concat_eq_append] at h hn ⊢
    rw [slotsOf_append, List.nodup_append] at hn
    obtain ⟨-, -, hne⟩ := hn
    obtain ⟨hinit, hlast, -⟩ := (linked_append ..).mp h
    rw [lastSlot_concat, linked_append]
    refine ⟨linked_congr (fun t ht => ?_) hinit, ?_, trivial⟩
    · exact node?_modify_ne _ fun e => hne t ht slot (by simp) e.symm
    · exact node?_modify_same _ hlast

/-- The first node of a chain may be made to name another predecessor. -/
theorem linked_linkPrev {l : SlotList α} {before after : Option Nat}
    {ps : List (Nat × α)} (h : l.Linked before ps after) (hn : (slotsOf ps).Nodup)
    (before' : Option Nat) :
    (l.linkPrev (firstSlot ps) before').Linked before' ps after := by
  cases ps with
  | nil => trivial
  | cons p rest =>
      obtain ⟨slot, v⟩ := p
      rw [slotsOf_cons, List.nodup_cons] at hn
      obtain ⟨hfirst, hrest⟩ := h
      refine ⟨node?_modify_same _ hfirst, linked_congr (fun t ht => ?_) hrest⟩
      exact node?_modify_ne _ fun e => hn.1 (e ▸ ht)

end ExpiringCache.SlotList
