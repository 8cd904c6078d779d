import ExpiringCache.Proofs.SlotList.Chain

/-! # What a slot list holds

    A slot list is `Ordered` by a chain if the chain is linked from its head
    to its tail.  It `Holds` the chain if, besides, it counts its nodes,
    every other slot is empty, and exactly the empty slots wait to be used
    again, each once.  Every operation turns a list that holds one chain
    into a list that holds another: appending, unlinking and moving are what
    they are on plain lists. -/

namespace ExpiringCache.SlotList

variable {α : Type}

/-- The list runs through the chain `ps`, from its head to its tail. -/
structure Ordered (l : SlotList α) (ps : List (Nat × α)) : Prop where
  linked : l.Linked none ps none
  nodup : (slotsOf ps).Nodup
  head : l.head = firstSlot ps
  tail : l.tail = lastSlot ps

/-- The list runs through the chain `ps` and has no other nodes; the empty
    slots are the ones that wait to be used again. -/
structure Holds (l : SlotList α) (ps : List (Nat × α)) : Prop extends Ordered l ps where
  size : l.size = ps.length
  vacant : ∀ slot, slot ∉ slotsOf ps → l.node? slot = none
  free_nodup : l.free.Nodup
  mem_free : ∀ slot, slot ∈ l.free ↔ slot < l.slots.size ∧ slot ∉ slotsOf ps

/-! ## Slots outside a chain -/

/-- The slots of the two parts of a chain and the slot between them differ. -/
theorem nodup_split {pre post : List (Nat × α)} {slot : Nat} {v : α}
    (h : (slotsOf (pre ++ (slot, v) :: post)).Nodup) :
    (slotsOf (pre ++ post)).Nodup ∧ slot ∉ slotsOf (pre ++ post) := by
  rw [slotsOf_append, slotsOf_cons] at h
  have hperm : (slotsOf pre ++ slot :: slotsOf post).Perm
      (slot :: (slotsOf pre ++ slotsOf post)) := List.perm_middle
  rw [hperm.nodup_iff, List.nodup_cons, ← slotsOf_append] at h
  exact ⟨h.2, h.1⟩

/-- The slots of a chain are those of its two parts and the one between. -/
theorem mem_split {pre post : List (Nat × α)} {slot t : Nat} {v : α} :
    t ∈ slotsOf (pre ++ (slot, v) :: post) ↔ t = slot ∨ t ∈ slotsOf (pre ++ post) := by
  simp only [slotsOf_append, slotsOf_cons, List.mem_append, List.mem_cons]
  constructor
  · rintro (h | h | h)
    · exact Or.inr (Or.inl h)
    · exact Or.inl h
    · exact Or.inr (Or.inr h)
  · rintro (h | h | h)
    · exact Or.inr (Or.inl h)
    · exact Or.inl h
    · exact Or.inr (Or.inr h)

/-! ## Chains that a list runs through -/

/-- Only the head, the tail and the nodes of the chain matter. -/
theorem Ordered.congr {l l' : SlotList α} {ps : List (Nat × α)} (h : l.Ordered ps)
    (hnode : ∀ slot ∈ slotsOf ps, l'.node? slot = l.node? slot)
    (hhead : l'.head = l.head) (htail : l'.tail = l.tail) : l'.Ordered ps :=
  ⟨linked_congr hnode h.linked, h.nodup, hhead.trans h.head, htail.trans h.tail⟩

/-- A node beyond the last one that names it as its predecessor may be linked
    behind it. -/
theorem Ordered.append {l : SlotList α} {ps : List (Nat × α)} {slot : Nat} {v : α}
    (h : l.Ordered ps) (hslot : slot ∉ slotsOf ps)
    (hnode : l.node? slot = some ⟨v, lastSlot ps, none⟩) :
    Ordered { l.linkNext l.tail (some slot) with tail := some slot } (ps ++ [(slot, v)]) := by
  rw [h.tail]
  refine ⟨?_, ?_, ?_, ?_⟩
  · refine linked_congr (fun t _ => rfl) (l := l.linkNext (lastSlot ps) (some slot)) ?_
    rw [linked_append, Option.or_none]
    refine ⟨linked_linkNext h.linked h.nodup (some slot), ?_, trivial⟩
    rw [node?_linkNext_ne (lastSlot_ne hslot), Option.or_none]
    exact hnode
  · rw [slotsOf_append, List.nodup_append]
    refine ⟨h.nodup, by simp, fun a ha b hb => ?_⟩
    rintro rfl
    rw [slotsOf_cons, slotsOf_nil, List.mem_singleton] at hb
    subst hb
    exact hslot ha
  · cases ps with
    | nil => rfl
    | cons p rest =>
        obtain ⟨last, hlast⟩ := exists_lastSlot_cons p rest
        rw [hlast]
        exact h.head
  · exact (lastSlot_concat ps (slot, v)).symm

/-- Unlinking makes the neighbours of a node each other's neighbours. -/
theorem detach_eq {l : SlotList α} {slot : Nat} {node : Node α}
    (h : l.node? slot = some node) :
    l.detach slot =
      ((l.linkNext node.prev node.next).linkPrev node.next node.prev).modify slot
        fun n => { n with prev := none, next := none } := by
  obtain ⟨v, prev, next⟩ := node
  unfold detach
  rw [h]
  cases prev with
  | none => cases next with
    | none => rfl
    | some after => rfl
  | some before => cases next with
    | none => rfl
    | some after => rfl

/-- The list without one of its nodes runs through what is left of the
    chain; the node stays in its slot without neighbours. -/
theorem Ordered.detach {l : SlotList α} {pre post : List (Nat × α)} {slot : Nat} {v : α}
    (h : l.Ordered (pre ++ (slot, v) :: post)) :
    (l.detach slot).Ordered (pre ++ post) ∧
      (l.detach slot).node? slot = some ⟨v, none, none⟩ ∧
      ∀ t, t ∉ slotsOf (pre ++ (slot, v) :: post) →
        (l.detach slot).node? t = l.node? t := by
  have hnode := node?_of_linked h.linked
  rw [Option.or_none, Option.or_none] at hnode
  obtain ⟨hpre, -, hpost⟩ := (linked_append ..).mp h.linked
  obtain ⟨hnodup, hslot⟩ := nodup_split h.nodup
  obtain ⟨hnpre, hnpost, hdisj⟩ := List.nodup_append.mp (slotsOf_append pre post ▸ hnodup)
  rw [slotsOf_append, List.mem_append, not_or] at hslot
  rw [detach_eq hnode]
  -- the two relinked ends lie in different parts, so each part sees one of them
  have hkept : ∀ t, lastSlot pre ≠ some t → firstSlot post ≠ some t →
      ((l.linkNext (lastSlot pre) (firstSlot post)).linkPrev (firstSlot post)
        (lastSlot pre)).node? t = l.node? t := by
    intro t h1 h2
    rw [node?_linkPrev_ne h2, node?_linkNext_ne h1]
  have hself := (hkept slot (lastSlot_ne hslot.1) (firstSlot_ne hslot.2)).trans hnode
  refine ⟨⟨?_, hnodup, ?_, ?_⟩, node?_modify_same _ hself, fun t ht => ?_⟩
  · rw [linked_append, Option.or_none, Option.or_none]
    constructor
    · refine linked_congr (fun t ht => ?_) (linked_linkNext hpre hnpre (firstSlot post))
      rw [node?_modify_ne _ (ne_of_mem_of_not_mem ht hslot.1).symm]
      exact node?_linkPrev_ne (firstSlot_ne fun hp => hdisj t ht t hp rfl)
    · refine linked_congr (fun t ht => ?_) (linked_linkPrev hpost hnpost (lastSlot pre))
      rw [node?_modify_ne _ (ne_of_mem_of_not_mem ht hslot.2).symm]
      cases hf : firstSlot post with
      | none => exact node?_linkNext_ne (lastSlot_ne fun hp => hdisj t hp t ht rfl)
      | some first =>
          have hne : lastSlot pre ≠ some t := lastSlot_ne fun hp => hdisj t hp t ht rfl
          show ((l.linkNext _ _).modify first _).node? t = (l.modify first _).node? t
          rw [node?_modify, node?_modify, node?_linkNext_ne hne]
  · show ((l.linkNext _ _).linkPrev _ _).head = _
    rw [head_linkPrev]
    cases pre with
    | nil => rfl
    | cons p rest =>
        obtain ⟨last, hlast⟩ := exists_lastSlot_cons p rest
        rw [hlast]
        exact h.head
  · cases post with
    | nil => rw [List.append_nil]; rfl
    | cons q rest =>
        show (l.linkNext _ _).tail = _
        rw [tail_linkNext, h.tail]
        obtain ⟨last, hlast⟩ := exists_lastSlot_cons q rest
        rw [lastSlot_append, lastSlot_append, lastSlot_cons, hlast]
        rfl
  · rw [mem_split, slotsOf_append, List.mem_append, not_or, not_or] at ht
    obtain ⟨hts, htpre, htpost⟩ := ht
    rw [node?_modify_ne _ (fun e => hts e.symm)]
    exact hkept t (lastSlot_ne htpre) (firstSlot_ne htpost)

/-! ## What relinking leaves alone -/

@[simp] theorem free_linkNext (l : SlotList α) (before after : Option Nat) :
    (l.linkNext before after).free = l.free := by
  cases before with
  | none => rfl
  | some slot => rfl

@[simp] theorem free_linkPrev (l : SlotList α) (after before : Option Nat) :
    (l.linkPrev after before).free = l.free := by
  cases after with
  | none => rfl
  | some slot => rfl

@[simp] theorem size_linkNext (l : SlotList α) (before after : Option Nat) :
    (l.linkNext before after).size = l.size := by
  cases before with
  | none => rfl
  | some slot => rfl

@[simp] theorem size_linkPrev (l : SlotList α) (after before : Option Nat) :
    (l.linkPrev after before).size = l.size := by
  cases after with
  | none => rfl
  | some slot => rfl

@[simp] theorem size_slots_linkNext (l : SlotList α) (before after : Option Nat) :
    (l.linkNext before after).slots.size = l.slots.size := by
  cases before with
  | none => rfl
  | some slot => exact size_slots_modify l slot _

@[simp] theorem size_slots_linkPrev (l : SlotList α) (after before : Option Nat) :
    (l.linkPrev after before).slots.size = l.slots.size := by
  cases after with
  | none => rfl
  | some slot => exact size_slots_modify l slot _

/-- Unlinking a node keeps the slots and the counts. -/
theorem detach_keeps {l : SlotList α} {slot : Nat} {node : Node α}
    (h : l.node? slot = some node) :
    (l.detach slot).free = l.free ∧ (l.detach slot).size = l.size ∧
      (l.detach slot).slots.size = l.slots.size := by
  rw [detach_eq h]
  refine ⟨?_, ?_, ?_⟩
  · show ((l.linkNext _ _).linkPrev _ _).free = l.free
    rw [free_linkPrev, free_linkNext]
  · show ((l.linkNext _ _).linkPrev _ _).size = l.size
    rw [size_linkPrev, size_linkNext]
  · rw [size_slots_modify, size_slots_linkPrev, size_slots_linkNext]

/-! ## Taking nodes out -/

/-- The empty list holds nothing. -/
theorem holds_empty : (empty : SlotList α).Holds [] where
  linked := trivial
  nodup := List.nodup_nil
  head := rfl
  tail := rfl
  size := rfl
  vacant := fun _ _ => rfl
  free_nodup := List.nodup_nil
  mem_free := fun slot => by simp [empty]

/-- A slot that was vacated holds no node. -/
theorem node?_vacate (l : SlotList α) (slot t : Nat) (free : List Nat) (size : Nat) :
    node? { l with slots := l.slots.setIfInBounds slot none, free := free, size := size } t =
      if slot = t then none else l.node? t := by
  show ((l.slots.setIfInBounds slot none)[t]?).join = _
  rw [Array.getElem?_setIfInBounds]
  split
  · split
    · rfl
    · rfl
  · rfl

/-- Removing a slot of the chain takes its pair out and answers the value. -/
theorem Holds.remove {l : SlotList α} {pre post : List (Nat × α)} {slot : Nat} {v : α}
    (h : l.Holds (pre ++ (slot, v) :: post)) :
    (l.remove slot).1 = some v ∧ (l.remove slot).2.Holds (pre ++ post) := by
  have hnode := node?_of_linked h.linked
  obtain ⟨hord, hself, hframe⟩ := h.toOrdered.detach
  obtain ⟨hfree, hsize, hslots⟩ := detach_keeps hnode
  obtain ⟨-, hslot⟩ := nodup_split h.nodup
  have hlt : slot < l.slots.size := lt_of_node? hnode
  simp only [SlotList.remove, hnode]
  have hvac := fun t => node?_vacate (l.detach slot) slot t (slot :: (l.detach slot).free)
    ((l.detach slot).size - 1)
  refine ⟨trivial, hord.congr (fun t ht => ?_) rfl rfl, ?_, fun t ht => ?_, ?_, fun t => ?_⟩
  · rw [hvac, if_neg (ne_of_mem_of_not_mem ht hslot).symm]
  · show (l.detach slot).size - 1 = _
    rw [hsize, h.size]
    simp only [List.length_append, List.length_cons]
    omega
  · rw [hvac]
    split
    · rfl
    · rename_i hne
      have ht' : t ∉ slotsOf (pre ++ (slot, v) :: post) := by
        rw [mem_split, not_or]
        exact ⟨fun e => hne e.symm, ht⟩
      rw [hframe t ht']
      exact h.vacant t ht'
  · show (slot :: (l.detach slot).free).Nodup
    rw [hfree, List.nodup_cons]
    refine ⟨fun hmem => ?_, h.free_nodup⟩
    exact ((h.mem_free slot).mp hmem).2 (by simp)
  · show t ∈ slot :: (l.detach slot).free ↔
      t < ((l.detach slot).slots.setIfInBounds slot none).size ∧ _
    rw [List.mem_cons, hfree, h.mem_free, Array.size_setIfInBounds, hslots]
    rw [mem_split, not_or]
    constructor
    · rintro (rfl | ⟨hl, -, ht⟩)
      · exact ⟨hlt, hslot⟩
      · exact ⟨hl, ht⟩
    · rintro ⟨hl, ht⟩
      by_cases hts : t = slot
      · exact Or.inl hts
      · exact Or.inr ⟨hl, hts, ht⟩

/-- Removing any other slot does nothing. -/
theorem Holds.remove_vacant {l : SlotList α} {ps : List (Nat × α)} {slot : Nat}
    (h : l.Holds ps) (hslot : slot ∉ slotsOf ps) : l.remove slot = (none, l) := by
  simp only [SlotList.remove, h.vacant slot hslot]

/-- Taking the first node out takes the first pair. -/
theorem Holds.popFront {l : SlotList α} {ps : List (Nat × α)} {slot : Nat} {v : α}
    (h : l.Holds ((slot, v) :: ps)) :
    l.popFront.1 = some v ∧ l.popFront.2.Holds ps := by
  have hhead : l.head = some slot := h.head
  simp only [SlotList.popFront, hhead]
  have hfirst : l.Holds ([] ++ (slot, v) :: ps) := h
  exact hfirst.remove

/-- Nothing is taken from a list that holds nothing. -/
theorem Holds.popFront_nil {l : SlotList α} (h : l.Holds []) :
    l.popFront = (none, l) := by
  have hhead : l.head = none := h.head
  simp only [SlotList.popFront, hhead]

/-! ## Putting nodes in -/

/-- The slot that a new node goes into was empty, and nothing else changes
    but that it does not wait any more. -/
theorem Holds.allocate {l : SlotList α} {ps : List (Nat × α)} (h : l.Holds ps)
    (node : Node α) :
    (l.allocate node).1 ∉ slotsOf ps ∧
      (∀ t, (l.allocate node).2.node? t =
        if (l.allocate node).1 = t then some node else l.node? t) ∧
      (l.allocate node).2.free.Nodup ∧
      ∀ t, t ∈ (l.allocate node).2.free ↔
        t < (l.allocate node).2.slots.size ∧ t ≠ (l.allocate node).1 ∧ t ∉ slotsOf ps := by
  cases hfree : l.free with
  | nil =>
      -- no slot is free, so the new one lies behind all others
      simp only [SlotList.allocate, hfree]
      refine ⟨fun hmem => ?_, fun t => ?_, List.nodup_nil, fun t => ?_⟩
      · exact Nat.lt_irrefl _ (lt_of_linked h.linked _ hmem)
      · show ((l.slots.push (some node))[t]?).join = _
        rw [Array.getElem?_push]
        by_cases ht : l.slots.size = t
        · rw [if_pos ht, if_pos ht.symm]
          rfl
        · rw [if_neg ht, if_neg (Ne.symm ht)]
          rfl
      · rw [Array.size_push]
        refine ⟨fun hmem => (nomatch hmem), fun ⟨hlt, hne, hps⟩ => ?_⟩
        have hmem := (h.mem_free t).mpr ⟨by omega, hps⟩
        rw [hfree] at hmem
        exact nomatch hmem
  | cons slot rest =>
      simp only [SlotList.allocate, hfree]
      have hnd := h.free_nodup
      rw [hfree, List.nodup_cons] at hnd
      obtain ⟨hlt, hslot⟩ := (h.mem_free slot).mp (hfree ▸ List.mem_cons_self ..)
      refine ⟨hslot, fun t => ?_, hnd.2, fun t => ?_⟩
      · show ((l.slots.setIfInBounds slot (some node))[t]?).join = _
        rw [Array.getElem?_setIfInBounds]
        split
        · rfl
        · rfl
      · have hmem := h.mem_free t
        rw [hfree, List.mem_cons] at hmem
        rw [Array.size_setIfInBounds]
        constructor
        · intro ht
          obtain ⟨hl, hps⟩ := hmem.mp (Or.inr ht)
          exact ⟨hl, ne_of_mem_of_not_mem ht hnd.1, hps⟩
        · rintro ⟨hl, hne, hps⟩
          exact (hmem.mpr ⟨hl, hps⟩).resolve_left hne

/-- Giving a new node its slot changes neither the ends nor the count. -/
theorem allocate_keeps (l : SlotList α) (node : Node α) :
    (l.allocate node).2.head = l.head ∧ (l.allocate node).2.tail = l.tail ∧
      (l.allocate node).2.size = l.size := by
  cases hfree : l.free with
  | nil =>
      simp only [SlotList.allocate, hfree]
      exact ⟨trivial, trivial, trivial⟩
  | cons slot rest =>
      simp only [SlotList.allocate, hfree]
      exact ⟨trivial, trivial, trivial⟩

/-- Appending a value is giving it a slot and linking that behind the last. -/
theorem pushBack_eq (l : SlotList α) (v : α) :
    l.pushBack v =
      let new := l.allocate ⟨v, l.tail, none⟩
      (new.1, { new.2.linkNext l.tail (some new.1) with
        tail := some new.1, size := new.2.size + 1 }) := by
  simp only [SlotList.pushBack]
  cases l.tail with
  | none => rfl
  | some last => rfl

/-- Appending a value appends a pair with a slot of its own. -/
theorem Holds.pushBack {l : SlotList α} {ps : List (Nat × α)} (h : l.Holds ps) (v : α) :
    (l.pushBack v).1 ∉ slotsOf ps ∧
      (l.pushBack v).2.Holds (ps ++ [((l.pushBack v).1, v)]) := by
  obtain ⟨hslot, hnode, hnd, hmem⟩ := h.allocate ⟨v, l.tail, none⟩
  obtain ⟨hhead, htail, hsize⟩ := allocate_keeps l ⟨v, l.tail, none⟩
  rw [pushBack_eq]
  generalize l.allocate ⟨v, l.tail, none⟩ = new at *
  obtain ⟨slot, m⟩ := new
  simp only at *
  -- the slot lies outside the chain, so the chain is still in order
  have hord : m.Ordered ps := by
    refine h.toOrdered.congr (fun t ht => ?_) hhead htail
    rw [hnode t, if_neg (ne_of_mem_of_not_mem ht hslot).symm]
  have hself : m.node? slot = some ⟨v, lastSlot ps, none⟩ := by
    rw [hnode slot, if_pos rfl, h.tail]
  have happ := hord.append hslot hself
  rw [htail] at happ
  refine ⟨hslot, happ.congr (fun _ _ => rfl) rfl rfl, ?_, fun t ht => ?_, ?_, fun t => ?_⟩
  · show m.size + 1 = _
    rw [hsize, h.size, List.length_append]
    rfl
  · rw [slotsOf_append, List.mem_append, not_or] at ht
    have hts : slot ≠ t := fun e => ht.2 (by simp [e])
    show (m.linkNext _ _).node? t = none
    rw [h.tail, node?_linkNext_ne (lastSlot_ne ht.1), hnode t, if_neg hts]
    exact h.vacant t ht.1
  · show (m.linkNext _ _).free.Nodup
    rw [free_linkNext]
    exact hnd
  · show t ∈ (m.linkNext _ _).free ↔ t < (m.linkNext _ _).slots.size ∧ _
    rw [free_linkNext, size_slots_linkNext, hmem t, slotsOf_append, List.mem_append, not_or]
    simp only [slotsOf_cons, slotsOf_nil, List.mem_singleton]
    constructor
    · rintro ⟨hl, hne, hps⟩
      exact ⟨hl, hps, hne⟩
    · rintro ⟨hl, hps, hne⟩
      exact ⟨hl, hne, hps⟩

/-! ## Moving nodes -/

/-- Linking a detached node behind the last one. -/
theorem attachBack_eq (l : SlotList α) (slot : Nat) :
    l.attachBack slot =
      { (l.modify slot fun n => { n with prev := l.tail, next := none }).linkNext
          l.tail (some slot) with tail := some slot } := by
  simp only [SlotList.attachBack]
  cases l.tail with
  | none => rfl
  | some last => rfl

/-- Moving a slot of the chain to the back moves its pair there. -/
theorem Holds.moveToBack {l : SlotList α} {pre post : List (Nat × α)} {slot : Nat} {v : α}
    (h : l.Holds (pre ++ (slot, v) :: post)) :
    (l.moveToBack slot).1 = true ∧
      (l.moveToBack slot).2.Holds (pre ++ post ++ [(slot, v)]) := by
  have hnode := node?_of_linked h.linked
  obtain ⟨hnodup, hslot⟩ := nodup_split h.nodup
  by_cases htail : l.tail = some slot
  · -- the node is the last one already, so nothing follows it in the chain
    have hnil : post = [] := by
      cases post with
      | nil => rfl
      | cons q rest =>
          obtain ⟨last, hlast⟩ := exists_lastSlot_cons q rest
          have ht := h.tail
          rw [htail, lastSlot_append, lastSlot_cons, hlast] at ht
          have hmem : slot ∈ slotsOf (q :: rest) :=
            mem_of_lastSlot (hlast.trans ht.symm)
          exact absurd (by rw [slotsOf_append]; exact List.mem_append_right _ hmem) hslot
    subst hnil
    simp only [SlotList.moveToBack, hnode, if_pos htail, List.append_nil]
    exact ⟨trivial, h⟩
  · simp only [SlotList.moveToBack, hnode, if_neg htail]
    refine ⟨trivial, ?_⟩
    obtain ⟨hord, hself, hframe⟩ := h.toOrdered.detach
    obtain ⟨hfree, hsize, hslots⟩ := detach_keeps hnode
    rw [attachBack_eq]
    generalize l.detach slot = m at *
    have hself' := node?_modify_same
      (fun n => { n with prev := m.tail, next := none }) hself
    have hord' : (m.modify slot fun n => { n with prev := m.tail, next := none }).Ordered
        (pre ++ post) := by
      refine hord.congr (fun t ht => ?_) rfl rfl
      exact node?_modify_ne _ (ne_of_mem_of_not_mem ht hslot).symm
    have happ := hord'.append hslot (by rw [hself', hord.tail])
    refine ⟨happ, ?_, fun t ht => ?_, ?_, fun t => ?_⟩
    · show ((m.modify slot _).linkNext _ _).size = _
      rw [size_linkNext]
      show m.size = _
      rw [hsize, h.size]
      simp only [List.length_append, List.length_cons, List.length_nil]
      omega
    · rw [slotsOf_append, List.mem_append, not_or] at ht
      have hts : slot ≠ t := fun e => ht.2 (by simp [e])
      have hps : t ∉ slotsOf (pre ++ (slot, v) :: post) := by
        rw [mem_split, not_or]
        exact ⟨hts.symm, ht.1⟩
      show ((m.modify slot _).linkNext _ _).node? t = none
      rw [hord.tail, node?_linkNext_ne (lastSlot_ne ht.1), node?_modify_ne _ hts, hframe t hps]
      exact h.vacant t hps
    · show ((m.modify slot _).linkNext _ _).free.Nodup
      rw [free_linkNext]
      show m.free.Nodup
      rw [hfree]
      exact h.free_nodup
    · show t ∈ ((m.modify slot _).linkNext _ _).free ↔
        t < ((m.modify slot _).linkNext _ _).slots.size ∧ _
      rw [free_linkNext, size_slots_linkNext, size_slots_modify]
      show t ∈ m.free ↔ _
      rw [hfree, hslots, h.mem_free t, mem_split, slotsOf_append (pre ++ post), List.mem_append]
      simp only [slotsOf_cons, slotsOf_nil, List.mem_singleton]
      rw [or_comm]

/-- Moving any other slot does nothing. -/
theorem Holds.moveToBack_vacant {l : SlotList α} {ps : List (Nat × α)} {slot : Nat}
    (h : l.Holds ps) (hslot : slot ∉ slotsOf ps) : l.moveToBack slot = (false, l) := by
  simp only [SlotList.moveToBack, h.vacant slot hslot]

/-! ## What the list stands for -/

/-- The values met on the way from the head are those of the chain. -/
theorem Holds.toList_eq {l : SlotList α} {ps : List (Nat × α)} (h : l.Holds ps) :
    l.toList = ps.map Prod.snd := by
  have hlen : (slotsOf ps).length ≤ (List.range l.slots.size).length :=
    h.nodup.length_le_of_subset fun t ht => List.mem_range.mpr (lt_of_linked h.linked t ht)
  have hps : ps.length ≤ l.slots.size := by
    simpa [slotsOf] using hlen
  unfold toList
  rw [h.head]
  exact valuesFrom_of_linked h.linked hps

end ExpiringCache.SlotList
