/-! # Tables: finite maps with one entry per key

    A table lists its entries in the order in which their keys first came
    in.  That no key is listed twice is part of the type, so the size of a
    table is the number of its keys and a look-up does not depend on where
    an entry stands. -/

namespace ExpiringCache

/-- A finite map from `K` to `V`. -/
structure Table (K V : Type) where
  entries : List (K × V)
  nodup : (entries.map Prod.fst).Nodup
  deriving DecidableEq

namespace Table

variable {K V : Type}

/-! ## Entry lists -/

section Entries

variable [DecidableEq K]

/-- The first value listed under `key`. -/
def find? (key : K) : List (K × V) → Option V
  | [] => none
  | (k, v) :: rest => if k = key then some v else find? key rest

/-- Puts `value` where `key` stands, or at the end if it does not occur. -/
def place (key : K) (value : V) : List (K × V) → List (K × V)
  | [] => [(key, value)]
  | (k, v) :: rest =>
      if k = key then (key, value) :: rest else (k, v) :: place key value rest

/-- Leaves out every entry of `key`. -/
def without (key : K) (entries : List (K × V)) : List (K × V) :=
  entries.filter fun entry => !decide (entry.1 = key)

/-- To place a value adds its key and no other. -/
theorem mem_keys_place {key k : K} {value : V} {entries : List (K × V)} :
    k ∈ (place key value entries).map Prod.fst ↔
      k = key ∨ k ∈ entries.map Prod.fst := by
  induction entries with
  | nil => simp [place]
  | cons entry rest ih =>
      obtain ⟨k', v'⟩ := entry
      by_cases h : k' = key
      · subst h
        simp [place]
      · simp only [place, if_neg h, List.map_cons, List.mem_cons, ih]
        constructor
        · rintro (h | h | h)
          · exact Or.inr (Or.inl h)
          · exact Or.inl h
          · exact Or.inr (Or.inr h)
        · rintro (h | h | h)
          · exact Or.inr (Or.inl h)
          · exact Or.inl h
          · exact Or.inr (Or.inr h)

/-- No key is listed twice after a value has been placed. -/
theorem nodup_place {key : K} {value : V} {entries : List (K × V)}
    (h : (entries.map Prod.fst).Nodup) :
    ((place key value entries).map Prod.fst).Nodup := by
  induction entries with
  | nil => simp [place]
  | cons entry rest ih =>
      obtain ⟨k', v'⟩ := entry
      rw [List.map_cons, List.nodup_cons] at h
      by_cases hk : k' = key
      · subst hk
        simpa [place] using h
      · simp only [place, if_neg hk, List.map_cons, List.nodup_cons]
        refine ⟨fun hmem => ?_, ih h.2⟩
        rcases mem_keys_place.mp hmem with hmem | hmem
        · exact hk hmem
        · exact h.1 hmem

theorem nodup_without {key : K} {entries : List (K × V)}
    (h : (entries.map Prod.fst).Nodup) :
    ((without key entries).map Prod.fst).Nodup :=
  h.sublist (List.filter_sublist.map Prod.fst)

end Entries

/-! ## Operations -/

/-- The table without entries. -/
def empty : Table K V := ⟨[], List.nodup_nil⟩

instance : Inhabited (Table K V) := ⟨empty⟩

/-- The number of entries. -/
def size (t : Table K V) : Nat := t.entries.length

/-- Whether there is no entry. -/
def isEmpty (t : Table K V) : Bool := t.entries.isEmpty

/-- The keys, oldest first. -/
def keys (t : Table K V) : List K := t.entries.map Prod.fst

/-- The values, in the order of their keys. -/
def values (t : Table K V) : List V := t.entries.map Prod.snd

variable [DecidableEq K]

/-- The value kept under `key`. -/
def get? (t : Table K V) (key : K) : Option V := find? key t.entries

/-- Whether something is kept under `key`. -/
def contains (t : Table K V) (key : K) : Bool := (t.get? key).isSome

/-- Keeps `value` under `key`, in place of what was there. -/
def insert (t : Table K V) (key : K) (value : V) : Table K V :=
  ⟨place key value t.entries, nodup_place t.nodup⟩

/-- Forgets `key`. -/
def erase (t : Table K V) (key : K) : Table K V :=
  ⟨without key t.entries, nodup_without t.nodup⟩

/-! ## What look-ups see -/

@[simp] theorem get?_empty (key : K) : (empty : Table K V).get? key = none := rfl

/-- A value that has been placed is found under its key, and nothing else has
    changed. -/
theorem find?_place (key k : K) (value : V) (entries : List (K × V)) :
    find? k (place key value entries) =
      if key = k then some value else find? k entries := by
  induction entries with
  | nil => simp [place, find?]
  | cons entry rest ih =>
      obtain ⟨k', v'⟩ := entry
      by_cases hk : k' = key
      · subst hk
        by_cases h : k' = k <;> simp [place, find?, h]
      · by_cases h : key = k
        · subst h
          simp [place, find?, hk, ih]
        · simp [place, find?, hk, h, ih]

/-- A key that has been left out is not found, and nothing else has changed. -/
theorem find?_without (key k : K) (entries : List (K × V)) :
    find? k (without key entries) = if key = k then none else find? k entries := by
  induction entries with
  | nil => simp [without, find?]
  | cons entry rest ih =>
      obtain ⟨k', v'⟩ := entry
      have ih' : find? k (rest.filter fun entry => !decide (entry.1 = key)) =
          if key = k then none else find? k rest := ih
      by_cases hk : k' = key
      · subst hk
        by_cases h : k' = k
        · subst h
          simp [without, ih']
        · simp [without, find?, h, ih']
      · by_cases h : key = k
        · subst h
          simp [without, find?, hk, ih']
        · simp [without, find?, hk, h, ih']

/-- What was inserted under a key is found there, and nothing else has
    changed. -/
theorem get?_insert (t : Table K V) (key k : K) (value : V) :
    (t.insert key value).get? k = if key = k then some value else t.get? k :=
  find?_place key k value t.entries

/-- What was erased is not found, and nothing else has changed. -/
theorem get?_erase (t : Table K V) (key k : K) :
    (t.erase key).get? k = if key = k then none else t.get? k :=
  find?_without key k t.entries

theorem find?_isSome {key : K} {entries : List (K × V)} :
    (find? key entries).isSome = true ↔ key ∈ entries.map Prod.fst := by
  induction entries with
  | nil => simp [find?]
  | cons entry rest ih =>
      obtain ⟨k', v'⟩ := entry
      by_cases hk : k' = key
      · simp [find?, hk]
      · simp only [find?, if_neg hk, ih, List.map_cons, List.mem_cons]
        constructor
        · exact Or.inr
        · rintro (h | h)
          · exact absurd h.symm hk
          · exact h

theorem contains_iff {t : Table K V} {key : K} :
    t.contains key = true ↔ key ∈ t.keys :=
  find?_isSome

end Table

/-- A finite set of keys. -/
abbrev KeySet (K : Type) := Table K Unit

end ExpiringCache
