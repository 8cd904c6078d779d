import ExpiringCache.Table
import Mathlib.Data.List.Nodup
import Mathlib.Data.List.Perm.Lattice

/-! # Lists of entries

    A table looks its keys up in a list of entries, and so does a cache that
    is nothing but such a list.  This file says what a look-up finds after
    entries were appended, dropped or left out.  As long as no key is listed
    twice, what the look-ups find determines the list up to its order, and a
    part of a given list altogether. -/

namespace ExpiringCache

variable {K V : Type}

/-- Of a list without repetitions, only one part has given members. -/
theorem eq_of_sublist {all part others : List K} (hnodup : all.Nodup) (h : part.Sublist all)
    (h' : others.Sublist all) (hmem : ∀ a, a ∈ part ↔ a ∈ others) : part = others := by
  induction all generalizing part others with
  | nil => rw [List.sublist_nil.mp h, List.sublist_nil.mp h']
  | cons a rest ih =>
      obtain ⟨hnot, hrest⟩ := List.nodup_cons.mp hnodup
      cases h with
      | cons _ h => cases h' with
        | cons _ h' => exact ih hrest h h' hmem
        | cons_cons _ h' => exact absurd (h.subset ((hmem a).mpr List.mem_cons_self)) hnot
      | cons_cons _ h => cases h' with
        | cons _ h' => exact absurd (h'.subset ((hmem a).mp List.mem_cons_self)) hnot
        | cons_cons _ h' =>
            -- the first element is none of those that come later
            have hne : ∀ b ∈ rest, b ≠ a := by
              rintro b hb rfl
              exact hnot hb
            refine congrArg (a :: ·) (ih hrest h h' fun b => ⟨fun hb => ?_, fun hb => ?_⟩)
            · exact (List.mem_cons.mp ((hmem b).mp (List.mem_cons_of_mem a hb))).resolve_left
                (hne b (h.subset hb))
            · exact (List.mem_cons.mp ((hmem b).mpr (List.mem_cons_of_mem a hb))).resolve_left
                (hne b (h'.subset hb))

namespace Table

theorem nodup_filter {entries : List (K × V)} (h : (entries.map Prod.fst).Nodup)
    (p : K × V → Bool) : ((entries.filter p).map Prod.fst).Nodup :=
  h.sublist (List.filter_sublist.map Prod.fst)

variable [DecidableEq K]

theorem find?_append (k : K) (entries more : List (K × V)) :
    find? k (entries ++ more) = (find? k entries).or (find? k more) := by
  induction entries with
  | nil => rfl
  | cons entry rest ih =>
      obtain ⟨key, value⟩ := entry
      by_cases hk : key = k
      · simp only [List.cons_append, find?, if_pos hk, Option.some_or]
      · simp only [List.cons_append, find?, if_neg hk, ih]

theorem find?_eq_none {k : K} {entries : List (K × V)} :
    find? k entries = none ↔ k ∉ entries.map Prod.fst := by
  rw [← find?_isSome, Option.not_isSome_iff_eq_none]

/-- In a list without repetitions every entry is found under its key. -/
theorem find?_eq_some {k : K} {value : V} {entries : List (K × V)}
    (h : (entries.map Prod.fst).Nodup) :
    find? k entries = some value ↔ (k, value) ∈ entries := by
  induction entries with
  | nil =>
      constructor
      · intro hf
        exact nomatch hf
      · intro hm
        exact nomatch hm
  | cons entry rest ih =>
      obtain ⟨key, v⟩ := entry
      rw [List.map_cons, List.nodup_cons] at h
      by_cases hk : key = k
      · subst hk
        simp only [find?, if_pos, List.mem_cons]
        constructor
        · intro hv
          cases hv
          exact Or.inl rfl
        · rintro (hv | hm)
          · cases hv
            rfl
          · exact absurd (List.mem_map.mpr ⟨(key, value), hm, rfl⟩) h.1
      · simp only [find?, if_neg hk, List.mem_cons, ih h.2]
        constructor
        · exact Or.inr
        · rintro (hv | hm)
          · exact absurd (congrArg Prod.fst hv).symm hk
          · exact hm

/-- After the first entries were dropped, exactly their keys are not found
    any more. -/
theorem find?_drop {entries : List (K × V)} (h : (entries.map Prod.fst).Nodup) (n : Nat)
    (k : K) :
    find? k (entries.drop n) =
      if k ∈ (entries.map Prod.fst).take n then none else find? k entries := by
  have hsplit := find?_append k (entries.take n) (entries.drop n)
  rw [List.take_append_drop] at hsplit
  rw [← List.map_take]
  split
  · rename_i hk
    -- a key among the dropped entries does not occur a second time
    rw [← List.take_append_drop n entries, List.map_append] at h
    exact find?_eq_none.mpr (List.disjoint_of_nodup_append h hk)
  · rename_i hk
    rw [hsplit, find?_eq_none.mpr hk, Option.none_or]

/-- Where entries were left out, a look-up finds what it found before unless
    that was left out. -/
theorem find?_filter {entries : List (K × V)} (h : (entries.map Prod.fst).Nodup)
    (p : K × V → Bool) (k : K) :
    find? k (entries.filter p) = (find? k entries).filter fun value => p (k, value) := by
  refine Option.ext fun value => ?_
  rw [find?_eq_some (nodup_filter h p), List.mem_filter, Option.filter_eq_some_iff,
    find?_eq_some h]

/-- Two lists in which the same is found have the same entries. -/
theorem perm_of_find? {entries others : List (K × V)} (h : (entries.map Prod.fst).Nodup)
    (ho : (others.map Prod.fst).Nodup) (heq : ∀ k, find? k entries = find? k others) :
    entries.Perm others := by
  refine (List.perm_ext_iff_of_nodup (List.Nodup.of_map _ h) (List.Nodup.of_map _ ho)).mpr ?_
  rintro ⟨k, value⟩
  rw [← find?_eq_some h, ← find?_eq_some ho, heq k]

/-- In what order the entries of a list come does not matter to a look-up. -/
theorem find?_perm {entries others : List (K × V)} (h : (entries.map Prod.fst).Nodup)
    (hperm : entries.Perm others) (k : K) : find? k entries = find? k others := by
  have ho : (others.map Prod.fst).Nodup := (hperm.map Prod.fst).nodup_iff.mp h
  refine Option.ext fun value => ?_
  rw [find?_eq_some h, find?_eq_some ho, hperm.mem_iff]

/-- Tables that are left of one table are equal if the same is found in
    both. -/
theorem eq_of_sublist {all t t' : Table K V} (h : t.entries.Sublist all.entries)
    (h' : t'.entries.Sublist all.entries) (heq : ∀ key, t.get? key = t'.get? key) : t = t' := by
  have hentries : t.entries = t'.entries := by
    refine ExpiringCache.eq_of_sublist all.nodup.of_map h h' fun entry => ?_
    obtain ⟨key, value⟩ := entry
    rw [← find?_eq_some t.nodup, ← find?_eq_some t'.nodup]
    exact iff_of_eq (congrArg (· = some value) (heq key))
  obtain ⟨entries, hnodup⟩ := t
  obtain ⟨entries', hnodup'⟩ := t'
  cases hentries
  rfl

end Table

end ExpiringCache
