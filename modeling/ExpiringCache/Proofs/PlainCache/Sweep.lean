import ExpiringCache.Proofs.Cache.Erosion
import ExpiringCache.Proofs.PlainCache.Alike

/-! # A sweep forgets expired entries

    Whatever the notices say and however the keys are indexed, a sweep does
    to the entries what a plain cache does when it is told to forget some
    keys: it deletes those of them that are expired, and it moves nothing.
    Which keys these are is the business of the index; here it is enough
    that each step of a sweep forgets none or one. -/

namespace ExpiringCache

variable {K V : Type} [DecidableEq K]

namespace PlainCache

variable {p : PlainCache K V}

/-- Nothing is forgotten if no key is named. -/
theorem forget_nil (p : PlainCache K V) : p.forget [] = p := by
  show { p with entries := p.entries.filter fun _ => true } = p
  rw [List.filter_true]

/-- Forgetting a single key with an expired entry erases the entry. -/
theorem forget_eq_erase (h : (p.entries.map Prod.fst).Nodup) {key : K} {item : Item V}
    (hfind : Table.find? key p.entries = some item) (hexp : item.isExpiredAt p.now = true) :
    p.forget [key] = p.erase key := by
  have hentries : p.entries.filter (fun entry =>
      !([key].contains entry.1 && entry.2.isExpiredAt p.now)) =
        Table.without key p.entries := by
    refine List.filter_congr fun entry hentry => ?_
    have hown := (Table.find?_eq_some h).mpr (show (entry.1, entry.2) ∈ p.entries from hentry)
    by_cases hk : entry.1 = key
    · rw [hk, hfind] at hown
      rw [← Option.some.inj hown, hexp, hk]
      simp
    · simp [hk]
  show { p with entries := _ } = { p with entries := _ }
  rw [hentries]

/-- Forgetting keys and then others is forgetting all of them. -/
theorem forget_forget (p : PlainCache K V) (keys more : List K) :
    (p.forget keys).forget more = p.forget (keys ++ more) := by
  show { p with entries := (p.entries.filter _).filter _ } = { p with entries := _ }
  rw [List.filter_filter]
  congr 1
  refine List.filter_congr fun entry _ => ?_
  show (!(more.contains entry.1 && entry.2.isExpiredAt p.now) &&
    !(keys.contains entry.1 && entry.2.isExpiredAt p.now)) = _
  rw [List.contains_append]
  cases keys.contains entry.1 <;> cases more.contains entry.1 <;>
    cases entry.2.isExpiredAt p.now <;> rfl

end PlainCache

/-- At the time `now`, whatever led from the first cache to the second did
    what forgetting some keys does. -/
def Cache.Forgets (now : Int) (c c' : Cache K V) : Prop :=
  ∀ p : PlainCache K V, p.now = now → Alike c p → ∃ keys, Alike c' (p.forget keys)

namespace Cache.Forgets

variable {now : Int} {c c' c'' : Cache K V}

theorem of_beside (hb : c.Beside c') (hitem : ∀ k, c'.store.item? k = c.store.item? k) :
    Forgets now c c' := by
  intro p _ h
  refine ⟨[], ?_⟩
  rw [PlainCache.forget_nil]
  exact h.beside hb hitem

theorem trans (h : Forgets now c c') (h' : Forgets now c' c'') : Forgets now c c'' := by
  intro p hnow ha
  obtain ⟨keys, hkeys⟩ := h p hnow ha
  obtain ⟨more, hmore⟩ := h' (p.forget keys) hnow hkeys
  rw [PlainCache.forget_forget] at hmore
  exact ⟨keys ++ more, hmore⟩

end Cache.Forgets

namespace Cache

variable {now : Int}

/-- A key without an item is in neither cache; an expired item is forgotten. -/
theorem Erodes.forgets {n : Nat} {c c' : Cache K V} (h : c.Erodes now n c') :
    Forgets now c c' := by
  induction h with
  | reindex c index =>
      -- nothing that happens to the index shows in a plain cache
      exact .of_beside ⟨rfl, rfl, rfl, rfl, Int.le_refl _⟩ fun _ => rfl
  | unlink c key hgone =>
      intro p _ h
      refine ⟨[], ?_⟩
      rw [PlainCache.forget_nil]
      have habsent : key ∉ p.entries.map Prod.fst := by
        rw [h.mem_keys, hgone]
        exact Bool.false_ne_true
      refine ⟨h.capacity, h.now, h.latest, h.item?, h.nodup, h.running, ?_⟩
      rw [← Recency.others_eq_self habsent]
      exact h.ranks.remove key rfl rfl
  | expire c key hitem hexpired =>
      intro p hnow h
      have hfind := h.item? key
      rw [hitem] at hfind
      rw [← hnow] at hexpired
      refine ⟨[key], ?_⟩
      rw [PlainCache.forget_eq_erase h.nodup hfind.symm hexpired]
      refine ⟨h.capacity, h.now, h.latest, fun k => ?_, Table.nodup_without h.nodup,
        h.running, ?_⟩
      · show (c.store.delete key).2.item? k = Table.find? k (Table.without key p.entries)
        rw [Store.item?_delete, Table.find?_without, h.item? k]
      · show Ranks _ ((Table.without key p.entries).map Prod.fst)
        rw [map_without]
        exact h.ranks.remove key rfl rfl
  | trans _ _ ih ih' => exact ih.trans ih'

/-- A sweep forgets some keys, in whatever order it visits the buckets'
    keys. -/
theorem forgets_sweepWith (order : List K → List K) (c : Cache K V) :
    Forgets now c (c.sweepWith order now).2 := by
  obtain ⟨n, c', herodes, heq⟩ := erodes_sweepWith order c now
  have hdrained : Forgets now c { c with notices := .empty } :=
    .of_beside ⟨rfl, rfl, rfl, rfl, Int.le_refl _⟩ fun _ => rfl
  have hcounted : Forgets now c' { c' with counters := c'.counters.swept n } :=
    .of_beside ⟨rfl, rfl, rfl, rfl, Int.le_refl _⟩ fun _ => rfl
  rw [heq]
  exact (hdrained.trans herodes.forgets).trans hcounted

theorem forgets_sweep (c : Cache K V) : Forgets c.now c c.sweep.2 := by
  have hread : Forgets c.now c c.read :=
    .of_beside ⟨rfl, rfl, rfl, now_read c, c.latest_le_read⟩ fun _ => rfl
  exact hread.trans (forgets_sweepWith id c.read)

end Cache

end ExpiringCache
