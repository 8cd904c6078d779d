import ExpiringCache.Proofs.Janitor.Session

/-! # A sweep counts what it deletes

    A sweep takes entries out of the store one at a time, and it counts each
    of them once, whether a notice led to it or its bucket.  So there are as
    many entries fewer in the end as it reports.  The entries that stay keep
    their places in the store.

    This holds in any state: it does not matter whether the notices and the
    index are right. -/

namespace ExpiringCache

variable {K V : Type} [DecidableEq K]

/-- A key that has an entry leaves exactly one entry less when it is
    erased. -/
theorem Table.size_erase {t : Table K V} {key : K} {value : V} (h : t.get? key = some value) :
    (t.erase key).size + 1 = t.size := by
  obtain ⟨entries, hnodup⟩ := t
  show (Table.without key entries).length + 1 = entries.length
  have hfound : Table.find? key entries = some value := h
  clear h
  induction entries with
  | nil => cases hfound
  | cons entry rest ih =>
      obtain ⟨k, v⟩ := entry
      rw [List.map_cons, List.nodup_cons] at hnodup
      by_cases hk : k = key
      · -- no later entry is one of the key
        subst hk
        have hrest : Table.without k rest = rest := by
          rw [Table.without, List.filter_eq_self]
          intro entry hentry
          have hne : entry.1 ≠ k := by
            intro he
            exact hnodup.1 (List.mem_map.mpr ⟨entry, hentry, he⟩)
          simpa using hne
        simp only [Table.without, List.filter_cons, decide_true, Bool.not_true,
          Bool.false_eq_true, if_false] at hrest ⊢
        rw [hrest, List.length_cons]
      · rw [Table.find?, if_neg hk] at hfound
        simp only [Table.without, List.filter_cons, hk, decide_false, Bool.not_false, if_true,
          List.length_cons]
        exact congrArg (· + 1) (ih hnodup.2 hfound)

namespace Cache

/-- The second cache comes from the first by taking `n` entries out of the
    store; nothing is counted meanwhile. -/
structure Sheds (c : Cache K V) (n : Nat) (c' : Cache K V) : Prop where
  entries : c'.store.items.entries.Sublist c.store.items.entries
  size : c'.size + n = c.size
  counters : c'.counters = c.counters

namespace Sheds

variable {c c' c'' : Cache K V} {m n : Nat}

omit [DecidableEq K] in
theorem same (hstore : c'.store = c.store) (hcounters : c'.counters = c.counters) :
    c.Sheds 0 c' where
  entries := by simp only [hstore, List.Sublist.refl]
  size := congrArg Store.size hstore
  counters := hcounters

omit [DecidableEq K] in
theorem trans (h : c.Sheds m c') (h' : c'.Sheds n c'') : c.Sheds (m + n) c'' where
  entries := h'.entries.trans h.entries
  size := by
    have hfirst := h.size
    have hthen := h'.size
    omega
  counters := h'.counters.trans h.counters

end Sheds

/-! ## Sweeps -/

theorem Erodes.sheds {now : Int} {c c' : Cache K V} {n : Nat} (h : c.Erodes now n c') :
    c.Sheds n c' := by
  induction h with
  | reindex c index => exact .same rfl rfl
  | unlink c key hgone => exact .same rfl rfl
  | expire c key hitem hexpired => exact ⟨List.filter_sublist, Table.size_erase hitem, rfl⟩
  | trans _ _ ih ih' => exact ih.trans ih'

/-- A sweep reports the notices that waited and the entries that it has taken
    out of the store, and the counter goes up by as many. -/
theorem sheds_sweepWith (order : List K → List K) (c : Cache K V) (now : Int) :
    ∃ c' n, c.Sheds n c' ∧ c.sweepWith order now =
      (⟨c.notices.waiting.length, n⟩, { c' with counters := c'.counters.swept n }) := by
  obtain ⟨n, c', herodes, heq⟩ := erodes_sweepWith order c now
  have hdrained : c.Sheds 0 { c with notices := .empty } := .same rfl rfl
  have hall := hdrained.trans herodes.sheds
  rw [Nat.zero_add] at hall
  exact ⟨c', n, hall, heq⟩

/-- What a sweep by the clock reports. -/
@[irreducible]
def report (c : Cache K V) (order : VisitingOrder K) : SweepReport :=
  (c.read.sweepWith order.arrange c.now).1

/-- The report tells what has become of the one cache in the other. -/
structure Reports (c : Cache K V) (report : SweepReport) (c' : Cache K V) : Prop where
  notices : report.notices = c.notices.waiting.length
  entries : c'.store.items.entries.Sublist c.store.items.entries
  size : c'.size + report.expired = c.size
  counters : c'.counters = c.counters.swept report.expired

/-- What a sweep reports is what it has done. -/
theorem reports_swept (c : Cache K V) (order : VisitingOrder K) :
    c.Reports (c.report order) (c.swept order) := by
  obtain ⟨c', n, hsheds, hswept⟩ := sheds_sweepWith order.arrange c.read c.now
  rw [report, swept, hswept]
  exact ⟨rfl, hsheds.entries, hsheds.size, congrArg (Counters.swept · n) hsheds.counters⟩

end Cache

end ExpiringCache
