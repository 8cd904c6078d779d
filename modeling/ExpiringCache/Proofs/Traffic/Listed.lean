import ExpiringCache.Proofs.Order.Calls
import ExpiringCache.Proofs.Traffic.Steps

/-! # Which keys the recency list has

    Only three kinds of instructions matter to the question which stored keys
    the recency list has: to store a key, to use a key, and to take keys out
    of the list.  Whoever stores a key will use it, and whoever is told that
    keys fell off will delete them: a caller *owes* a key until then.

    So a stored key that is not listed is owed by somebody, unless it was
    stored already when it was taken out of the list. -/

namespace ExpiringCache

variable {I K V : Type}

namespace Instr

/-- The keys that will have been used or deleted when this is carried out,
    with all that follows from it. -/
def owed : Instr K V → List K
  | .touch key => [key]
  | .evict keys => keys
  | .delete key => [key]
  | _ => []

/-- The keys that will be taken out of the recency list because they were not
    in the store when the caller last looked. -/
def taken : Instr K V → List K
  | .mark keys => keys
  | .unlink keys => keys
  | _ => []

end Instr

/-- A call that deletes no entry but to make room. -/
def Errand.Mild : Errand K V → Prop
  | .put _ _ ttl => ttl.isNegative = false
  | .get _ => True
  | .replace _ _ => True
  | .remove _ => False
  | .sweep _ => False

/-- An instruction that is part of such a call. -/
def Instr.Mild : Instr K V → Prop
  | .call errand => errand.Mild
  | .store _ _ => True
  | .push _ _ => True
  | .touch _ => True
  | .evict _ => True
  | .delete _ => True
  | .countEvicted _ => True
  | .lookUp _ _ => True
  | .countHit => True
  | .countMiss => True
  | _ => False

/-- An instruction that deletes nothing takes no key out of the list. -/
theorem Instr.Mild.taken_eq {instr : Instr K V} (h : instr.Mild) : instr.taken = [] := by
  cases instr with
  | mark keys => exact h.elim
  | unlink keys => exact h.elim
  | _ => rfl

variable [DecidableEq K]

/-! ## The store -/

namespace Store

/-- To store a key makes that key stored and no other. -/
theorem isSome_item?_set (s : Store K V) (key k : K) (item : Item V) :
    ((s.set key item).item? k).isSome = true ↔ k = key ∨ (s.item? k).isSome = true := by
  rw [item?_set]
  by_cases hk : key = k
  · simp [hk]
  · simp [hk, Ne.symm hk]

/-- To replace a value brings no key in and takes none out. -/
theorem isSome_item?_replaceValue (s : Store K V) (now : Int) (key : K) (value : V) (k : K) :
    ((s.replaceValue now key value).2.item? k).isSome = (s.item? k).isSome := by
  cases hlive : s.live? now key with
  | none => simp only [replaceValue, hlive]
  | some item =>
      have hitem := (live?_eq_some.mp hlive).1
      simp only [replaceValue, hlive]
      rw [item?_set]
      by_cases hk : key = k
      · subst hk
        rw [if_pos rfl, hitem]
        rfl
      · rw [if_neg hk]

/-- A key that was deleted because it is expired is gone, and no other key
    is. -/
theorem item?_deleteExpired (s : Store K V) (now : Int) (key k : K) :
    (s.deleteExpired now key).2.item? k =
      if (s.deleteExpired now key).1 = true ∧ key = k then none else s.item? k := by
  cases hitem : s.item? key with
  | none => simp [deleteExpired, hitem]
  | some item =>
      cases hexpired : item.isExpiredAt now with
      | false => simp [deleteExpired, hitem, hexpired]
      | true =>
          simp only [deleteExpired, hitem, hexpired, if_true, true_and]
          exact s.item?_delete key k

end Store

namespace Cache

/-- A key that is stored after some were deleted was stored before, and is
    none of them. -/
theorem Stores.of_item? {c c' : Cache K V} {key : K} {P : Prop} [Decidable P]
    (h : c'.Stores key)
    (hitem : c'.store.item? key = if P then none else c.store.item? key) :
    c.Stores key ∧ ¬P := by
  have hsome : (c'.store.item? key).isSome = true := h
  rw [hitem] at hsome
  split at hsome
  · cases hsome
  · rename_i hP
    exact ⟨hsome, hP⟩

/-! ## The recency list -/

/-- The cache has a recency list for `capacity` keys, and it is not longer
    than that. -/
def ListsAtMost (c : Cache K V) (capacity : Nat) : Prop :=
  ∃ r ks, c.recency = some r ∧ r.capacity = capacity ∧ r.Lists ks ∧ ks.length ≤ capacity

/-- What holds of an instruction that brings no key into the store and
    leaves the recency list alone. -/
structure Quiet (c : Cache K V) (instr : Instr K V) : Prop where
  stores : ∀ key, (c.obey instr).2.Stores key → c.Stores key
  recency : (c.obey instr).2.recency = c.recency
  owed : ∀ key ∈ instr.owed, (c.obey instr).2.Stores key →
    key ∈ (c.obey instr).1.flatMap Instr.owed
  taken : ∀ key ∈ (c.obey instr).1.flatMap Instr.taken,
    key ∈ instr.taken ∨ ¬(c.obey instr).2.Stores key

namespace Quiet

variable {c c' : Cache K V} {instr : Instr K V} {more : List (Instr K V)}

/-- Keys are deleted, and those that are to be taken out of the list are not
    stored any more. -/
theorem deletes (hobey : c.obey instr = (more, c')) (hstores : ∀ key, c'.Stores key → c.Stores key)
    (hrecency : c'.recency = c.recency) (howed : instr.owed = [])
    (htaken : ∀ key ∈ more.flatMap Instr.taken, ¬c'.Stores key) : c.Quiet instr := by
  have hmore : (c.obey instr).1 = more := congrArg Prod.fst hobey
  have hc' : (c.obey instr).2 = c' := congrArg Prod.snd hobey
  subst hmore hc'
  refine ⟨hstores, hrecency, fun key hmem => ?_, fun key hmem => .inr (htaken key hmem)⟩
  rw [howed] at hmem
  cases hmem

/-- The store is the same, and no keys are in question. -/
theorem plain (hobey : c.obey instr = (more, c')) (hstore : c'.store = c.store)
    (hrecency : c'.recency = c.recency) (howed : instr.owed = [])
    (htaken : more.flatMap Instr.taken = []) : c.Quiet instr := by
  refine deletes hobey (fun key hstores => ?_) hrecency howed fun key hmem => ?_
  · rwa [Stores, hstore] at hstores
  · rw [htaken] at hmem
    cases hmem

/-- The first access of a call. -/
theorem access (c : Cache K V) (errand : Errand K V) : c.Quiet (.call errand) := by
  cases errand with
  | put key value ttl =>
      cases hneg : ttl.isNegative with
      | true => exact plain (access_put_of_neg hneg key value) rfl rfl rfl rfl
      | false =>
          -- at most the clock has been read
          refine plain (access_put_of_nonneg hneg key value) ?_ ?_ rfl rfl
          · show (c.expiryFrom ttl).2.read.store = c.read.store
            rw [read_expiryFrom]
          · show (c.expiryFrom ttl).2.read.recency = c.read.recency
            rw [read_expiryFrom]
  | get key => exact plain rfl rfl rfl rfl rfl
  | replace key value =>
      refine deletes rfl (fun k hstores => ?_) rfl rfl fun k hmem => ?_
      · have hsame := c.read.store.isSome_item?_replaceValue c.now key value k
        exact hsame.symm.trans hstores
      · revert hmem
        show k ∈ (if _ then [Instr.touch key] else []).flatMap Instr.taken → _
        split
        · exact fun hmem => nomatch hmem
        · exact fun hmem => nomatch hmem
  | remove keys =>
      cases hempty : keys.isEmpty with
      | true => exact plain (access_remove_of_nil hempty) rfl rfl rfl rfl
      | false =>
          have hitem := c.read.store.item?_deleteAll c.now keys
          refine deletes (access_remove_of_cons hempty)
            (fun k hstores => (hstores.of_item? (hitem k)).1) rfl rfl
            fun k hmem hstores => (hstores.of_item? (hitem k)).2 ?_
          have hdeleted : k ∈ (c.read.store.deleteAll c.now keys).1.1 := by
            simpa [Instr.taken] using hmem
          exact ((Store.mem_deleteAll _ _ _ _).mp hdeleted).1
  | sweep order => exact plain rfl rfl rfl rfl rfl

/-- An expired key is deleted, and will be taken out of the list. -/
theorem expires {now : Int} {key : K} {store : Store K V}
    (hstore : c.store.deleteExpired now key = (true, store))
    (hobey : c.obey instr = (more, { c with store := store })) (howed : instr.owed = [])
    (htaken : more.flatMap Instr.taken = [key]) : c.Quiet instr := by
  have hitem := c.store.item?_deleteExpired now key
  simp only [hstore, true_and] at hitem
  refine deletes hobey (fun k hstores => (hstores.of_item? (hitem k)).1) rfl howed
    fun k hmem hstores => (hstores.of_item? (hitem k)).2 ?_
  rw [htaken] at hmem
  exact (List.mem_singleton.mp hmem).symm

/-- A key of a notice that is gone is taken out of the list. -/
theorem inspect (c : Cache K V) (round : Round K) (notice : Notice K) :
    c.Quiet (.inspect round notice) := by
  cases hitem : c.store.item? notice.key with
  | none =>
      refine deletes (obey_inspect_of_gone hitem) (fun _ h => h) rfl rfl fun k hmem hstores => ?_
      have hk : k = notice.key := List.mem_singleton.mp hmem
      subst hk
      have hsome : (c.store.item? notice.key).isSome = true := hstores
      rw [hitem] at hsome
      cases hsome
  | some item =>
      by_cases hexpired : item.isExpiredAt round.now = true
      · exact plain (obey_inspect_of_expired hitem hexpired) rfl rfl rfl rfl
      · exact plain (obey_inspect_of_live hitem hexpired) rfl rfl rfl rfl

/-- Deleting the coldest keys and leaving notices of them, or leaving notices
    of keys that were deleted. -/
theorem evict (c : Cache K V) (keys : List K) : c.Quiet (.evict keys) := by
  refine ⟨fun _ h => h, rfl, fun key hmem _ => ?_, fun key hmem => ?_⟩
  · refine List.mem_flatMap.mpr ⟨.delete key, ?_, List.mem_singleton_self key⟩
    refine List.mem_append_left _ (List.mem_flatMap.mpr ⟨key, hmem, List.mem_cons_self⟩)
  · obtain ⟨instr, hinstr, htaken⟩ := List.mem_flatMap.mp hmem
    rcases List.mem_append.mp hinstr with hinstr | hinstr
    · obtain ⟨k, -, hk⟩ := List.mem_flatMap.mp hinstr
      rcases List.mem_pair.mp hk with rfl | rfl
      · cases htaken
      · cases htaken
    · rw [List.mem_singleton.mp hinstr] at htaken
      cases htaken

/-- Notices do not touch the store or the list. -/
theorem mark (c : Cache K V) (keys : List K) : c.Quiet (.mark keys) := by
  refine ⟨fun _ h => h, rfl, fun key hmem => (nomatch hmem), fun key hmem => .inl ?_⟩
  obtain ⟨instr, hinstr, htaken⟩ := List.mem_flatMap.mp hmem
  rcases List.mem_append.mp hinstr with hinstr | hinstr
  · obtain ⟨k, -, rfl⟩ := List.mem_map.mp hinstr
    cases htaken
  · rw [List.mem_singleton.mp hinstr] at htaken
    exact htaken

/-- The key that an eviction deletes has fallen off the list before. -/
theorem delete (c : Cache K V) (key : K) : c.Quiet (.delete key) := by
  have hitem := c.store.item?_delete key
  refine ⟨fun k hstores => (hstores.of_item? (hitem k)).1, rfl, fun k hmem hstores => ?_,
    fun _ hmem => (nomatch hmem)⟩
  exact absurd (List.mem_singleton.mp hmem).symm (hstores.of_item? (hitem k)).2

/-- To look a key up reads the store only; its touch is an instruction of its
    own. -/
theorem lookUp (c : Cache K V) (key : K) (now : Int) : c.Quiet (.lookUp key now) := by
  cases hlive : (c.store.live? now key).isSome with
  | true => exact plain (obey_lookUp_of_live hlive) rfl rfl rfl rfl
  | false => exact plain (obey_lookUp_of_dead hlive) rfl rfl rfl rfl

/-- To take a notice concerns the queue only. -/
theorem drain (c : Cache K V) (round : Round K) : c.Quiet (.drain round) := by
  cases hpop : c.notices.pop with
  | mk next queue =>
      cases next with
      | none => exact plain (obey_drain_of_none hpop) rfl rfl rfl rfl
      | some notice => exact plain (obey_drain_of_some hpop) rfl rfl rfl rfl

/-- To expel a key deletes it from the store, and promises to take it off the
    list. -/
theorem expel (c : Cache K V) (round : Round K) (key : K) : c.Quiet (.expel round key) := by
  cases hstore : c.store.deleteExpired round.now key with
  | mk deleted store =>
      cases deleted with
      | true => exact expires hstore (obey_expel_of_true hstore) rfl rfl
      | false => exact plain (obey_expel_of_false hstore) rfl rfl rfl rfl

/-- To delete a bucket concerns the index only. -/
theorem scan (c : Cache K V) (round : Round K) (offsets : List Int) :
    c.Quiet (.scan round offsets) := by
  cases offsets with
  | nil => exact plain rfl rfl rfl rfl rfl
  | cons offset rest =>
      cases hbucket : c.index.deleteBucket (round.current - offset * bucketWidth) with
      | mk listed index =>
          cases listed with
          | none => exact plain (obey_scan_of_none hbucket) rfl rfl rfl rfl
          | some keys => exact plain (obey_scan_of_some hbucket) rfl rfl rfl rfl

/-- To visit a key reads the store only. -/
theorem visit (c : Cache K V) (round : Round K) (bucket : Int) (keys : List K)
    (offsets : List Int) : c.Quiet (.visit round bucket keys offsets) := by
  cases keys with
  | nil => exact plain rfl rfl rfl rfl rfl
  | cons key rest =>
      cases hlive : c.store.live? round.now key with
      | none => exact plain (obey_visit_of_dead hlive) rfl rfl rfl rfl
      | some item => exact plain (obey_visit_of_live hlive) rfl rfl rfl rfl

/-- To file a key anew concerns the index only. -/
theorem refile (c : Cache K V) (bucket : Int) (key : K) (expireAt : Int) :
    c.Quiet (.refile bucket key expireAt) := by
  by_cases hbucket : c.index.bucket key = bucket
  · exact plain (obey_refile_of_eq hbucket expireAt) rfl rfl rfl rfl
  · exact plain (obey_refile_of_ne hbucket expireAt) rfl rfl rfl rfl

/-- To oust a key deletes it from the store, and promises to take it off the
    list. -/
theorem oust (c : Cache K V) (round : Round K) (bucket : Int) (key : K) (keys : List K)
    (offsets : List Int) : c.Quiet (.oust round bucket key keys offsets) := by
  cases hstore : c.store.deleteExpired round.now key with
  | mk deleted store =>
      cases deleted with
      | true => exact expires hstore (obey_oust_of_true hstore) rfl rfl
      | false => exact plain (obey_oust_of_false hstore) rfl rfl rfl rfl

/-- To check a key reads the store only. -/
theorem check (c : Cache K V) (bucket : Int) (key : K) : c.Quiet (.check bucket key) := by
  cases hcontains : c.store.contains key with
  | true => exact plain (obey_check_of_stored hcontains bucket) rfl rfl rfl rfl
  | false => exact plain (obey_check_of_gone hcontains bucket) rfl rfl rfl rfl

end Quiet

/-- All instructions are quiet but three. -/
theorem quiet_or (c : Cache K V) (instr : Instr K V) :
    c.Quiet instr ∨ (∃ key item, instr = .store key item) ∨ (∃ key, instr = .touch key) ∨
      ∃ keys, instr = .unlink keys := by
  cases instr with
  | store key item => exact .inr (.inl ⟨key, item, rfl⟩)
  | touch key => exact .inr (.inr (.inl ⟨key, rfl⟩))
  | unlink keys => exact .inr (.inr (.inr ⟨keys, rfl⟩))
  | call errand => exact .inl (.access c errand)
  | push key instant => exact .inl (.plain rfl rfl rfl rfl rfl)
  | evict keys => exact .inl (.evict c keys)
  | delete key => exact .inl (.delete c key)
  | countEvicted n => exact .inl (.plain rfl rfl rfl rfl rfl)
  | lookUp key now => exact .inl (.lookUp c key now)
  | countHit => exact .inl (.plain rfl rfl rfl rfl rfl)
  | countMiss => exact .inl (.plain rfl rfl rfl rfl rfl)
  | mark keys => exact .inl (.mark c keys)
  | drain round => exact .inl (.drain c round)
  | inspect round notice => exact .inl (.inspect c round notice)
  | expel round key => exact .inl (.expel c round key)
  | scan round offsets => exact .inl (.scan c round offsets)
  | visit round bucket keys offsets => exact .inl (.visit c round bucket keys offsets)
  | refile bucket key expireAt => exact .inl (.refile c bucket key expireAt)
  | oust round bucket key keys offsets => exact .inl (.oust c round bucket key keys offsets)
  | check bucket key => exact .inl (.check c bucket key)
  | reindex key bucket => exact .inl (.plain rfl rfl rfl rfl rfl)
  | unindex key => exact .inl (.plain rfl rfl rfl rfl rfl)
  | unassign key bucket => exact .inl (.plain rfl rfl rfl rfl rfl)
  | countExpired n => exact .inl (.plain rfl rfl rfl rfl rfl)

/-! ## What any instruction does -/

/-- What holds of any instruction. -/
structure Obeys (c : Cache K V) (capacity : Nat) (instr : Instr K V) : Prop where
  /-- The recency list does not get too long. -/
  listed : (c.obey instr).2.ListsAtMost capacity
  /-- No key gets into it but by being used. -/
  lists : ∀ key, (c.obey instr).2.Lists key → c.Lists key ∨ instr = .touch key
  /-- No key gets into the store but by being stored. -/
  stores : ∀ key, (c.obey instr).2.Stores key → c.Stores key ∨ ∃ item, instr = .store key item
  /-- A key that comes in, or was listed or owed, is listed or owed, unless
      it is taken out of the list although it is stored. -/
  owed : ∀ key, (c.obey instr).2.Stores key →
    ¬c.Stores key ∨ c.Lists key ∨ key ∈ instr.owed →
      (c.obey instr).2.Lists key ∨ key ∈ (c.obey instr).1.flatMap Instr.owed ∨
        ∃ keys, instr = .unlink keys ∧ key ∈ keys ∧ c.Stores key
  /-- Keys that will be taken out are not stored, or were in question
      before. -/
  taken : ∀ key ∈ (c.obey instr).1.flatMap Instr.taken,
    key ∈ instr.taken ∨ ¬(c.obey instr).2.Stores key

section Obeys

variable {c : Cache K V} {capacity : Nat}

/-- The keys that a cache lists are those of the row that its recency list
    stands for. -/
theorem ListsAtMost.lists_iff {r : Recency K} {ks : List K} (hsome : c.recency = some r)
    (hlists : r.Lists ks) (key : K) : c.Lists key ↔ key ∈ ks := by
  rw [← hlists.contains_iff key]
  constructor
  · rintro ⟨r', hr', hcontains⟩
    cases hsome.symm.trans hr'
    exact hcontains
  · exact fun hcontains => ⟨r, hsome, hcontains⟩

/-- The bound on a recency list depends on the list only. -/
theorem ListsAtMost.of_recency {c' : Cache K V} (h : c.ListsAtMost capacity)
    (hrecency : c'.recency = c.recency) : c'.ListsAtMost capacity := by
  obtain ⟨r, ks, hsome, hrest⟩ := h
  exact ⟨r, ks, hrecency.trans hsome, hrest⟩

/-- A quiet instruction keeps to what is asked of all: the list stays as it
    is. -/
theorem Quiet.obeys {instr : Instr K V} (h : c.Quiet instr) (hlisted : c.ListsAtMost capacity) :
    c.Obeys capacity instr where
  listed := hlisted.of_recency h.recency
  lists := by
    rintro key ⟨r, hr, hcontains⟩
    exact .inl ⟨r, h.recency.symm.trans hr, hcontains⟩
  stores := fun key hstores => .inl (h.stores key hstores)
  owed := by
    rintro key hstores (hnot | ⟨r, hr, hcontains⟩ | howed)
    · exact absurd (h.stores key hstores) hnot
    · exact .inl ⟨r, h.recency.trans hr, hcontains⟩
    · exact .inr (.inl (h.owed key howed hstores))
  taken := h.taken

/-- Whoever stores a key owes it until it is used. -/
theorem obeys_store (hlisted : c.ListsAtMost capacity) (key : K) (item : Item V) :
    c.Obeys capacity (.store key item) where
  listed := hlisted.of_recency rfl
  lists := fun k hlists => .inl hlists
  stores := by
    intro k hstores
    rcases (c.store.isSome_item?_set key k item).mp hstores with rfl | hold
    · exact .inr ⟨item, rfl⟩
    · exact .inl hold
  owed := by
    rintro k hstores (hnot | hlists | howed)
    · rcases (c.store.isSome_item?_set key k item).mp hstores with rfl | hold
      · exact .inr (.inl (List.mem_singleton_self k))
      · exact absurd hold hnot
    · exact .inl hlists
    · cases howed
  taken := fun k hmem => (nomatch hmem)

/-- A key that is used is listed from then on, and those that fall off are
    owed. -/
theorem obeys_touch (hcap : capacity ≠ 0) (hlisted : c.ListsAtMost capacity) (key : K) :
    c.Obeys capacity (.touch key) := by
  obtain ⟨r, ks, hsome, hr, hlists, hlength⟩ := hlisted
  obtain ⟨hevicted, hused⟩ := hlists.touch key
  rw [hr, ← surplus_of_ne hcap] at hevicted hused
  have hobey := obey_touch_of_ranked hsome key
  -- what falls off is owed from now on
  have howed : (c.obey (.touch key)).1.flatMap Instr.owed = (r.touch key).1 := by
    rw [hobey]
    cases (r.touch key).1 with
    | nil => rfl
    | cons k rest => exact List.append_nil _
  have htaken : (c.obey (.touch key)).1.flatMap Instr.taken = [] := by
    rw [hobey]
    cases (r.touch key).1 with
    | nil => rfl
    | cons k rest => rfl
  have hstore : (c.obey (.touch key)).2.store = c.store := by rw [hobey]
  have hrecency : (c.obey (.touch key)).2.recency = some (r.touch key).2 := by rw [hobey]
  have hmem := ListsAtMost.lists_iff hrecency hused
  have hbefore := ListsAtMost.lists_iff hsome hlists
  refine ⟨⟨_, _, hrecency, (r.capacity_touch key).trans hr, hused,
    Recency.length_used_le hcap key ks⟩, fun k hk => ?_, fun k hstores => ?_,
    fun k hstores hk => ?_, fun k hk => ?_⟩
  · rcases ((Recency.mem_used hlists.nodup capacity key k).mp ((hmem k).mp hk)).2 with rfl | hold
    · exact .inr rfl
    · exact .inl ((hbefore k).mpr hold)
  · rw [Stores, hstore] at hstores
    exact .inl hstores
  · rw [howed, hevicted]
    by_cases hcold : k ∈ (Recency.others key ks ++ [key]).take
        (surplus capacity ((Recency.others key ks).length + 1))
    · exact .inr (.inl hcold)
    · refine .inl ((hmem k).mpr ((Recency.mem_used hlists.nodup capacity key k).mpr ⟨hcold, ?_⟩))
      rcases hk with hnot | hold | howe
      · rw [Stores, hstore] at hstores
        exact absurd hstores hnot
      · exact .inr ((hbefore k).mp hold)
      · exact .inl (List.mem_singleton.mp howe)
  · rw [htaken] at hk
    cases hk

/-- Keys that are taken out are not listed any more, and the others are. -/
theorem listed_unlink (hlisted : c.ListsAtMost capacity) (keys : List K) :
    (c.obey (.unlink keys)).2.ListsAtMost capacity ∧
      ∀ key, (c.obey (.unlink keys)).2.Lists key ↔ c.Lists key ∧ key ∉ keys := by
  obtain ⟨r, ks, hsome, hr, hlists, hlength⟩ := hlisted
  have hrecency : (c.obey (.unlink keys)).2.recency = some (r.removeAll keys) := by
    simp only [obey, hsome, Option.map_some]
  have hleft := hlists.removeAll keys
  rw [foldl_others] at hleft
  refine ⟨⟨_, _, hrecency, (r.capacity_removeAll keys).trans hr, hleft,
    Nat.le_trans (List.length_filter_le _ ks) hlength⟩, fun key => ?_⟩
  rw [ListsAtMost.lists_iff hrecency hleft, ListsAtMost.lists_iff hsome hlists, List.mem_filter,
    Bool.not_eq_true', decide_eq_false_iff_not]

/-- Keys taken out of the list while they are stored are the only ones that
    nobody owes. -/
theorem obeys_unlink (hlisted : c.ListsAtMost capacity) (keys : List K) :
    c.Obeys capacity (.unlink keys) := by
  obtain ⟨hafter, hlists⟩ := listed_unlink hlisted keys
  refine ⟨hafter, fun k hk => .inl ((hlists k).mp hk).1, fun k hstores => .inl hstores,
    fun k hstores hk => ?_, fun k hk => (nomatch hk)⟩
  by_cases hin : k ∈ keys
  · exact .inr (.inr ⟨keys, rfl, hin, hstores⟩)
  · rcases hk with hnot | hold | howe
    · exact absurd hstores hnot
    · exact .inl ((hlists k).mpr ⟨hold, hin⟩)
    · cases howe

/-- Whatever the instruction is. -/
theorem obeys (hcap : capacity ≠ 0) (hlisted : c.ListsAtMost capacity) (instr : Instr K V) :
    c.Obeys capacity instr := by
  rcases c.quiet_or instr with hquiet | ⟨key, item, rfl⟩ | ⟨key, rfl⟩ | ⟨keys, rfl⟩
  · exact hquiet.obeys hlisted
  · exact obeys_store hlisted key item
  · exact obeys_touch hcap hlisted key
  · exact obeys_unlink hlisted keys

end Obeys

end Cache

/-! ## Calls without deletion -/

/-- What follows from a mild instruction is mild. -/
theorem Instr.Mild.obey {instr : Instr K V} (h : instr.Mild) (c : Cache K V) :
    ∀ next ∈ (c.obey instr).1, next.Mild := by
  cases instr with
  | call errand =>
      cases errand with
      | put key value ttl =>
          have hneg : ttl.isNegative = false := h
          simp [Cache.obey, Cache.access, hneg, Instr.Mild]
      | get key => simp [Cache.obey, Cache.access, Instr.Mild]
      | replace key value =>
          simp only [Cache.obey, Cache.access]
          split
          · simp [Instr.Mild]
          · simp
      | remove keys => exact h.elim
      | sweep order => exact h.elim
  | store key item => simp [Cache.obey, Instr.Mild]
  | touch key =>
      cases hrecency : c.recency with
      | none => simp [Cache.obey, hrecency]
      | some recency =>
          simp only [Cache.obey, hrecency]
          split
          · simp
          · simp [Instr.Mild]
  | evict keys =>
      intro next hnext
      rcases List.mem_append.mp hnext with hnext | hnext
      · obtain ⟨key, -, hkey⟩ := List.mem_flatMap.mp hnext
        rcases List.mem_pair.mp hkey with rfl | rfl
        · trivial
        · trivial
      · rw [List.mem_singleton.mp hnext]
        trivial
  | lookUp key now =>
      simp only [Cache.obey]
      split
      · simp [Instr.Mild]
      · simp [Instr.Mild]
  | push key instant => exact fun _ hnext => absurd hnext List.not_mem_nil
  | delete key => exact fun _ hnext => absurd hnext List.not_mem_nil
  | countEvicted n => exact fun _ hnext => absurd hnext List.not_mem_nil
  | countHit => exact fun _ hnext => absurd hnext List.not_mem_nil
  | countMiss => exact fun _ hnext => absurd hnext List.not_mem_nil
  | _ => exact h.elim

end ExpiringCache
