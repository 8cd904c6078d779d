import ExpiringCache.Proofs.Traffic.Alone
import ExpiringCache.Proofs.Traffic.Listed
import Mathlib.Data.List.Perm.Subperm

/-! # Who outgrows a busy cache

    A key is *overtaken* if it is taken out of the recency list while it is
    stored: somebody deleted it, and has not got round to the list when
    another caller has stored and used it again.  Until it is used or deleted
    once more, such a key does not count against the capacity.

    This is the only way for a stored key not to be listed.  When all calls
    have returned, exactly the overtaken keys are stored without being
    listed, and if there are none, the cache is within its capacity. -/

namespace ExpiringCache

variable {I K V : Type} [DecidableEq K]

namespace Traffic

variable [DecidableEq I]

/-! ## Overtaken keys -/

/-- An instruction that somebody has yet to carry out is about `key`, where
    `keys` says which keys an instruction is about. -/
def Promises (t : Traffic I K V) (keys : Instr K V → List K) (key : K) : Prop :=
  ∃ i, key ∈ (t.tasks i).flatMap keys

/-- The step takes `key` out of the recency list although it is stored. -/
def Overtakes (t : Traffic I K V) (step : Step I K V) (key : K) : Prop :=
  ∃ keys, t.next? step = some (.unlink keys) ∧ key ∈ keys ∧ t.cache.Stores key

/-- The step uses `key`, or leaves it out of the store. -/
def Settles (t : Traffic I K V) (step : Step I K V) (key : K) : Prop :=
  t.next? step = some (.touch key) ∨ ¬(t.after step).cache.Stores key

/-- The keys that are overtaken after several steps if those in `late` were
    so before: each step overtakes some and settles others. -/
def overtakenFrom (t : Traffic I K V) (late : K → Prop) : List (Step I K V) → K → Prop
  | [] => late
  | step :: rest =>
      (t.after step).overtakenFrom
        (fun key => t.Overtakes step key ∨ late key ∧ ¬t.Settles step key) rest

/-- `key` was overtaken by one of the steps, and not settled since. -/
def Overtaken (t : Traffic I K V) (steps : List (Step I K V)) (key : K) : Prop :=
  t.overtakenFrom (fun _ => False) steps key

/-- No step stores a key that somebody is about to take out of the recency
    list. -/
def Orderly (t : Traffic I K V) : List (Step I K V) → Prop
  | [] => True
  | step :: rest =>
      (∀ key item, t.next? step = some (.store key item) → ¬t.Promises Instr.taken key) ∧
        (t.after step).Orderly rest

/-! ## What a step does -/

/-- Nobody accesses the cache in a step. -/
structure Pauses (t : Traffic I K V) (step : Step I K V) : Prop where
  next : t.next? step = none
  store : (t.after step).cache.store = t.cache.store
  recency : (t.after step).cache.recency = t.cache.recency
  owed : ∀ key, (t.after step).Promises Instr.owed key ↔ t.Promises Instr.owed key
  taken : ∀ key, (t.after step).Promises Instr.taken key ↔ t.Promises Instr.taken key

/-- A caller carries out an instruction in a step, while all others, and what
    that caller has to do after it, stay as they are. -/
structure Carries (t : Traffic I K V) (step : Step I K V) (instr : Instr K V)
    (others : (Instr K V → List K) → K → Prop) : Prop where
  next : t.next? step = some instr
  cache : (t.after step).cache = (t.cache.obey instr).2
  before : ∀ keys key, t.Promises keys key ↔ key ∈ keys instr ∨ others keys key
  after : ∀ keys key, (t.after step).Promises keys key ↔
    key ∈ (t.cache.obey instr).1.flatMap keys ∨ others keys key

omit [DecidableEq K] in
/-- What is promised with a new task for one caller is promised by that task
    or by another caller. -/
theorem promises_update (c : Cache K V) (tasks : I → List (Instr K V)) (i : I)
    (task : List (Instr K V)) (keys : Instr K V → List K) (key : K) :
    (⟨c, Function.update tasks i task⟩ : Traffic I K V).Promises keys key ↔
      key ∈ task.flatMap keys ∨ ∃ j, j ≠ i ∧ key ∈ (tasks j).flatMap keys :=
  Function.exists_update_iff tasks fun _ task => key ∈ task.flatMap keys

omit [DecidableEq K] in
/-- What a caller has to do itself is told apart from the rest. -/
theorem promises_iff (t : Traffic I K V) (i : I) (keys : Instr K V → List K) (key : K) :
    t.Promises keys key ↔
      key ∈ (t.tasks i).flatMap keys ∨ ∃ j, j ≠ i ∧ key ∈ (t.tasks j).flatMap keys := by
  rw [← promises_update t.cache, Function.update_eq_self]

/-- A step carries out an instruction, or changes nothing that matters here. -/
theorem pauses_or (t : Traffic I K V) (step : Step I K V) :
    t.Pauses step ∨ ∃ instr others, t.Carries step instr others := by
  cases step with
  | begin i errand =>
      refine .inl ?_
      cases htask : t.tasks i with
      | cons instr rest =>
          refine ⟨rfl, ?_, ?_, fun key => ?_, fun key => ?_⟩
          all_goals rw [after_begin_of_busy htask]
      | nil =>
          have hafter := after_begin_of_free htask errand
          -- a call that has not begun to access anything is about no key
          refine ⟨rfl, ?_, ?_, fun key => ?_, fun key => ?_⟩
          · rw [hafter]
          · rw [hafter]
          · rw [hafter, promises_update, t.promises_iff i, htask]
            rfl
          · rw [hafter, promises_update, t.promises_iff i, htask]
            rfl
  | go i =>
      cases htask : t.tasks i with
      | nil =>
          refine .inl ⟨?_, ?_, ?_, fun key => ?_, fun key => ?_⟩
          · simp only [next?, htask, List.head?_nil]
          all_goals rw [after_go_of_free htask]
      | cons instr rest =>
          have hafter := after_go_of_busy htask
          refine .inr ⟨instr, fun keys key => key ∈ rest.flatMap keys ∨
            ∃ j, j ≠ i ∧ key ∈ (t.tasks j).flatMap keys, ?_, ?_, fun keys key => ?_,
            fun keys key => ?_⟩
          · simp only [next?, htask, List.head?_cons]
          · rw [hafter]
          · rw [t.promises_iff i, htask, List.flatMap_cons, List.mem_append, or_assoc]
          · rw [hafter, promises_update, List.flatMap_append, List.mem_append, or_assoc]
  | setWall wall => exact .inl ⟨rfl, rfl, rfl, fun _ => .rfl, fun _ => .rfl⟩

/-! ## Stored keys are listed, owed or overtaken -/

/-- The recency list is as it should be, and each stored key that it lacks is
    owed by somebody or in `late`. -/
structure Sound (t : Traffic I K V) (capacity : Nat) (late : K → Prop) : Prop where
  listed : t.cache.ListsAtMost capacity
  kept : ∀ key, t.cache.Stores key →
    t.cache.Lists key ∨ t.Promises Instr.owed key ∨ late key
  late : ∀ key, late key → t.cache.Stores key ∧ ¬t.cache.Lists key

namespace Sound

variable {t : Traffic I K V} {capacity : Nat} {late : K → Prop}

/-- A step that carries out an instruction overtakes the keys it takes out of
    the list while they are stored, and settles those that it uses or deletes. -/
theorem after_carries (h : t.Sound capacity late) (hcap : capacity ≠ 0) {step : Step I K V}
    {instr : Instr K V} {others : (Instr K V → List K) → K → Prop}
    (hcarries : t.Carries step instr others) :
    (t.after step).Sound capacity
      fun key => t.Overtakes step key ∨ late key ∧ ¬t.Settles step key := by
  obtain ⟨hlisted, hlists, hstores, howed, -⟩ := Cache.obeys hcap h.listed instr
  rw [← hcarries.cache] at hlisted hlists hstores howed
  refine ⟨hlisted, fun key hkey => ?_, fun key hkey => ?_⟩
  · -- a key that is listed or owed by this instruction, or comes in
    have hthis : ¬t.cache.Stores key ∨ t.cache.Lists key ∨ key ∈ instr.owed →
        (t.after step).cache.Lists key ∨ (t.after step).Promises Instr.owed key ∨
          t.Overtakes step key ∨ late key ∧ ¬t.Settles step key := by
      intro hbefore
      rcases howed key hkey hbefore with hlist | hmore | ⟨keys, rfl, hmem, hstored⟩
      · exact .inl hlist
      · exact .inr (.inl ((hcarries.after _ _).mpr (.inl hmore)))
      · exact .inr (.inr (.inl ⟨keys, hcarries.next, hmem, hstored⟩))
    by_cases hstored : t.cache.Stores key
    · rcases h.kept key hstored with hlist | hpromise | hlate
      · exact hthis (.inr (.inl hlist))
      · rcases (hcarries.before _ _).mp hpromise with hinstr | hothers
        · exact hthis (.inr (.inr hinstr))
        · exact .inr (.inl ((hcarries.after _ _).mpr (.inr hothers)))
      · by_cases hsettles : t.Settles step key
        · rcases hsettles with htouch | hgone
          · rw [hcarries.next] at htouch
            cases htouch
            exact hthis (.inr (.inr (List.mem_singleton_self key)))
          · exact absurd hkey hgone
        · exact .inr (.inr (.inr ⟨hlate, hsettles⟩))
    · exact hthis (.inl hstored)
  · rcases hkey with ⟨keys, hnext, hmem, hstored⟩ | ⟨hlate, hsettles⟩
    · cases hcarries.next.symm.trans hnext
      rw [hcarries.cache]
      refine ⟨hstored, fun hlist => ?_⟩
      exact (((Cache.listed_unlink h.listed keys).2 key).mp hlist).2 hmem
    · obtain ⟨htouch, hstays⟩ := not_or.mp hsettles
      refine ⟨not_not.mp hstays, fun hlist => ?_⟩
      rcases hlists key hlist with hbefore | rfl
      · exact (h.late key hlate).2 hbefore
      · exact htouch hcarries.next

/-- A step that touches nothing overtakes and settles no key. -/
theorem after_pauses (h : t.Sound capacity late) {step : Step I K V} (hpauses : t.Pauses step) :
    (t.after step).Sound capacity
      fun key => t.Overtakes step key ∨ late key ∧ ¬t.Settles step key := by
  have hstores : ∀ key, (t.after step).cache.Stores key ↔ t.cache.Stores key := fun key => by
    rw [Cache.Stores, hpauses.store, Cache.Stores]
  have hlists : ∀ key, (t.after step).cache.Lists key ↔ t.cache.Lists key := fun key => by
    rw [Cache.Lists, hpauses.recency, Cache.Lists]
  refine ⟨h.listed.of_recency hpauses.recency, fun key hkey => ?_, fun key hkey => ?_⟩
  · rw [hlists, hpauses.owed]
    rcases h.kept key ((hstores key).mp hkey) with hlist | hpromise | hlate
    · exact .inl hlist
    · exact .inr (.inl hpromise)
    · refine .inr (.inr (.inr ⟨hlate, ?_⟩))
      rintro (htouch | hgone)
      · cases hpauses.next.symm.trans htouch
      · exact hgone hkey
  · rw [hstores, hlists]
    rcases hkey with ⟨keys, hnext, -⟩ | ⟨hlate, -⟩
    · cases hpauses.next.symm.trans hnext
    · exact h.late key hlate

/-- Every stored key stays listed, owed or overtaken after a step. -/
theorem after (h : t.Sound capacity late) (hcap : capacity ≠ 0) (step : Step I K V) :
    (t.after step).Sound capacity
      fun key => t.Overtakes step key ∨ late key ∧ ¬t.Settles step key := by
  rcases t.pauses_or step with hpauses | ⟨instr, others, hcarries⟩
  · exact h.after_pauses hpauses
  · exact h.after_carries hcap hcarries

/-- Every stored key stays listed, owed or overtaken in a whole run, by
    induction on the steps. -/
theorem run (h : t.Sound capacity late) (hcap : capacity ≠ 0) (steps : List (Step I K V)) :
    (t.run steps).Sound capacity (t.overtakenFrom late steps) := by
  induction steps generalizing t late with
  | nil => exact h
  | cons step rest ih => exact ih (h.after hcap step)

end Sound

/-! ## Orderly traffic -/

/-- No key that somebody is about to take out of the recency list is
    stored. -/
def Courteous (t : Traffic I K V) : Prop :=
  ∀ key, t.Promises Instr.taken key → ¬t.cache.Stores key

/-- Traffic stays courteous as long as no key is stored that another caller is
    about to take out of the list. -/
theorem Courteous.after {t : Traffic I K V} {capacity : Nat} {late : K → Prop}
    (h : t.Courteous) (hsound : t.Sound capacity late) (hcap : capacity ≠ 0) {step : Step I K V}
    (hstep : ∀ key item, t.next? step = some (.store key item) → ¬t.Promises Instr.taken key) :
    (t.after step).Courteous := by
  intro key hpromise hstored
  rcases t.pauses_or step with hpauses | ⟨instr, others, hcarries⟩
  · rw [Cache.Stores, hpauses.store] at hstored
    exact h key ((hpauses.taken key).mp hpromise) hstored
  · obtain ⟨-, -, hstores, -, htaken⟩ := Cache.obeys hcap hsound.listed instr
    rw [← hcarries.cache] at hstores htaken
    have hbefore : t.Promises Instr.taken key := by
      rcases (hcarries.after _ _).mp hpromise with hmore | hothers
      · have hinstr := (htaken key hmore).resolve_right (not_not.mpr hstored)
        exact (hcarries.before _ _).mpr (.inl hinstr)
      · exact (hcarries.before _ _).mpr (.inr hothers)
    rcases hstores key hstored with hold | ⟨item, rfl⟩
    · exact h key hbefore hold
    · exact hstep key item hcarries.next hbefore

/-- A step of courteous callers overtakes no key. -/
theorem Courteous.not_overtakes {t : Traffic I K V} (h : t.Courteous) (step : Step I K V)
    (key : K) : ¬t.Overtakes step key := by
  rintro ⟨keys, hnext, hmem, hstored⟩
  rcases t.pauses_or step with hpauses | ⟨instr, others, hcarries⟩
  · cases hpauses.next.symm.trans hnext
  · cases hcarries.next.symm.trans hnext
    exact h key ((hcarries.before _ _).mpr (.inl hmem)) hstored

/-- No key is overtaken in courteous traffic. -/
theorem Courteous.not_overtakenFrom {t : Traffic I K V} {capacity : Nat} {late : K → Prop}
    (h : t.Courteous) (hsound : t.Sound capacity late) (hcap : capacity ≠ 0)
    (hnone : ∀ key, ¬late key) {steps : List (Step I K V)} (horderly : t.Orderly steps)
    (key : K) : ¬t.overtakenFrom late steps key := by
  induction steps generalizing t late with
  | nil => exact hnone key
  | cons step rest ih =>
      obtain ⟨hstep, hrest⟩ := horderly
      refine ih (h.after hsound hcap hstep) (hsound.after hcap step) (fun k => ?_) hrest
      rintro (hovertakes | ⟨hlate, -⟩)
      · exact h.not_overtakes step k hovertakes
      · exact hnone k hlate

/-! ## Callers that only store and read -/

/-- Nobody has anything to do from which it follows that a key is taken out
    of the recency list. -/
def AllMild (t : Traffic I K V) : Prop := ∀ i, ∀ instr ∈ t.tasks i, instr.Mild

omit [DecidableEq I] [DecidableEq K] in
/-- Where no caller deletes, no key is about to be taken out of the list. -/
theorem AllMild.not_promises {t : Traffic I K V} (h : t.AllMild) (key : K) :
    ¬t.Promises Instr.taken key := by
  rintro ⟨i, hmem⟩
  obtain ⟨instr, hinstr, htaken⟩ := List.mem_flatMap.mp hmem
  rw [(h i instr hinstr).taken_eq] at htaken
  cases htaken

/-- Where no caller deletes, none will if the calls that begin do not. -/
theorem AllMild.after {t : Traffic I K V} (h : t.AllMild) {step : Step I K V}
    (hstep : ∀ i errand, step = .begin i errand → errand.Mild) : (t.after step).AllMild := by
  cases step with
  | begin i errand =>
      cases htask : t.tasks i with
      | cons instr rest =>
          rwa [after_begin_of_busy htask]
      | nil =>
          rw [after_begin_of_free htask]
          refine (Function.forall_update_iff t.tasks fun _ task => ∀ instr ∈ task, instr.Mild).mpr
            ⟨fun instr hinstr => ?_, fun j _ => h j⟩
          rw [List.mem_singleton.mp hinstr]
          exact hstep i errand rfl
  | go i =>
      cases htask : t.tasks i with
      | nil =>
          rwa [after_go_of_free htask]
      | cons instr rest =>
          have hold := h i
          rw [htask] at hold
          rw [after_go_of_busy htask]
          refine (Function.forall_update_iff t.tasks fun _ task => ∀ instr ∈ task, instr.Mild).mpr
            ⟨fun next hnext => ?_, fun j _ => h j⟩
          rcases List.mem_append.mp hnext with hmore | hrest
          · exact (hold instr List.mem_cons_self).obey t.cache next hmore
          · exact hold next (List.mem_cons_of_mem instr hrest)
  | setWall wall => exact h

/-- Callers that neither remove nor sweep are orderly. -/
theorem AllMild.orderly {t : Traffic I K V} (h : t.AllMild) {steps : List (Step I K V)}
    (hsteps : ∀ i errand, .begin i errand ∈ steps → errand.Mild) : t.Orderly steps := by
  induction steps generalizing t with
  | nil => trivial
  | cons step rest ih =>
      refine ⟨fun key _ _ => h.not_promises key, ih (h.after fun i errand hbegin => ?_) ?_⟩
      · exact hsteps i errand (hbegin ▸ List.mem_cons_self)
      · exact fun i errand hmem => hsteps i errand (List.mem_cons_of_mem step hmem)

/-! ## When all calls have returned -/

omit [DecidableEq I] in
/-- A cache that has no callers, and lists what it stores, is sound traffic. -/
theorem sound_quiet {c : Cache K V} {capacity : Nat} (hcap : capacity ≠ 0)
    (hagrees : c.Agrees capacity) : (quiet c : Traffic I K V).Sound capacity fun _ => False := by
  obtain ⟨ks, hordered⟩ := hagrees
  obtain ⟨hzero, -⟩ | ⟨r, -, hsome, hr, hlists⟩ := hordered.ranks
  · exact absurd (hordered.bounded.symm.trans hzero) hcap
  · refine ⟨⟨r, ks, hsome, hr.trans hordered.bounded, hlists, hordered.room hcap⟩,
      fun key hkey => .inl ?_, fun _ hlate => hlate.elim⟩
    exact (Cache.ListsAtMost.lists_iff hsome hlists key).mpr ((hordered.stored key).mpr hkey)

omit [DecidableEq I] [DecidableEq K] in
/-- Nothing is promised when all calls have returned. -/
theorem Idle.not_promises {t : Traffic I K V} (h : t.Idle) (keys : Instr K V → List K)
    (key : K) : ¬t.Promises keys key := by
  rintro ⟨i, hmem⟩
  rw [h i] at hmem
  cases hmem

/-- A cache whose stored keys are all listed is within its capacity. -/
theorem size_le_of_lists {c : Cache K V} {capacity : Nat} (hlisted : c.ListsAtMost capacity)
    (h : ∀ key, c.Stores key → c.Lists key) : c.size ≤ capacity := by
  obtain ⟨r, ks, hsome, -, hlists, hlength⟩ := hlisted
  have hsub : c.keys ⊆ ks := fun key hmem =>
    (Cache.ListsAtMost.lists_iff hsome hlists key).mp (h key (Table.contains_iff.mpr hmem))
  have hsize : c.size = c.keys.length := (List.length_map Prod.fst).symm
  rw [hsize]
  exact Nat.le_trans (List.subperm_of_subset c.store.items.nodup hsub).length_le hlength

omit [DecidableEq I] [DecidableEq K] in
/-- A cache without callers has none that deletes. -/
theorem allMild_quiet (c : Cache K V) : (quiet c : Traffic I K V).AllMild :=
  fun _ _ hmem => (nomatch hmem)

/-- When all calls have returned, the stored keys that the recency list lacks
    are those that were overtaken, and without any the cache is within its
    capacity.  Orderly callers overtake none, and callers that neither remove
    nor sweep are orderly. -/
theorem unlisted_iff_overtaken {c : Cache K V} {capacity : Nat} (hcap : 0 < capacity)
    (hagrees : c.Agrees capacity) (steps : List (Step I K V))
    (hidle : ((quiet c).run steps).Idle) :
    (∀ key, ((quiet c).run steps).cache.Stores key ∧ ¬((quiet c).run steps).cache.Lists key ↔
        (quiet c).Overtaken steps key) ∧
      ((∀ key, ¬(quiet c).Overtaken steps key) → ((quiet c).run steps).cache.size ≤ capacity) ∧
      ((quiet c).Orderly steps → ∀ key, ¬(quiet c).Overtaken steps key) ∧
      ((∀ i errand, .begin i errand ∈ steps → errand.Mild) → (quiet c).Orderly steps) := by
  have hne : capacity ≠ 0 := Nat.ne_of_gt hcap
  have hstart : (quiet c : Traffic I K V).Sound capacity fun _ => False := sound_quiet hne hagrees
  have hsound := hstart.run hne steps
  have hiff : ∀ key, ((quiet c).run steps).cache.Stores key ∧
      ¬((quiet c).run steps).cache.Lists key ↔ (quiet c).Overtaken steps key := by
    intro key
    constructor
    · rintro ⟨hstored, hunlisted⟩
      rcases hsound.kept key hstored with hlist | hpromise | hlate
      · exact absurd hlist hunlisted
      · exact absurd hpromise (hidle.not_promises Instr.owed key)
      · exact hlate
    · exact hsound.late key
  refine ⟨hiff, fun hnone => size_le_of_lists hsound.listed fun key hstored => ?_,
    fun horderly => ?_, (allMild_quiet c).orderly⟩
  · by_contra hunlisted
    exact hnone key ((hiff key).mp ⟨hstored, hunlisted⟩)
  · have hcourteous : (quiet c : Traffic I K V).Courteous := fun key hpromise =>
      absurd hpromise (Idle.not_promises (fun _ => rfl) Instr.taken key)
    exact hcourteous.not_overtakenFrom hstart hne (fun _ => id) horderly

/-- A cache for one entry. -/
def narrow : Traffic Bool String Nat := quiet (.new 1 (.unread 0))

/-- A key expires.  A sweep deletes it, and before the sweep gets round to
    the recency list, another caller stores and uses the key again. -/
def collision : List (Step Bool String Nat) :=
  [.begin false (.put "k" 1 ⟨1100000000, by decide⟩)] ++ List.replicate 4 (.go false) ++
    [.begin false (.sweep ⟨id, fun keys => .refl keys⟩)] ++ List.replicate 12 (.go false) ++
    [.setWall 5000, .begin false (.sweep ⟨id, fun keys => .refl keys⟩)] ++
    List.replicate 7 (.go false) ++
    [.begin true (.put "k" 2 .zero)] ++ List.replicate 4 (.go true) ++
    List.replicate 7 (.go false)

/-- After that, another key is stored. -/
def aftermath : List (Step Bool String Nat) :=
  collision ++ [.begin true (.put "j" 3 .zero)] ++ List.replicate 4 (.go true)

theorem idle_collision : (narrow.run collision).Idle := by
  intro i
  refine List.isEmpty_iff.mp ?_
  cases i with
  | false => decide +kernel
  | true => decide +kernel

theorem not_lists_collision : ¬(narrow.run collision).cache.Lists "k" := by
  have hnone : ((narrow.run collision).cache.recency.any fun r => r.contains "k") = false := by
    decide +kernel
  rintro ⟨r, hsome, hcontains⟩
  rw [hsome, Option.any_some, hcontains] at hnone
  cases hnone

theorem unlisted_iff_overtaken_of_collision :
    (narrow.run collision).Idle ∧ narrow.Overtaken collision "k" := by
  obtain ⟨hiff, -⟩ := unlisted_iff_overtaken (c := .new 1 (.unread 0)) Nat.one_pos
    ⟨[], Cache.ordered_new 1 (.unread 0)⟩ collision idle_collision
  have hstored : (narrow.run collision).cache.Stores "k" := by
    rw [Cache.Stores]
    decide +kernel
  exact ⟨idle_collision, (hiff "k").mp ⟨hstored, not_lists_collision⟩⟩

/-- All calls have returned, and a stored key is not listed; and after a later
    call, two entries are stored where there is room for one. -/
theorem outgrows_after_collision :
    (narrow.run collision).Idle ∧ (narrow.run collision).cache.Stores "k" ∧
      ¬(narrow.run collision).cache.Lists "k" ∧ (narrow.run aftermath).Idle ∧
        (narrow.run aftermath).cache.capacity = 1 ∧ (narrow.run aftermath).cache.size = 2 := by
  refine ⟨idle_collision, ?_, not_lists_collision, fun i => List.isEmpty_iff.mp ?_, ?_, ?_⟩
  · rw [Cache.Stores]
    decide +kernel
  · cases i with
    | false => decide +kernel
    | true => decide +kernel
  · decide +kernel
  · decide +kernel

end Traffic

end ExpiringCache
