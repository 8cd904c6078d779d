import ExpiringCache.Proofs.Traffic.Steps

/-! # A caller that is alone

    Carried out without interruption, the accesses of a call do to the cache
    what the call does: nothing of a call has been left out, and nothing has
    been added. -/

namespace ExpiringCache

theorem NoticeQueue.pushAll_nil {K : Type} (q : NoticeQueue K) (instant : Int) :
    q.pushAll [] instant = q := by
  simp only [pushAll, List.map_nil, List.append_nil]

theorem NoticeQueue.pushAll_cons {K : Type} (q : NoticeQueue K) (key : K) (keys : List K)
    (instant : Int) :
    q.pushAll (key :: keys) instant = (q.push key instant).pushAll keys instant := by
  simp only [pushAll, push, List.map_cons, List.append_assoc, List.singleton_append]

namespace Round

variable {K : Type}

/-- A round in which `n` more entries have been deleted. -/
def plus (round : Round K) (n : Nat) : Round K := { round with expired := round.expired + n }

theorem plus_zero (round : Round K) : round.plus 0 = round := rfl

/-- A deletion that is counted during a sweep adds one to what it has counted. -/
theorem counted_plus (round : Round K) (n : Nat) :
    round.counted.plus n = round.plus (n + 1) := by
  rw [plus, plus, counted, Nat.add_assoc, Nat.add_comm 1 n]

end Round

variable {I K V : Type} [DecidableEq K]

/-- To carry out some instructions, with all that follows from them, takes a
    cache to another if nobody comes in between. -/
inductive Finishes : List (Instr K V) → Cache K V → Cache K V → Prop where
  | nil (c : Cache K V) : Finishes [] c c
  | cons {instr : Instr K V} {rest : List (Instr K V)} {c c' : Cache K V}
      (h : Finishes ((c.obey instr).1 ++ rest) (c.obey instr).2 c') : Finishes (instr :: rest) c c'

namespace Finishes

variable {c c' c'' : Cache K V}

/-- Tasks that finish one after the other finish together. -/
theorem append {first second : List (Instr K V)} (h : Finishes first c c')
    (h' : Finishes second c' c'') : Finishes (first ++ second) c c'' := by
  induction h with
  | nil c => exact h'
  | cons _ ih =>
      refine .cons ?_
      have hassoc := ih h'
      rwa [List.append_assoc] at hassoc

/-- What follows from an instruction comes before the rest. -/
theorem cons_of_obey {instr : Instr K V} {more rest : List (Instr K V)}
    (hobey : c.obey instr = (more, c')) (h : Finishes (more ++ rest) c' c'') :
    Finishes (instr :: rest) c c'' := by
  refine .cons ?_
  rw [hobey]
  exact h

/-- An instruction from which others follow. -/
theorem of_obey_of {instr : Instr K V} {more : List (Instr K V)}
    (hobey : c.obey instr = (more, c')) (h : Finishes more c' c'') : Finishes [instr] c c'' := by
  refine .cons_of_obey hobey ?_
  rw [List.append_nil]
  exact h

/-- An instruction that nothing follows from. -/
theorem of_obey {instr : Instr K V} (h : c.obey instr = ([], c')) : Finishes [instr] c c' :=
  .of_obey_of h (.nil c')

end Finishes

namespace Cache

/-! ## Storing and using -/

/-- Deleting keys one by one, with a notice of each. -/
theorem finishes_deletions (c : Cache K V) (keys : List K) (instant : Int) :
    Finishes (keys.flatMap fun key => [.delete key, .push key instant]) c
      { c with
        store := keys.foldl (fun store key => (store.delete key).2) c.store
        notices := c.notices.pushAll keys instant } := by
  induction keys generalizing c with
  | nil =>
      rw [NoticeQueue.pushAll_nil]
      exact .nil c
  | cons key rest ih =>
      rw [List.flatMap_cons]
      refine Finishes.append (.cons (.cons (.nil _))) ?_
      rw [NoticeQueue.pushAll_cons]
      exact ih _

/-- Using a key, with the deletion of what falls off. -/
theorem finishes_touch (c : Cache K V) (key : K) : Finishes [.touch key] c (c.touch key) := by
  cases hrecency : c.recency with
  | none =>
      refine .of_obey ?_
      simp only [obey, touch, hrecency]
  | some recency =>
      cases hevicted : (recency.touch key).1 with
      | nil =>
          refine .of_obey ?_
          simp only [obey, touch, hrecency, hevicted, List.isEmpty_nil, if_true]
      | cons k keys =>
          have hobey : c.obey (.touch key) =
              ([.evict (k :: keys)], { c with recency := some (recency.touch key).2 }) := by
            simp only [obey, hrecency, hevicted, List.isEmpty_cons, Bool.false_eq_true, if_false]
          have htouch : c.touch key = dropEvicted
              (read { c with recency := some (recency.touch key).2 }) (k :: keys) := by
            simp only [touch, hrecency, hevicted, List.isEmpty_cons, Bool.false_eq_true, if_false]
          rw [htouch]
          refine .of_obey_of hobey (.of_obey_of rfl ?_)
          refine Finishes.append (finishes_deletions _ (k :: keys) _) (.of_obey ?_)
          rw [dropEvicted, now_read]
          rfl

/-- To store a key and carry on with what that leaves to do is to write an
    item. -/
theorem finishes_store (c : Cache K V) (key : K) (value : V) (expireAt : Int) :
    Finishes [.store key ⟨value, expireAt⟩] c (c.write key value expireAt) :=
  .of_obey_of rfl (.cons (finishes_touch _ key))

/-! ## The calls -/

/-- Notices that are pushed one by one are those of a batch. -/
theorem finishes_marks (c : Cache K V) (keys : List K) (instant : Int) :
    Finishes (keys.map fun key => .push key instant) c
      { c with notices := c.notices.pushAll keys instant } := by
  induction keys generalizing c with
  | nil =>
      rw [NoticeQueue.pushAll_nil]
      exact .nil c
  | cons key rest ih =>
      rw [List.map_cons, NoticeQueue.pushAll_cons]
      exact .cons (ih _)

/-- The accesses of a removal come to `Cache.remove`. -/
theorem finishes_remove (c : Cache K V) (keys : List K) :
    Finishes [.call (.remove keys)] c (c.remove keys).2 := by
  by_cases hempty : keys.isEmpty = true
  · refine .of_obey ((access_remove_of_nil hempty).trans ?_)
    simp only [remove, hempty, if_true]
  · have hcall := c.access_remove_of_cons (Bool.eq_false_iff.mpr hempty)
    rw [← now_read] at hcall
    generalize hdeleted : c.read.store.deleteAll c.read.now keys = deleted at hcall
    have hremove : (c.remove keys).2 =
        { c.read with
          store := deleted.2
          notices := c.read.notices.pushAll deleted.1.1 (c.read.now - removalOffset)
          recency := c.read.recency.map fun recency => recency.removeAll deleted.1.1 } := by
      simp only [remove, if_neg hempty, hdeleted]
    -- the clock is read a second time, which shows nothing new
    have hmark : obey { c.read with store := deleted.2 } (.mark deleted.1.1) =
        ((deleted.1.1.map fun key => .push key (c.read.now - removalOffset)) ++
          [.unlink deleted.1.1], { c.read with store := deleted.2 }) := by
      have hread :
          read { c.read with store := deleted.2 } = { c.read with store := deleted.2 } := by
        show { c.read.read with store := deleted.2 } = _
        rw [read_read]
      simp only [obey, hread]
      rfl
    rw [hremove]
    refine .of_obey_of hcall (.of_obey_of hmark ?_)
    exact Finishes.append (finishes_marks _ _ _) (.of_obey rfl)

/-- The accesses of a call that sets a key come to `Cache.put`, with any
    lifetime. -/
theorem finishes_put (c : Cache K V) (key : K) (value : V) (ttl : Duration) :
    Finishes [.call (.put key value ttl)] c (c.put key value ttl) := by
  by_cases hneg : ttl.isNegative = true
  · refine .of_obey_of (access_put_of_neg hneg key value) ?_
    rw [put, if_pos hneg]
    exact c.finishes_remove [key]
  · refine .of_obey_of (access_put_of_nonneg (Bool.eq_false_iff.mpr hneg) key value) ?_
    rw [put, if_neg hneg]
    exact finishes_store _ key value _

/-- The accesses of a look-up come to `Cache.get`. -/
theorem finishes_get (c : Cache K V) (key : K) :
    Finishes [.call (.get key)] c (c.get key).2 := by
  refine .of_obey_of rfl ?_
  rw [← now_read]
  cases hlive : c.read.store.live? c.read.now key with
  | some item =>
      refine .of_obey_of (obey_lookUp_of_live (Option.isSome_of_mem hlive)) (.cons ?_)
      simp only [get, hlive]
      exact finishes_touch _ key
  | none =>
      refine .of_obey_of (obey_lookUp_of_dead (Option.isSome_eq_false_iff.mpr ?_)) (.of_obey ?_)
      · rw [hlive]
        rfl
      · simp only [get, hlive, obey]

/-- The accesses of a call that replaces a value come to `Cache.replace`. -/
theorem finishes_replace (c : Cache K V) (key : K) (value : V) :
    Finishes [.call (.replace key value)] c (c.replace key value).2 := by
  have hobey : c.obey (.call (.replace key value)) =
      (if (c.read.store.replaceValue c.read.now key value).1.isSome then [.touch key] else [],
        { c.read with store := (c.read.store.replaceValue c.read.now key value).2 }) := by
    simp only [obey, access, now_read]
  refine .of_obey_of hobey ?_
  simp only [replace]
  split
  · exact finishes_touch _ key
  · exact .nil _

/-! ## The sweep -/

/-- What waits in the queue makes no difference to how a notice is worked
    off. -/
theorem handleNotice_notices (c : Cache K V) (queue : NoticeQueue K) (now oldest : Int)
    (notice : Notice K) :
    handleNotice { c with notices := queue } now oldest notice =
      ((c.handleNotice now oldest notice).1,
        { (c.handleNotice now oldest notice).2 with notices := queue }) := by
  cases hitem : c.store.item? notice.key with
  | none => simp only [handleNotice, hitem]
  | some item =>
      simp only [handleNotice, hitem, collect]
      split
      · cases c.store.deleteExpired now notice.key with
        | mk deleted store =>
            cases deleted with
            | false => rfl
            | true => rfl
      · rfl

variable {c' : Cache K V}

/-- Working off one notice. -/
theorem finishes_inspect (c : Cache K V) (round : Round K) (notice : Notice K)
    (h : Finishes
      [.drain (if (c.handleNotice round.now round.oldest notice).1 then round.counted else round)]
      (c.handleNotice round.now round.oldest notice).2 c') :
    Finishes [.inspect round notice] c c' := by
  cases hitem : c.store.item? notice.key with
  | none =>
      simp only [handleNotice, hitem] at h
      exact .of_obey_of (obey_inspect_of_gone hitem) (.cons (.cons h))
  | some item =>
      by_cases hexpired : item.isExpiredAt round.now = true
      · simp only [handleNotice, hitem, hexpired, if_true, collect] at h
        refine .of_obey_of (obey_inspect_of_expired hitem hexpired) ?_
        cases hstore : c.store.deleteExpired round.now notice.key with
        | mk deleted store =>
            rw [hstore] at h
            cases deleted with
            | false => exact .of_obey_of (obey_expel_of_false hstore) (.cons h)
            | true => exact .of_obey_of (obey_expel_of_true hstore) (.cons (.cons h))
      · simp only [handleNotice, hitem, if_neg hexpired] at h
        exact .of_obey_of (obey_inspect_of_live hitem hexpired) (.cons h)

/-- A sweep that is alone handles just the notices that were waiting as it
    began. -/
theorem finishes_drain (c : Cache K V) (round : Round K)
    (h : Finishes
      [.scan
        (round.plus (tally (fun c notice => c.handleNotice round.now round.oldest notice)
          c.notices.waiting { c with notices := .empty }).1) scanOffsets]
      (tally (fun c notice => c.handleNotice round.now round.oldest notice) c.notices.waiting
        { c with notices := .empty }).2 c') :
    Finishes [.drain round] c c' := by
  generalize hwaiting : c.notices.waiting = waiting at h
  have hqueue : c.notices = ⟨waiting⟩ := congrArg NoticeQueue.mk hwaiting
  induction waiting generalizing c round with
  | nil =>
      have hpop : c.notices.pop = (none, ⟨[]⟩) := by rw [hqueue, NoticeQueue.pop]
      have hsame : { c with notices := .empty } = c := by
        rw [NoticeQueue.empty, ← hqueue]
      simp only [tally, hsame, Round.plus_zero] at h
      exact .of_obey_of (obey_drain_of_none hpop) h
  | cons notice rest ih =>
      have hpop : c.notices.pop = (some notice, ⟨rest⟩) := by rw [hqueue, NoticeQueue.pop]
      have hframe := c.handleNotice_notices ⟨rest⟩ round.now round.oldest notice
      refine .of_obey_of (obey_drain_of_some hpop) (finishes_inspect _ round notice ?_)
      simp only [tally, c.handleNotice_notices .empty] at h
      rw [hframe]
      generalize c.handleNotice round.now round.oldest notice = answer at h ⊢
      obtain ⟨counted, c₁⟩ := answer
      cases counted with
      | false => exact ih { c₁ with notices := ⟨rest⟩ } round rfl h rfl
      | true =>
          refine ih { c₁ with notices := ⟨rest⟩ } round.counted rfl ?_ rfl
          rw [Round.counted_plus]
          exact h

/-- Looking at one key of a bucket. -/
theorem finishes_visit_cons (c : Cache K V) (round : Round K) (bucket : Int) (key : K)
    (keys : List K) (offsets : List Int)
    (h : Finishes
      [.visit (if (c.visit round.now bucket key).1 then round.counted else round) bucket keys
        offsets] (c.visit round.now bucket key).2 c') :
    Finishes [.visit round bucket (key :: keys) offsets] c c' := by
  cases hlive : c.store.live? round.now key with
  | some item =>
      refine .of_obey_of (obey_visit_of_live hlive) ?_
      by_cases hbucket : c.index.bucket key = bucket
      · simp only [visit, hlive, if_pos hbucket] at h
        exact .cons_of_obey (obey_refile_of_eq hbucket item.expireAt) (.cons h)
      · simp only [visit, hlive, if_neg hbucket] at h
        exact .cons_of_obey (obey_refile_of_ne hbucket item.expireAt) h
  | none =>
      refine .of_obey_of (obey_visit_of_dead hlive) ?_
      cases hexpired : c.store.deleteExpired round.now key with
      | mk deleted store =>
          cases deleted with
          | true =>
              simp only [visit, hlive, collect, hexpired, Bool.true_or, if_true] at h
              exact .of_obey_of (obey_oust_of_true hexpired) (.cons (.cons h))
          | false =>
              simp only [visit, hlive, collect, hexpired, Bool.false_or] at h
              refine .of_obey_of (obey_oust_of_false hexpired) ?_
              cases hcontains : c.store.contains key with
              | true =>
                  simp only [hcontains, Bool.not_true, Bool.false_eq_true, if_false] at h
                  exact .cons_of_obey (obey_check_of_stored hcontains bucket) h
              | false =>
                  simp only [hcontains, Bool.not_false, if_true] at h
                  exact .cons_of_obey (obey_check_of_gone hcontains bucket) (.cons h)

/-- The keys of a deleted bucket are visited one by one, and what a sweep has
    counted goes with it to the next bucket. -/
theorem finishes_visit (c : Cache K V) (round : Round K) (bucket : Int) (keys : List K)
    (offsets : List Int)
    (h : Finishes
      [.scan (round.plus (tally (fun c key => c.visit round.now bucket key) keys c).1) offsets]
      (tally (fun c key => c.visit round.now bucket key) keys c).2 c') :
    Finishes [.visit round bucket keys offsets] c c' := by
  induction keys generalizing c round with
  | nil =>
      rw [tally, Round.plus_zero] at h
      exact .of_obey_of rfl h
  | cons key rest ih =>
      refine finishes_visit_cons c round bucket key rest offsets ?_
      simp only [tally] at h
      generalize c.visit round.now bucket key = answer at h ⊢
      obtain ⟨counted, c₁⟩ := answer
      cases counted with
      | false => exact ih c₁ round h
      | true =>
          refine ih c₁ round.counted ?_
          rw [Round.counted_plus]
          exact h

/-- Deleting the buckets. -/
theorem finishes_scan (c : Cache K V) (round : Round K) (offsets : List Int)
    (h : Finishes
      [.countExpired (round.expired +
        (scanAll round.order.arrange round.now round.current offsets c).1)]
      (scanAll round.order.arrange round.now round.current offsets c).2 c') :
    Finishes [.scan round offsets] c c' := by
  induction offsets generalizing c round with
  | nil => exact .of_obey_of rfl h
  | cons offset rest ih =>
      simp only [scanAll, scan] at h
      cases hbucket : c.index.deleteBucket (round.current - offset * bucketWidth) with
      | mk listed index =>
          cases listed with
          | none =>
              simp only [hbucket, Nat.zero_add] at h
              exact .of_obey_of (obey_scan_of_none hbucket) (ih c round h)
          | some keys =>
              simp only [hbucket, ← Nat.add_assoc] at h
              exact .of_obey_of (obey_scan_of_some hbucket)
                (finishes_visit _ round _ _ rest (ih _ (round.plus _) h))

/-- The accesses of a sweep come to a sweep. -/
theorem finishes_sweep (c : Cache K V) (order : VisitingOrder K) :
    Finishes [.call (.sweep order)] c (c.swept order) := by
  refine .of_obey_of rfl (finishes_drain _ _ (finishes_scan _ _ _ (.of_obey ?_)))
  simp only [obey, swept, sweepWith, NoticeQueue.drain, Round.plus, Round.current, Round.oldest,
    Nat.zero_add]

/-! ## Any call -/

/-- The cache after a call of a caller that is alone. -/
def afterCall (c : Cache K V) : Errand K V → Cache K V
  | .put key value ttl => c.put key value ttl
  | .get key => (c.get key).2
  | .replace key value => (c.replace key value).2
  | .remove keys => (c.remove keys).2
  | .sweep order => c.swept order

/-- The accesses of any call come to that call. -/
theorem finishes_call (c : Cache K V) (errand : Errand K V) :
    Finishes [.call errand] c (c.afterCall errand) := by
  cases errand with
  | put key value ttl => exact c.finishes_put key value ttl
  | get key => exact c.finishes_get key
  | replace key value => exact c.finishes_replace key value
  | remove keys => exact c.finishes_remove keys
  | sweep order => exact c.finishes_sweep order

end Cache

namespace Traffic

variable [DecidableEq I]

/-- Nobody comes in between if one caller does all that it has to do while
    the others rest. -/
theorem run_of_finishes {tasks : List (Instr K V)} {c c' : Cache K V}
    (h : Finishes tasks c c') (others : I → List (Instr K V)) (i : I) :
    ∃ n, (⟨c, Function.update others i tasks⟩ : Traffic I K V).run (List.replicate n (.go i)) =
      ⟨c', Function.update others i []⟩ := by
  induction h with
  | nil c => exact ⟨0, rfl⟩
  | @cons instr rest c c' _ ih =>
      obtain ⟨n, hn⟩ := ih
      refine ⟨n + 1, ?_⟩
      have hafter := after_go_of_busy (t := ⟨c, Function.update others i (instr :: rest)⟩)
        (Function.update_self i (instr :: rest) others)
      rw [Function.update_idem] at hafter
      rw [List.replicate_succ, run, List.foldl_cons, hafter]
      exact hn

/-- A call that is not interrupted does what it does to a cache that nobody
    else uses. -/
theorem run_call (t : Traffic I K V) {i : I} (hfree : t.tasks i = []) (errand : Errand K V) :
    ∃ n, t.run (.begin i errand :: List.replicate n (.go i)) =
      { t with cache := t.cache.afterCall errand } := by
  obtain ⟨n, hn⟩ := run_of_finishes (t.cache.finishes_call errand) t.tasks i
  refine ⟨n, ?_⟩
  have hrest : Function.update t.tasks i [] = t.tasks := by
    rw [← hfree, Function.update_eq_self]
  rw [hrest] at hn
  rw [run, List.foldl_cons, after_begin_of_free hfree]
  exact hn

end Traffic

end ExpiringCache
