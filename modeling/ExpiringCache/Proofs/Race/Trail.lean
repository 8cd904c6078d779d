import ExpiringCache.Proofs.Race.Turns

/-! # What the log says about a caller

    The phase of a caller tells what it has written down.  It has begun
    unless it is idle, it has started no computation before it computes, and
    it has left the registry only if it is past that.  A leader that has left
    is not in the registry any more, so whoever still waits for it had begun
    before. -/

namespace ExpiringCache

namespace Race

variable {I K V : Type} {phase : I → Phase I V} {log : List (Happening I V)} {i : I}

/-- The latest is written in front. -/
theorem pair_sublist_cons {α : Type} {later earlier newest : α} {log : List α} :
    [later, earlier].Sublist (newest :: log) ↔
      [later, earlier].Sublist log ∨ later = newest ∧ earlier ∈ log := by
  rw [List.sublist_cons_iff]
  constructor
  · rintro (h | ⟨rest, heq, hrest⟩)
    · exact Or.inl h
    · cases heq
      exact Or.inr ⟨rfl, List.singleton_sublist.mp hrest⟩
  · rintro (h | ⟨rfl, hmem⟩)
    · exact Or.inl h
    · exact Or.inr ⟨[earlier], rfl, List.singleton_sublist.mpr hmem⟩

end Race

namespace Phase

variable {I V : Type}

/-- No computation has started. -/
def unstarted : Phase I V → Bool
  | idle => true
  | missed => true
  | waits _ => true
  | leads => true
  | ready => true
  | _ => false

/-- Its flight, if there was any, is out of the registry for good. -/
def late : Phase I V → Bool
  | publishes _ => true
  | settles _ => true
  | done _ => true
  | _ => false

theorem not_late_of_registered {phase : Phase I V} (h : phase.registered = true) :
    phase.late = false := by
  cases phase <;> first | rfl | cases h

theorem not_unstarted_ofEnding (ending : Ending V) :
    (ofEnding ending : Phase I V).unstarted = false := by
  cases ending <;> rfl

end Phase

namespace Race

variable {I K V : Type} {phase : I → Phase I V} {log : List (Happening I V)} {i : I}

/-- What is written down fits the phases. -/
structure Trail (phase : I → Phase I V) (log : List (Happening I V)) : Prop where
  began : ∀ i, phase i ≠ .idle → .began i ∈ log
  fresh : ∀ i, (phase i).unstarted = true → .started i ∉ log
  once : ∀ i, ¬ [.started i, .started i].Sublist log
  gone : ∀ i, .left i ∈ log → (phase i).late = true
  overtaken : ∀ i j, phase i = .waits j → .left j ∈ log → [.left j, .began i].Sublist log

theorem trail_start (clock : Clock) :
    Trail (start clock : Race I K V).phase (start clock : Race I K V).log where
  began := fun _ h => absurd rfl h
  fresh := fun _ _ => List.not_mem_nil
  once := fun _ h => by cases h
  gone := fun _ h => absurd h List.not_mem_nil
  overtaken := fun _ _ _ h => absurd h List.not_mem_nil

namespace Trail

/-- Something is written down: the start of a computation by a caller that is
    to compute for the first time, leaving by one that is past it, or
    something else. -/
theorem note (h : Trail phase log) {what : Happening I V}
    (hstarted : ∀ j, what = .started j → (phase j).unstarted = false ∧ .started j ∉ log)
    (hleft : ∀ j, what = .left j → (phase j).late = true) : Trail phase (what :: log) where
  began := fun j hj => List.mem_cons_of_mem what (h.began j hj)
  fresh := by
    intro j hj hmem
    rcases List.mem_cons.mp hmem with heq | hmem
    · rw [(hstarted j heq.symm).1] at hj
      cases hj
    · exact h.fresh j hj hmem
  once := by
    intro j hpair
    rcases pair_sublist_cons.mp hpair with hpair | ⟨heq, hmem⟩
    · exact h.once j hpair
    · exact (hstarted j heq.symm).2 hmem
  gone := by
    intro j hmem
    rcases List.mem_cons.mp hmem with heq | hmem
    · exact hleft j heq.symm
    · exact h.gone j hmem
  overtaken := by
    intro a j ha hmem
    refine pair_sublist_cons.mpr ?_
    rcases List.mem_cons.mp hmem with heq | hmem
    · exact Or.inr ⟨heq, h.began a (by rw [ha]; exact fun hidle => by cases hidle)⟩
    · exact Or.inl (h.overtaken a j ha hmem)

variable [DecidableEq I]

/-- A caller that has begun goes on. -/
theorem become (h : Trail phase log) {next : Phase I V} (hbegan : .began i ∈ log)
    (hfresh : next.unstarted = true → (phase i).unstarted = true)
    (hlate : (phase i).late = true → next.late = true)
    (hwaits : ∀ j, next = .waits j → .left j ∉ log) :
    Trail (Function.update phase i next) log where
  began := (Function.forall_update_iff phase fun j p => p ≠ .idle → .began j ∈ log).mpr
    ⟨fun _ => hbegan, fun j _ => h.began j⟩
  fresh := (Function.forall_update_iff phase fun j p => p.unstarted = true → .started j ∉ log).mpr
    ⟨fun hi => h.fresh i (hfresh hi), fun j _ => h.fresh j⟩
  once := h.once
  gone := (Function.forall_update_iff phase fun j p => .left j ∈ log → p.late = true).mpr
    ⟨fun hi => hlate (h.gone i hi), fun j _ => h.gone j⟩
  overtaken := (Function.forall_update_iff phase fun a p =>
      ∀ j, p = .waits j → .left j ∈ log → [.left j, .began a].Sublist log).mpr
    ⟨fun j hj hmem => absurd hmem (hwaits j hj), fun a _ => h.overtaken a⟩

/-- A caller in the middle of its call goes on, and does not begin to wait. -/
theorem goesOn (h : Trail phase log) {here next : Phase I V} (hphase : phase i = here)
    (hidle : here ≠ .idle) (hfresh : next.unstarted = true → here.unstarted = true)
    (hlate : here.late = true → next.late = true) (hwaits : ∀ j, next ≠ .waits j) :
    Trail (Function.update phase i next) log :=
  h.become (h.began i (hphase ▸ hidle)) (hphase ▸ hfresh) (hphase ▸ hlate)
    fun j hj => absurd hj (hwaits j)

variable {key : I → K} {s s' : Race I K V}

theorem moves [DecidableEq K] (h : Trail s.phase s.log) (hturns : Turns key s) {ending : Ending V}
    (hmoves : Moves key s i ending s') : Trail s'.phase s'.log := by
  cases hmoves with
  | found item c hphase hitem hc =>
      have hbegan : Trail s.phase (.began i :: s.log) := h.note (by simp) (by simp)
      have hreturned : Trail s.phase (.returned i (.ok (some item.value)) :: .began i :: s.log) :=
        hbegan.note (by simp) (by simp)
      exact hreturned.become (by simp) (by simp [Phase.unstarted]) (by simp [Phase.late]) (by simp)
  | missed c hphase hc =>
      have hbegan : Trail s.phase (.began i :: s.log) := h.note (by simp) (by simp)
      exact hbegan.become (by simp) (by simp [hphase, Phase.unstarted])
        (by simp [hphase, Phase.late]) (by simp)
  | joined leader hphase hleader =>
      obtain ⟨-, hled⟩ := (hturns.registered (key i) leader).mp hleader
      have hthere : .left leader ∉ s.log := fun hmem => by
        have hlate := h.gone leader hmem
        rw [Phase.not_late_of_registered hled] at hlate
        cases hlate
      refine h.become (h.began i (by simp [hphase])) (by simp [hphase, Phase.unstarted])
        (by simp [hphase, Phase.late]) fun j hj => ?_
      cases hj
      exact hthere
  | enrolled hphase hfree =>
      exact h.goesOn hphase (by simp) (by simp [Phase.unstarted]) (by simp [Phase.late]) (by simp)
  | told leader value hphase hsignal =>
      exact h.goesOn hphase (by simp) (by simp [Phase.unstarted]) (by simp [Phase.late]) (by simp)
  | retried leader hphase hsignal =>
      exact h.goesOn hphase (by simp) (by simp [Phase.unstarted]) (by simp [Phase.late]) (by simp)
  | foundAgain item c hphase hitem hc =>
      exact h.goesOn hphase (by simp) (by simp [Phase.unstarted]) (by simp [Phase.late]) (by simp)
  | readied c hphase hitem hc =>
      exact h.goesOn hphase (by simp) (by simp [Phase.unstarted]) (by simp [Phase.late]) (by simp)
  | started hphase =>
      have hcomputes : Trail (Function.update s.phase i .computes) s.log :=
        h.goesOn hphase (by simp) (by simp [Phase.unstarted]) (by simp [Phase.late]) (by simp)
      refine hcomputes.note (fun j hj => ?_) (by simp)
      cases hj
      rw [Function.update_self]
      exact ⟨rfl, h.fresh i (by rw [hphase]; rfl)⟩
  | concluded hphase =>
      have hended : Trail s.phase (.ended i ending :: s.log) := h.note (by simp) (by simp)
      exact hended.goesOn hphase (by simp) (by simp [Phase.not_unstarted_ofEnding])
        (by simp [Phase.late]) (Phase.ofEnding_ne_waits ending)
  | kept value hphase =>
      exact h.goesOn hphase (by simp) (by simp [Phase.unstarted]) (by simp [Phase.late]) (by simp)
  | left landing hphase =>
      have hpublishes : Trail (Function.update s.phase i (.publishes landing)) s.log :=
        h.goesOn hphase (by simp) (by simp [Phase.unstarted]) (by simp [Phase.late]) (by simp)
      refine hpublishes.note (by simp) fun j hj => ?_
      cases hj
      rw [Function.update_self]
      rfl
  | published landing hphase =>
      exact h.goesOn hphase (by simp) (by simp [Phase.unstarted]) (by simp [Phase.late]) (by simp)
  | settled landing c hphase hc =>
      have hreturned : Trail s.phase (.returned i (landing.map Prod.fst) :: s.log) :=
        h.note (by simp) (by simp)
      exact hreturned.goesOn hphase (by simp) (by simp [Phase.unstarted]) (by simp [Phase.late])
        (by simp)
  | stayed => exact h

end Trail

end Race

end ExpiringCache
