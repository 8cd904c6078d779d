import ExpiringCache.Proofs.Race.Values

/-! # Where an answer comes from

    A caller that returns a value has it from the one computation of its key
    that ended in a value, and an error is its own.  A caller that returns
    nothing has it from a leader whose computation ended in nothing; that
    leader was still registered when the caller began, or is the caller
    itself. -/

namespace ExpiringCache

namespace Race

variable {I K V : Type} {key : I → K} {log : List (Happening I V)} {i : I}

/-- The computation that a leader's value comes from. -/
def Yielded (key : I → K) (log : List (Happening I V)) (i : I) : Option V → Prop
  | some value => ∃ j, key j = key i ∧ .ended j (.value value) ∈ log
  | none => .ended i .nothing ∈ log

/-- The computation of the caller itself that ended in a fault. -/
def Failed (log : List (Happening I V)) (i : I) (fault : Fault) : Prop :=
  ∃ ending : Ending V, .ended i ending ∈ log ∧ ending.toExcept = .error fault

/-- Where a leader has its landing from. -/
def Landed (key : I → K) (log : List (Happening I V)) (i : I) :
    Except Fault (Option V × Bool) → Prop
  | .ok (value, _) => Yielded key log i value
  | .error fault => Failed log i fault

/-- Where a caller has its answer from. -/
def Accounted (key : I → K) (log : List (Happening I V)) (i : I) :
    Except Fault (Option V) → Prop
  | .ok value => ∃ j, key j = key i ∧ Yielded key log j value ∧
      (value = none → [.left j, .began i].Sublist log)
  | .error fault => Failed log i fault

/-- What is known of a caller that has come to something. -/
def Supported (key : I → K) (log : List (Happening I V)) (i : I) : Phase I V → Prop
  | .leaves landing => Landed key log i landing
  | .publishes landing => Landed key log i landing ∧ [.left i, .began i].Sublist log
  | .settles landing => Accounted key log i (landing.map Prod.fst)
  | _ => True

section later

variable (what : Happening I V)

theorem Yielded.later {value : Option V} (h : Yielded key log i value) :
    Yielded key (what :: log) i value := by
  cases value with
  | none => exact List.mem_cons_of_mem what h
  | some v =>
      obtain ⟨j, hkey, hmem⟩ := h
      exact ⟨j, hkey, List.mem_cons_of_mem what hmem⟩

theorem Failed.later {fault : Fault} (h : Failed log i fault) : Failed (what :: log) i fault := by
  obtain ⟨ending, hmem, hfault⟩ := h
  exact ⟨ending, List.mem_cons_of_mem what hmem, hfault⟩

theorem Landed.later {landing : Except Fault (Option V × Bool)} (h : Landed key log i landing) :
    Landed key (what :: log) i landing := by
  cases landing with
  | error fault => exact Failed.later what h
  | ok landed => exact Yielded.later what h

theorem Accounted.later {result : Except Fault (Option V)} (h : Accounted key log i result) :
    Accounted key (what :: log) i result := by
  cases result with
  | error fault => exact Failed.later what h
  | ok value =>
      obtain ⟨j, hkey, hyielded, hleft⟩ := h
      exact ⟨j, hkey, hyielded.later what, fun hnone => (hleft hnone).cons what⟩

theorem Supported.later {phase : Phase I V} (h : Supported key log i phase) :
    Supported key (what :: log) i phase := by
  cases phase with
  | leaves landing => exact Landed.later what h
  | publishes landing => exact ⟨h.1.later what, h.2.cons what⟩
  | settles landing => exact Accounted.later what h
  | _ => trivial

end later

/-- What a leader has come to is good for all who had begun when it left. -/
theorem Landed.accounted {landing : Except Fault (Option V × Bool)} (h : Landed key log i landing)
    (hleft : [.left i, .began i].Sublist log) : Accounted key log i (landing.map Prod.fst) := by
  cases landing with
  | error fault => exact h
  | ok landed => exact ⟨i, rfl, h, fun _ => hleft⟩

/-- A computation that has ended supports what its caller does next. -/
theorem supported_ofEnding {ending : Ending V} (hmem : .ended i ending ∈ log) :
    Supported key log i (.ofEnding ending) := by
  cases ending with
  | value v => trivial
  | nothing => exact hmem
  | failed failure => exact ⟨_, hmem, rfl⟩
  | panicked text => exact ⟨_, hmem, rfl⟩

/-- Everything that callers have come to, are told and have returned comes
    from a computation. -/
structure Answers (key : I → K) (phase : I → Phase I V) (signal : I → Signal V)
    (log : List (Happening I V)) : Prop where
  supported : ∀ i, Supported key log i (phase i)
  signalled : ∀ j value, signal j = .landed value → Yielded key log j value ∧ .left j ∈ log
  returned : ∀ i result, .returned i result ∈ log → Accounted key log i result

/-- Before the first piece nobody has an answer. -/
theorem answers_start (key : I → K) (clock : Clock) :
    Answers key (start clock : Race I K V).phase (start clock : Race I K V).signal
      (start clock : Race I K V).log where
  supported := fun _ => trivial
  signalled := fun _ _ h => by cases h
  returned := fun _ _ h => absurd h List.not_mem_nil

namespace Answers

variable {phase : I → Phase I V} {signal : I → Signal V}

/-- What is noted in the log takes no evidence away. -/
theorem note (h : Answers key phase signal log) {what : Happening I V}
    (hreturned : ∀ i result, what = .returned i result → Accounted key log i result) :
    Answers key phase signal (what :: log) where
  supported := fun i => (h.supported i).later what
  signalled := by
    intro j value hj
    obtain ⟨hyielded, hleft⟩ := h.signalled j value hj
    exact ⟨hyielded.later what, List.mem_cons_of_mem what hleft⟩
  returned := by
    intro j result hmem
    refine Accounted.later what ?_
    rcases List.mem_cons.mp hmem with heq | hmem
    · exact hreturned j result heq.symm
    · exact h.returned j result hmem

variable [DecidableEq I]

/-- A caller may go on to any phase that has its evidence in the log. -/
theorem become (h : Answers key phase signal log) {next : Phase I V}
    (hnext : Supported key log i next) : Answers key (Function.update phase i next) signal log where
  supported := (Function.forall_update_iff phase fun j p => Supported key log j p).mpr
    ⟨hnext, fun j _ => h.supported j⟩
  signalled := h.signalled
  returned := h.returned

/-- A leader that has left tells what it has come to. -/
theorem tell (h : Answers key phase signal log) {landing : Except Fault (Option V × Bool)}
    (hlanded : Landed key log i landing) (hleft : .left i ∈ log) :
    Answers key phase (Function.update signal i (.ofLanding landing)) log where
  supported := h.supported
  signalled := by
    refine (Function.forall_update_iff signal fun j told =>
      ∀ value, told = .landed value → Yielded key log j value ∧ .left j ∈ log).mpr
      ⟨fun value hvalue => ?_, fun j _ => h.signalled j⟩
    cases landing with
    | error fault => cases hvalue
    | ok landed =>
        cases hvalue
        exact ⟨hlanded, hleft⟩
  returned := h.returned

variable {s s' : Race I K V}

/-- Every move keeps each answer supported by the log. -/
theorem moves [DecidableEq K] (h : Answers key s.phase s.signal s.log) (hturns : Turns key s)
    (htrail : Trail s.phase s.log) (hholding : Holding key s.cache.store.item? s.phase s.log)
    {ending : Ending V} (hmoves : Moves key s i ending s') :
    Answers key s'.phase s'.signal s'.log := by
  cases hmoves with
  | found item c hphase hitem hc =>
      have hbegan : Answers key s.phase s.signal (.began i :: s.log) := h.note (by simp)
      refine (hbegan.note fun j result hj => ?_).become trivial
      cases hj
      obtain ⟨j, hkey, hmem⟩ := hholding.explained (key i) item hitem
      exact ⟨i, rfl, ⟨j, hkey, List.mem_cons_of_mem _ hmem⟩, fun hnone => by cases hnone⟩
  | missed c hphase hc =>
      have hbegan : Answers key s.phase s.signal (.began i :: s.log) := h.note (by simp)
      exact hbegan.become trivial
  | joined leader hphase hleader => exact h.become trivial
  | enrolled hphase hfree =>
      exact h.become trivial
  | told leader value hphase hsignal =>
      obtain ⟨hkey, -⟩ := hturns.awaited i leader hphase
      obtain ⟨hyielded, hleft⟩ := h.signalled leader value hsignal
      exact h.become ⟨leader, hkey, hyielded, fun _ => htrail.overtaken i leader hphase hleft⟩
  | retried leader hphase hsignal => exact h.become trivial
  | foundAgain item c hphase hitem hc => exact h.become (hholding.explained (key i) item hitem)
  | readied c hphase hitem hc => exact h.become trivial
  | started hphase =>
      have hstarted : Answers key s.phase s.signal (.started i :: s.log) := h.note (by simp)
      exact hstarted.become trivial
  | concluded hphase =>
      have hended : Answers key s.phase s.signal (.ended i ending :: s.log) := h.note (by simp)
      exact hended.become (supported_ofEnding List.mem_cons_self)
  | kept value hphase =>
      exact h.become ⟨i, rfl, hholding.stored i value hphase⟩
  | left landing hphase =>
      have hlanded : Landed key s.log i landing := by
        have hsupported := h.supported i
        rwa [hphase] at hsupported
      have hbegan : .began i ∈ s.log := htrail.began i (by simp [hphase])
      have hleft : Answers key s.phase s.signal (.left i :: s.log) := h.note (by simp)
      exact hleft.become ⟨hlanded.later _, pair_sublist_cons.mpr (Or.inr ⟨rfl, hbegan⟩)⟩
  | published landing hphase =>
      have hsupported := h.supported i
      rw [hphase] at hsupported
      obtain ⟨hlanded, hleft⟩ := hsupported
      exact (h.tell hlanded (hleft.subset List.mem_cons_self)).become (hlanded.accounted hleft)
  | settled landing c hphase hc =>
      refine (h.note fun j result hj => ?_).become trivial
      cases hj
      have hsupported := h.supported i
      rwa [hphase] at hsupported
  | stayed => exact h

end Answers

end Race

end ExpiringCache
