import ExpiringCache.Proofs.Race.Trail

/-! # One value for each key

    A caller computes only under its flight and after it has found nothing
    under its key, and the value it comes to is stored before the flight
    ends.  So the first computation of a key that ends in a value is the
    last: the item that it leaves is there for everybody who looks again. -/

namespace ExpiringCache

namespace Phase

variable {I V : Type}

/-- It has looked under its flight and found nothing, and has not stored
    anything since. -/
def producing : Phase I V → Bool
  | ready => true
  | computes => true
  | stores _ => true
  | _ => false

theorem registered_of_producing {phase : Phase I V} (h : phase.producing = true) :
    phase.registered = true := by
  cases phase <;> first | rfl | cases h

theorem producing_ofEnding {ending : Ending V}
    (h : (ofEnding ending : Phase I V).producing = true) : ∃ v, ending = .value v := by
  cases ending with
  | value v => exact ⟨v, rfl⟩
  | _ => cases h

end Phase

namespace Race

variable {I K V : Type} {key : I → K} {items : K → Option (Item V)} {phase : I → Phase I V}
  {log : List (Happening I V)} {i : I}

/-- The items are the values that computations ended in, and for each key
    there is one such computation at most. -/
structure Holding (key : I → K) (items : K → Option (Item V)) (phase : I → Phase I V)
    (log : List (Happening I V)) : Prop where
  stored : ∀ i value, phase i = .stores value → .ended i (.value value) ∈ log
  explained : ∀ k item, items k = some item →
    ∃ j, key j = k ∧ .ended j (.value item.value) ∈ log
  vacant : ∀ i, (phase i).producing = true → items (key i) = none
  kept : ∀ i value, .ended i (.value value) ∈ log →
    (∃ v, phase i = .stores v) ∨ (items (key i)).isSome = true
  single : ∀ i j v w, .ended i (.value v) ∈ log → .ended j (.value w) ∈ log → key i = key j →
    i = j ∧ v = w

theorem holding_start [DecidableEq K] (key : I → K) (clock : Clock) :
    Holding key (start clock : Race I K V).cache.store.item? (start clock : Race I K V).phase
      (start clock : Race I K V).log where
  stored := fun _ _ h => by cases h
  explained := fun _ _ h => by cases h
  vacant := fun _ h => by cases h
  kept := fun _ _ h => absurd h List.not_mem_nil
  single := fun _ _ _ _ h => absurd h List.not_mem_nil

namespace Holding

/-- Something else is written down than that a computation has ended in a
    value. -/
theorem note (h : Holding key items phase log) {what : Happening I V}
    (hvalue : ∀ j v, what ≠ .ended j (.value v)) : Holding key items phase (what :: log) := by
  have hold : ∀ {j v}, .ended j (.value v) ∈ what :: log → .ended j (.value v) ∈ log := by
    intro j v hmem
    rcases List.mem_cons.mp hmem with heq | hmem
    · exact absurd heq.symm (hvalue j v)
    · exact hmem
  exact
    { stored := fun j v hj => List.mem_cons_of_mem what (h.stored j v hj)
      explained := fun k item hk => by
        obtain ⟨j, hkey, hmem⟩ := h.explained k item hk
        exact ⟨j, hkey, List.mem_cons_of_mem what hmem⟩
      vacant := h.vacant
      kept := fun j v hmem => h.kept j v (hold hmem)
      single := fun a j v w ha hj => h.single a j v w (hold ha) (hold hj) }

/-- Nobody with the same key has come to a value before. -/
theorem first (h : Holding key items phase log) (hphase : phase i = .computes)
    (hunique : ∀ j, (phase j).registered = true → key j = key i → j = i) {j : I} {v : V}
    (hkey : key j = key i) : .ended j (.value v) ∉ log := by
  intro hmem
  have hvacant : items (key i) = none := h.vacant i (by rw [hphase]; rfl)
  rcases h.kept j v hmem with ⟨w, hw⟩ | hitem
  · have hj : j = i := hunique j (by rw [hw]; rfl) hkey
    rw [hj, hphase] at hw
    cases hw
  · rw [hkey, hvacant] at hitem
    cases hitem

variable [DecidableEq I]

/-- A caller goes on that has not come to a value. -/
theorem goesOn (h : Holding key items phase log) {here next : Phase I V} (hphase : phase i = here)
    (hhere : ∀ v, here ≠ .stores v) (hnext : ∀ v, next ≠ .stores v)
    (hvacant : next.producing = true → items (key i) = none) :
    Holding key items (Function.update phase i next) log where
  stored := (Function.forall_update_iff phase fun j p =>
      ∀ value, p = .stores value → .ended j (.value value) ∈ log).mpr
    ⟨fun v hv => absurd hv (hnext v), fun j _ => h.stored j⟩
  explained := h.explained
  vacant := (Function.forall_update_iff phase fun j p =>
      p.producing = true → items (key j) = none).mpr
    ⟨hvacant, fun j _ => h.vacant j⟩
  kept := by
    refine (Function.forall_update_iff phase fun j p => ∀ value, .ended j (.value value) ∈ log →
      (∃ v, p = .stores v) ∨ (items (key j)).isSome = true).mpr ⟨fun v hv => ?_, fun j _ => h.kept j⟩
    rcases h.kept i v hv with ⟨w, hw⟩ | hitem
    · exact absurd (hphase.symm.trans hw) (hhere w)
    · exact Or.inr hitem
  single := h.single

/-- A computation ends in a value. -/
theorem concluded (h : Holding key items phase log) (hphase : phase i = .computes)
    (hunique : ∀ j, (phase j).registered = true → key j = key i → j = i) (value : V) :
    Holding key items (Function.update phase i (.stores value))
      (.ended i (.value value) :: log) where
  stored := by
    refine (Function.forall_update_iff phase fun j p =>
      ∀ v, p = .stores v → .ended j (.value v) ∈ .ended i (.value value) :: log).mpr ⟨?_, ?_⟩
    · intro v hv
      cases hv
      exact List.mem_cons_self
    · exact fun j _ v hv => List.mem_cons_of_mem _ (h.stored j v hv)
  explained := by
    intro k item hk
    obtain ⟨j, hkey, hmem⟩ := h.explained k item hk
    exact ⟨j, hkey, List.mem_cons_of_mem _ hmem⟩
  vacant := (Function.forall_update_iff phase fun j p =>
      p.producing = true → items (key j) = none).mpr
    ⟨fun _ => h.vacant i (by rw [hphase]; rfl), fun j _ => h.vacant j⟩
  kept := by
    intro j v hmem
    by_cases hji : j = i
    · exact Or.inl ⟨value, by rw [hji, Function.update_self]⟩
    · rw [Function.update_of_ne hji]
      refine h.kept j v ?_
      rcases List.mem_cons.mp hmem with heq | hmem
      · cases heq
        exact absurd rfl hji
      · exact hmem
  single := by
    intro a j v w ha hj hkey
    rcases List.mem_cons.mp ha with ha | ha <;> rcases List.mem_cons.mp hj with hj | hj
    · cases ha
      cases hj
      exact ⟨rfl, rfl⟩
    · cases ha
      exact absurd hj (h.first hphase hunique hkey.symm)
    · cases hj
      exact absurd ha (h.first hphase hunique hkey)
    · exact h.single a j v w ha hj hkey

/-- The value is stored. -/
theorem keep [DecidableEq K] (h : Holding key items phase log) {value : V}
    (hphase : phase i = .stores value)
    (hunique : ∀ j, (phase j).registered = true → key j = key i → j = i)
    (landing : Except Fault (Option V × Bool)) :
    Holding key (fun k => if key i = k then some ⟨value, never⟩ else items k)
      (Function.update phase i (.leaves landing)) log where
  stored := (Function.forall_update_iff phase fun j p =>
      ∀ v, p = .stores v → .ended j (.value v) ∈ log).mpr
    ⟨fun v hv => (by cases hv), fun j _ => h.stored j⟩
  explained := by
    intro k item hk
    split at hk
    · next hkey =>
        cases hk
        exact ⟨i, hkey, h.stored i value hphase⟩
    · exact h.explained k item hk
  vacant := by
    refine (Function.forall_update_iff phase fun j p => p.producing = true →
      (if key i = key j then some ⟨value, never⟩ else items (key j)) = none).mpr ⟨?_, ?_⟩
    · exact fun hi => by cases hi
    · intro j hji hj
      have hkey : key i ≠ key j := fun heq =>
        hji (hunique j (Phase.registered_of_producing hj) heq.symm)
      rw [if_neg hkey]
      exact h.vacant j hj
  kept := by
    intro j v hmem
    by_cases hkey : key i = key j
    · exact Or.inr (by rw [if_pos hkey]; rfl)
    · have hji : j ≠ i := fun heq => hkey (by rw [heq])
      rw [if_neg hkey, Function.update_of_ne hji]
      exact h.kept j v hmem
  single := h.single

variable {s s' : Race I K V}

theorem moves [DecidableEq K] (h : Holding key s.cache.store.item? s.phase s.log)
    (hturns : Turns key s) {ending : Ending V} (hmoves : Moves key s i ending s') :
    Holding key s'.cache.store.item? s'.phase s'.log := by
  cases hmoves with
  | found item c hphase hitem hc =>
      rw [← funext hc.item?] at h
      have hbegan : Holding key c.store.item? s.phase (.began i :: s.log) := h.note (by simp)
      have hreturned : Holding key c.store.item? s.phase
          (.returned i (.ok (some item.value)) :: .began i :: s.log) := hbegan.note (by simp)
      exact hreturned.goesOn hphase (by simp) (by simp) (by simp [Phase.producing])
  | missed c hphase hc =>
      rw [← funext hc.item?] at h
      have hbegan : Holding key c.store.item? s.phase (.began i :: s.log) := h.note (by simp)
      exact hbegan.goesOn hphase (by simp) (by simp) (by simp [Phase.producing])
  | joined leader hphase hleader =>
      exact h.goesOn hphase (by simp) (by simp) (by simp [Phase.producing])
  | enrolled hphase hfree =>
      exact h.goesOn hphase (by simp) (by simp) (by simp [Phase.producing])
  | told leader value hphase hsignal =>
      exact h.goesOn hphase (by simp) (by simp) (by simp [Phase.producing])
  | retried leader hphase hsignal =>
      exact h.goesOn hphase (by simp) (by simp) (by simp [Phase.producing])
  | foundAgain item c hphase hitem hc =>
      rw [← funext hc.item?] at h
      exact h.goesOn hphase (by simp) (by simp) (by simp [Phase.producing])
  | readied c hphase hitem hc =>
      rw [← funext hc.item?] at h
      exact h.goesOn hphase (by simp) (by simp) fun _ => (hc.item? (key i)).trans hitem
  | started hphase =>
      have hstarted : Holding key s.cache.store.item? s.phase (.started i :: s.log) :=
        h.note (by simp)
      exact hstarted.goesOn hphase (by simp) (by simp) fun _ =>
        h.vacant i (by rw [hphase]; rfl)
  | concluded hphase =>
      have hregistered : (s.phase i).registered = true := by rw [hphase]; rfl
      by_cases hvalue : ∃ v, ending = .value v
      · obtain ⟨v, rfl⟩ := hvalue
        exact h.concluded hphase (fun j hj => hturns.unique hj hregistered) v
      · have hended : Holding key s.cache.store.item? s.phase (.ended i ending :: s.log) :=
          h.note fun j v heq => hvalue ⟨v, (Happening.ended.inj heq).2⟩
        exact hended.goesOn hphase (by simp)
          (fun v hv => hvalue (Phase.producing_ofEnding (I := I) (by rw [hv]; rfl)))
          (fun hproducing => absurd (Phase.producing_ofEnding hproducing) hvalue)
  | kept value hphase =>
      have hregistered : (s.phase i).registered = true := by rw [hphase]; rfl
      have hkept := h.keep hphase (fun j hj => hturns.unique hj hregistered)
        (.ok (some value, true))
      rw [← funext fun k => s.cache.store.item?_set (key i) k ⟨value, never⟩] at hkept
      exact hkept
  | left landing hphase =>
      have hleft : Holding key s.cache.store.item? s.phase (.left i :: s.log) := h.note (by simp)
      exact hleft.goesOn hphase (by simp) (by simp) (by simp [Phase.producing])
  | published landing hphase =>
      exact h.goesOn hphase (by simp) (by simp) (by simp [Phase.producing])
  | settled landing c hphase hc =>
      rw [← funext hc.item?] at h
      have hreturned : Holding key c.store.item? s.phase
          (.returned i (landing.map Prod.fst) :: s.log) := h.note (by simp)
      exact hreturned.goesOn hphase (by simp) (by simp) (by simp [Phase.producing])
  | stayed => exact h

end Holding

end Race

end ExpiringCache
