import ExpiringCache.Proofs.PlainCache.Calls
import ExpiringCache.Proofs.PlainCache.Sweep

/-! # A cache runs like a plain cache

    Whatever a client does to a new cache, as long as its computations leave
    the cache alone: a plain cache that is given the same calls gives the
    same results.  It has to be told two things.  One is what the clock
    shows, because it does not remember readings; the other is which expired
    entries the sweeps have found.  So for every script there is a script
    that mirrors it on the plain cache, and the reports of the two runs
    agree, act by act. -/

namespace ExpiringCache

variable {K V : Type}

/-! ## Scripts and reports -/

/-- An act whose computation, if there is one, does nothing before it
    ends. -/
def Act.Quiet {C : Type} : Act K V C → Prop
  | .call _ body _ => body = []
  | .command _ => True

/-- The act that a plain cache is given in place of an act on a cache: the
    same call, keys to forget for a sweep, and the time for a command that
    concerns the clock. -/
inductive Mirrors : Act K V Cache.Command → Act K V (PlainCache.Command K) → Prop where
  | call (request : Request K V) (ending : Ending V) :
      Mirrors (.call request [] ending) (.call request [] ending)
  | sweep (keys : List K) : Mirrors (.command .sweep) (.command (.forget keys))
  | advance (ms wall : Int) : Mirrors (.command (.advance ms)) (.command (.setWall wall))
  | setWall (wall wall' : Int) :
      Mirrors (.command (.setWall wall)) (.command (.setWall wall'))

/-- What is shown of a cache after each act: the time, and the entries. -/
def Cache.shown (c : Cache K V) : Int × List (K × Item V) := (c.now, c.store.items.entries)

/-- What is shown of a plain cache after each act. -/
def PlainCache.shown (p : PlainCache K V) : Int × List (K × Item V) := (p.now, p.entries)

/-- Two reports agree: on the result of a call, on whether its computation
    ran, on the time, and on the entries up to their order. -/
inductive ReportLike :
    Report K V (Option SweepReport) (Int × List (K × Item V)) →
      Report K V Unit (Int × List (K × Item V)) → Prop where
  | call {result result' : Except Fault (Reply K V)}
      {inner : Option (List (Report K V (Option SweepReport) (Int × List (K × Item V))))}
      {inner' : Option (List (Report K V Unit (Int × List (K × Item V))))}
      {now : Int} {entries entries' : List (K × Item V)}
      (hresult : ResultLike result result') (hran : inner.isSome = inner'.isSome)
      (hentries : entries.Perm entries') :
      ReportLike (.call result inner (now, entries)) (.call result' inner' (now, entries'))
  | command (answer : Option SweepReport) {now : Int} {entries entries' : List (K × Item V)}
      (hentries : entries.Perm entries') :
      ReportLike (.command answer (now, entries)) (.command () (now, entries'))

variable [DecidableEq K]

/-! ## One act -/

namespace Party

variable {S C A B : Type} (party : Party S K V C A B)

/-- A call whose computation does nothing before it ends. -/
def quietCall (request : Request K V) (ending : Ending V) (s : S) :
    (Except Fault (Reply K V) × Option (List (Report K V A B))) × S :=
  party.call s request fun s => ((ending, []), s)

omit [DecidableEq K] in
theorem run_call (request : Request K V) (ending : Ending V) (s : S) :
    party.run (.call request [] ending) s =
      (.call (party.quietCall request ending s).1.1 (party.quietCall request ending s).1.2
          (party.view (party.quietCall request ending s).2),
        (party.quietCall request ending s).2) := by
  simp only [run, runAll]
  rfl

omit [DecidableEq K] in
theorem run_command (what : C) (s : S) :
    party.run (.command what) s =
      (.command (party.command s what).1 (party.view (party.command s what).2),
        (party.command s what).2) := by
  simp only [run]

end Party

theorem Cache.command_sweep (c : Cache K V) : (c.command .sweep).2 = c.sweep.2 := by
  rw [Cache.command]

namespace Alike

variable {c : Cache K V} {p : PlainCache K V}

/-- However the wall clock moves, a plain cache can be shown the same
    time. -/
theorem clock (h : Alike c p) (clock : Clock) (hclock : clock.latest = c.clock.latest) :
    ∃ wall, Alike { c with clock := clock } (p.command (.setWall wall)) := by
  have hlatest := h.latest
  refine ⟨clock.now, h.capacity, ?_, ?_, h.item?, h.nodup, h.running, h.ranks⟩
  · show max clock.now p.clock.latest = clock.now
    have hnow : clock.latest ≤ clock.now := Int.le_max_right _ _
    omega
  · show p.clock.latest ≤ clock.latest
    omega

/-- A sweep forgets some keys, and any other command moves the clock. -/
theorem command (h : Alike c p) (what : Cache.Command) :
    ∃ what', Mirrors (K := K) (V := V) (.command what) (.command what') ∧
      Alike (c.command what).2 (p.command what') := by
  cases what with
  | sweep =>
      obtain ⟨keys, halike⟩ := Cache.forgets_sweep c p h.now h
      refine ⟨.forget keys, .sweep keys, ?_⟩
      rw [Cache.command_sweep]
      exact halike
  | advance ms =>
      obtain ⟨wall, halike⟩ := h.clock (c.clock.advance ms) rfl
      exact ⟨.setWall wall, .advance ms wall, halike⟩
  | setWall wall =>
      obtain ⟨wall', halike⟩ := h.clock (c.clock.setTo wall) rfl
      exact ⟨.setWall wall', .setWall wall wall', halike⟩

/-- Caches that are alike are shown alike. -/
theorem report_call (h : Alike c p) {result result' : Except Fault (Reply K V)}
    {inner : Option (List (Report K V (Option SweepReport) (Int × List (K × Item V))))}
    {inner' : Option (List (Report K V Unit (Int × List (K × Item V))))}
    (hresult : ResultLike result result') (hran : inner.isSome = inner'.isSome) :
    ReportLike (.call result inner c.shown) (.call result' inner' p.shown) := by
  rw [Cache.shown, PlainCache.shown, h.now]
  exact .call hresult hran h.perm

theorem report_command (h : Alike c p) (answer : Option SweepReport) :
    ReportLike (.command answer c.shown) (.command () p.shown) := by
  rw [Cache.shown, PlainCache.shown, h.now]
  exact .command answer h.perm

/-- Every act on a cache has an act on the plain cache that mirrors it and
    gives a report that agrees. -/
theorem run (h : Alike c p) {act : Act K V Cache.Command} (hquiet : act.Quiet) :
    ∃ act', Mirrors act act' ∧
      ReportLike ((Cache.party Cache.shown).run act c).1
        ((PlainCache.party PlainCache.shown).run act' p).1 ∧
      Alike ((Cache.party Cache.shown).run act c).2
        ((PlainCache.party PlainCache.shown).run act' p).2 := by
  cases act with
  | call request body ending =>
      have hbody : body = [] := hquiet
      subst hbody
      obtain ⟨hresult, hran, halike⟩ := h.call request ending
        ([] : List (Report K V (Option SweepReport) (Int × List (K × Item V))))
        ([] : List (Report K V Unit (Int × List (K × Item V))))
      refine ⟨.call request [] ending, .call request ending, ?_, ?_⟩
      · rw [Party.run_call, Party.run_call]
        exact halike.report_call hresult hran
      · rw [Party.run_call, Party.run_call]
        exact halike
  | command what =>
      obtain ⟨what', hmirrors, halike⟩ := h.command what
      refine ⟨.command what', hmirrors, ?_, ?_⟩
      · rw [Party.run_command, Party.run_command]
        exact halike.report_command _
      · rw [Party.run_command, Party.run_command]
        exact halike

end Alike

/-! ## Whole runs -/

/-- From caches that are alike, every script runs like one that mirrors
    it. -/
theorem Alike.runAll {c : Cache K V} {p : PlainCache K V} (h : Alike c p)
    (script : List (Act K V Cache.Command)) (hquiet : ∀ act ∈ script, act.Quiet) :
    ∃ script', List.Forall₂ Mirrors script script' ∧
      List.Forall₂ ReportLike ((Cache.party Cache.shown).runAll script c).1
        ((PlainCache.party PlainCache.shown).runAll script' p).1 := by
  induction script generalizing c p with
  | nil =>
      refine ⟨[], .nil, ?_⟩
      simp only [Party.runAll]
      exact .nil
  | cons act rest ih =>
      obtain ⟨act', hmirrors, hreport, halike⟩ := h.run (hquiet act List.mem_cons_self)
      obtain ⟨rest', hmirrors', hreports⟩ :=
        ih halike fun act hact => hquiet act (List.mem_cons_of_mem _ hact)
      refine ⟨act' :: rest', .cons hmirrors hmirrors', ?_⟩
      simp only [Party.runAll]
      exact .cons hreport hreports

end ExpiringCache
