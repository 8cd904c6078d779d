import ExpiringCache.Proofs.Cache.Parallel
import ExpiringCache.Proofs.Janitor.Session

/-! # Sessions on two caches at once

    Two sessions are `Paired` by a relation of caches if their caches are
    related and the same calls are open.  If the relation is `Parallel`, then
    each part of each call comes equally far in both, whichever of the open
    calls it belongs to, and the sessions stay paired. -/

namespace ExpiringCache

variable {K V : Type}

/-- A move that carries out a part of a call. -/
def Move.IsPart : Move K V → Prop
  | .sweep _ => False
  | .setWall _ => False
  | _ => True

/-- The beginning of a call that looks at all entries. -/
def Move.Snapshot : Move K V → Prop
  | .begin request => request.Snapshot
  | _ => False

variable [DecidableEq K]

namespace Session

/-- How far an open call comes by a move. -/
def progress? (s : Session K V) : Move K V → Option (Progress K V)
  | .begin request => some (s.cache.begin request).1
  | .finish place ending =>
      s.computing[place]?.map fun next => (s.cache.finish next ending).1
  | .resume place told =>
      s.waiting[place]?.map fun turn =>
        match told with
        | some value => .reply (s.cache.join turn value).1
        | none => (s.cache.enter turn).1
  | .sweep _ => none
  | .setWall _ => none

/-- The same calls are open on related caches. -/
structure Paired (R : Cache K V → Cache K V → Prop) (s s' : Session K V) : Prop where
  cache : R s.cache s'.cache
  computing : s.computing = s'.computing
  waiting : s.waiting = s'.waiting

namespace Paired

variable {R : Cache K V → Cache K V → Prop} {s s' : Session K V}

omit [DecidableEq K] in
/-- A call that has come equally far on both sides leaves a pair. -/
theorem absorb (h : Paired R s s') {o o' : Progress K V × Cache K V} (ho : Cache.Both R o o') :
    Paired R (s.absorb o) (s'.absorb o') := by
  obtain ⟨progress, c⟩ := o
  obtain ⟨progress', c'⟩ := o'
  obtain ⟨hprogress, hcache⟩ := ho
  cases hprogress
  cases progress with
  | done result => exact ⟨hcache, h.computing, h.waiting⟩
  | producing next => exact ⟨hcache, congrArg (next :: ·) h.computing, h.waiting⟩
  | waiting turn => exact ⟨hcache, h.computing, congrArg (· ++ [turn]) h.waiting⟩

/-- A snapshot is over at once. -/
theorem begin_snapshot (h : Paired R s s') {request : Request K V}
    (hrequest : request.Snapshot) :
    Paired R (s.step (.begin request)) (s'.step (.begin request)) := by
  have hcache := Cache.Parallel.begin_snapshot h.cache hrequest
  cases request with
  | size => exact ⟨hcache, h.computing, h.waiting⟩
  | keys => exact ⟨hcache, h.computing, h.waiting⟩
  | values => exact ⟨hcache, h.computing, h.waiting⟩
  | data => exact ⟨hcache, h.computing, h.waiting⟩
  | stats => exact ⟨hcache, h.computing, h.waiting⟩
  | _ => exact hrequest.elim

/-- Every part of a call comes equally far on both sides, unless it is a
    snapshot, and leaves a pair. -/
theorem step (hR : Cache.Parallel R) (h : Paired R s s') {m : Move K V} (hpart : m.IsPart) :
    (¬m.Snapshot → s.progress? m = s'.progress? m) ∧ Paired R (s.step m) (s'.step m) := by
  cases m with
  | begin request =>
      by_cases hrequest : request.Snapshot
      · exact ⟨fun hnot => absurd hrequest hnot, h.begin_snapshot hrequest⟩
      · have hboth := hR.begin h.cache hrequest
        exact ⟨fun _ => congrArg some hboth.1, h.absorb hboth⟩
  | finish place ending => cases hplace : s.computing[place]? with
    | none =>
        have hplace' : s'.computing[place]? = none := by rw [← h.computing, hplace]
        simp only [progress?, Session.step, hplace, hplace']
        exact ⟨fun _ => rfl, h⟩
    | some next =>
        have hplace' : s'.computing[place]? = some next := by rw [← h.computing, hplace]
        have hrest : Paired R { s with computing := s.computing.eraseIdx place }
            { s' with computing := s'.computing.eraseIdx place } :=
          ⟨h.cache, congrArg (List.eraseIdx · place) h.computing, h.waiting⟩
        have hboth := hR.finish h.cache next ending
        simp only [progress?, Session.step, hplace, hplace']
        exact ⟨fun _ => congrArg some hboth.1, hrest.absorb hboth⟩
  | resume place told => cases hplace : s.waiting[place]? with
    | none =>
        have hplace' : s'.waiting[place]? = none := by rw [← h.waiting, hplace]
        simp only [progress?, Session.step, hplace, hplace']
        exact ⟨fun _ => rfl, h⟩
    | some turn =>
        have hplace' : s'.waiting[place]? = some turn := by rw [← h.waiting, hplace]
        have hrest : Paired R { s with waiting := s.waiting.eraseIdx place }
            { s' with waiting := s'.waiting.eraseIdx place } :=
          ⟨h.cache, h.computing, congrArg (List.eraseIdx · place) h.waiting⟩
        cases told with
        | some value =>
            have hboth := hR.settle_reply h.cache turn value false
            simp only [progress?, Session.step, hplace, hplace']
            exact ⟨fun _ => congrArg some hboth.1, hboth.2, h.computing, hrest.waiting⟩
        | none =>
            have hboth := hR.enter h.cache turn
            simp only [progress?, Session.step, hplace, hplace']
            exact ⟨fun _ => congrArg some hboth.1, hrest.absorb hboth⟩
  | sweep order => exact hpart.elim
  | setWall wall => exact hpart.elim

end Paired

end Session

end ExpiringCache
