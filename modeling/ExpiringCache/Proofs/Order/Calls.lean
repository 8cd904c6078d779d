import ExpiringCache.Proofs.Cache.Actions
import ExpiringCache.Proofs.Order.Sweep

/-! # The store and the recency list agree after every call

    A cache `Agrees` if it is ordered by some list of keys: its store and its
    recency list have the same keys.  The two are changed by separate steps,
    in different orders by different calls, and the computation of a caller
    runs between some of the steps.  But every action that can be carried out
    leaves the cache in agreement, and so does every part of a call, whatever
    was done before it and whatever the computation has come to.

    There is one exception, a caller that has waited for a flight: it marks
    a key as used that may have been deleted meanwhile. -/

namespace ExpiringCache

variable {K V : Type} [DecidableEq K]

namespace Cache

/-- The cache has the given capacity, and its stored keys are the keys of its
    recency list, if there is one. -/
def Agrees (c : Cache K V) (capacity : Nat) : Prop := ∃ ks, c.Ordered capacity ks

variable {c c' : Cache K V} {capacity : Nat}

theorem Agrees.swept (h : c.Agrees capacity) (order : VisitingOrder K) :
    (c.swept order).Agrees capacity := by
  obtain ⟨ks, hordered⟩ := h
  obtain ⟨ks', -, hordered'⟩ := (c.thins_swept order).order capacity ks hordered
  exact ⟨ks', hordered'⟩

theorem Agrees.act (h : c.Agrees capacity) {action : Action K V} (hready : action.Ready c) :
    (action.act c).Agrees capacity := by
  obtain ⟨ks, hordered⟩ := h
  cases action with
  | read => exact ⟨ks, hordered.read⟩
  | hit => exact ⟨ks, hordered.same rfl rfl fun _ => rfl⟩
  | miss => exact ⟨ks, hordered.same rfl rfl fun _ => rfl⟩
  | enter key => exact ⟨ks, hordered.flights _⟩
  | leave key => exact ⟨ks, hordered.flights _⟩
  | write key item => exact ⟨_, hordered.write key item.value item.expireAt⟩
  | rewrite key item => exact ⟨_, hordered.change key item c.notices⟩
  -- a key that is used without being stored is listed, because it is there
  | use key => exact ⟨_, hordered.touch ((hordered.stored key).mpr hready)⟩
  | remove keys => exact ⟨_, hordered.remove keys⟩
  | clear => exact ⟨_, hordered.clear⟩
  | close => exact ⟨ks, hordered.same rfl rfl fun _ => rfl⟩
  | sweep order => exact Agrees.swept ⟨ks, hordered⟩ order
  | setWall wall => exact ⟨ks, hordered.same rfl rfl fun _ => rfl⟩

theorem Performs.agrees {actions : List (Action K V)} (h : c.Performs actions c')
    (hagrees : c.Agrees capacity) : c'.Agrees capacity := by
  induction h with
  | nil c => exact hagrees
  | cons hready _ ih => exact ih (hagrees.act hready)

/-- Every call, up to its end or to the entry of its computation. -/
theorem Agrees.begin (h : c.Agrees capacity) (request : Request K V) :
    (c.begin request).2.Agrees capacity :=
  (c.performs_beginning request).agrees h

/-- Every call, from the exit of its computation on. -/
theorem Agrees.finish (h : c.Agrees capacity) (next : Pending K V) (ending : Ending V) :
    (c.finish next ending).2.Agrees capacity :=
  (c.performs_finishing next ending).agrees h

end Cache

end ExpiringCache
