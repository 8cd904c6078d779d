import ExpiringCache.Front

/-! # Visits to a front

    A visit is what a client does at a front: a call, with what its
    computation does; anything else that is done at once; or visits of
    several clients at the same time.  What a computation does is visits
    again.  Which call a client makes may depend on what the front is like
    when its turn comes. -/

namespace ExpiringCache

namespace Front

/-- What a client does at a front; an `R` is kept of what is not a call. -/
inductive Visit (K V R : Type) where
  | call (request : Front K V → Request K V) (body : List (Visit K V R)) (ending : Ending V)
  | other (act : Front K V → R × Front K V)
  | together (leader : Visit K V R) (others : List (Visit K V R))

/-- What was seen of a visit. -/
inductive VisitReport (K V R : Type) where
  | call (result : Except Fault (Reply K V)) (inner : Option (List (VisitReport K V R)))
      (after : View)
  -- what is kept of something done at once, and what the front showed after it
  | other (kept : R) (after : View)
  -- the reports of a leader and of the others, and what the front showed when all of them were
  -- gone
  | together (leader : VisitReport K V R) (others : List (VisitReport K V R)) (after : View)

namespace Visit

variable {K V R : Type}

mutual

/-- The number of visits that a visit consists of. -/
def count : Visit K V R → Nat
  | .call _ body _ => countAll body + 1
  | .other _ => 1
  | .together leader others => leader.count + countAll others + 1

/-- The number of visits that several visits consist of. -/
def countAll : List (Visit K V R) → Nat
  | [] => 0
  | visit :: rest => visit.count + countAll rest

end

end Visit

end Front

end ExpiringCache
