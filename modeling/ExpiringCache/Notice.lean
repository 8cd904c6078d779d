/-! # Notices

    Every write that may change whether a key is present, or when it
    expires, leaves a notice for the janitor.  Notices wait in line and are
    taken in the order in which they came; nothing is ever left out. -/

namespace ExpiringCache

/-- A key and the instant at which it was said to expire. -/
structure Notice (K : Type) where
  key : K
  -- the instant; a key that was removed gets one far in the past
  expireAt : Int
  deriving DecidableEq, Repr

/-- The notices that wait, oldest first. -/
structure NoticeQueue (K : Type) where
  waiting : List (Notice K)
  deriving DecidableEq, Repr

namespace NoticeQueue

variable {K : Type}

/-- The queue in which nothing waits. -/
def empty : NoticeQueue K := ⟨[]⟩

instance : Inhabited (NoticeQueue K) := ⟨empty⟩

/-- The number of waiting notices. -/
def size (q : NoticeQueue K) : Nat := q.waiting.length

/-- Puts a notice at the end of the line. -/
def push (q : NoticeQueue K) (key : K) (expireAt : Int) : NoticeQueue K :=
  ⟨q.waiting ++ [⟨key, expireAt⟩]⟩

/-- Puts a notice of the same instant for each key at the end of the line. -/
def pushAll (q : NoticeQueue K) (keys : List K) (expireAt : Int) : NoticeQueue K :=
  ⟨q.waiting ++ keys.map fun key => ⟨key, expireAt⟩⟩

/-- Takes the notice that waited longest. -/
def pop (q : NoticeQueue K) : Option (Notice K) × NoticeQueue K :=
  match q.waiting with
  | [] => (none, q)
  | notice :: rest => (some notice, ⟨rest⟩)

/-- Takes all waiting notices. -/
def drain (q : NoticeQueue K) : List (Notice K) × NoticeQueue K := (q.waiting, empty)

/-- Takes all waiting notices while each of the first `count` notices taken
    is answered by a further one, which joins the line and is taken too. -/
def drainAnswering (answer : Notice K → Notice K) :
    Nat → List (Notice K) → List (Notice K)
  | 0, waiting => waiting
  | _, [] => []
  | count + 1, notice :: rest =>
      notice :: drainAnswering answer count (rest ++ [answer notice])

end NoticeQueue

end ExpiringCache
