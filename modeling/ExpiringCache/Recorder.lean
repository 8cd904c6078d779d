import ExpiringCache.Cache.Call

/-! # Recorders

    A recorder takes the place of a cache.  It keeps a record of the calls
    that reach it and answers them with what it was told to answer; a
    computation that is handed in it runs, and answers what that came to.  A
    recorder that was told to fail records a call and fails before it runs
    anything.

    Of two calls it knows nothing by itself: whether a key is live it finds
    out by reading it, and of the counters it knows the number of entries. -/

namespace ExpiringCache

/-- A stand-in for a cache. -/
structure Recorder (K V : Type) where
  value : Option V
  size : Nat
  failure : Option String
  calls : List (Request K V)

/-- How far a call on a recorder has come. -/
inductive Recorded (K V : Type) where
  | done (result : Except Fault (Reply K V))
  -- the caller's computation is to run now; the caller asks whether it came to a value, or
  -- else for that value
  | producing (asksStored : Bool)

namespace Recorder

variable {K V : Type}

/-- The call that is recorded for a call. -/
def recorded : Request K V → Request K V
  | .contains key => .get key
  | .stats => .size
  | request => request

/-- What a recorder that does not fail answers. -/
def answer (r : Recorder K V) : Request K V → Recorded K V
  | .put _ _ _ => .done (.ok .done)
  | .putAll _ _ => .done (.ok .done)
  | .putIfAbsent _ _ _ => .done (.ok (.flag true))
  | .putIfAbsentFrom _ _ _ => .producing true
  | .get _ => .done (.ok (.value r.value))
  | .getOrPut _ (.given value) _ => .done (.ok (.value (some value)))
  | .getOrPut _ .produced _ => .producing false
  | .getOrPutFrom _ _ _ => .producing false
  | .contains _ => .done (.ok (.flag r.value.isSome))
  | .lifetime _ => .done (.ok (.span Store.absentSpan))
  | .replace _ _ => .done (.ok (.replaced r.value r.value.isSome))
  | .setLifetime _ _ => .done (.ok (.span Store.absentSpan))
  | .remove _ => .done (.ok (.value r.value))
  | .size => .done (.ok (.count r.size))
  | .keys => .done (.ok (.keys []))
  | .values => .done (.ok (.values []))
  | .data => .done (.ok (.data []))
  | .clear => .done (.ok .done)
  | .close => .done (.ok .done)
  | .stats => .done (.ok (.stats (.ofEntries r.size)))

/-- Records a call and answers it as far as that goes without the caller's
    computation. -/
def begin (r : Recorder K V) (request : Request K V) : Recorded K V × Recorder K V :=
  let result := match r.failure with
    | some text => .done (.error (.error (.backend text)))
    | none => r.answer request
  (result, { r with calls := r.calls ++ [recorded request] })

/-- Answers what the caller's computation came to. -/
def finish (asksStored : Bool) (ending : Ending V) : Except Fault (Reply K V) :=
  ending.toExcept.map fun value =>
    if asksStored then .flag value.isSome else .value value

end Recorder

end ExpiringCache
