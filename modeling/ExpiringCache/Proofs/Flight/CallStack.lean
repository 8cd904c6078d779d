import ExpiringCache.Flight.Nested
import Mathlib.Data.List.Nodup

/-! # The registry of flights is the call stack

    On one thread a computation may ask for other computations before it
    ends.  It sees what each of them came to and goes on as it likes: what
    went wrong in an inner computation, a panic as well, may be passed on or
    not.  A `Program` is such a computation, with any number of calls at any
    depth, and a job is one that goes on in any case.

    A thread that asks for a key while the computation for it goes on further
    up waits for itself.  As long as no program does so, the registry is the
    stack of the calls in progress: a key is registered when its computation
    begins and leaves when it has ended, by whatever it ends. -/

namespace ExpiringCache

variable {K V : Type}

/-- A computation on one thread. -/
inductive Program (K V : Type) where
  | ends (ending : Ending V)
  -- have a computation for `key` done, and go on with what the caller of it gets
  | works (key : K) (inner : Program K V) (next : Except Fault (Option V) → Program K V)

/-- What is seen at a moment when the registry has just changed, or is about
    to. -/
inductive Sight (K V : Type) where
  | began (key : K) (flights : Flights K)
  | ended (key : K) (result : Except Fault (Option V)) (flights : Flights K)
  | returned (key : K) (result : Except Fault (Option V)) (flights : Flights K)

namespace Sight

/-- The registry that is seen. -/
def flights : Sight K V → Flights K
  | .began _ flights => flights
  | .ended _ _ flights => flights
  | .returned _ _ flights => flights

/-- The key of a computation that is seen to begin. -/
def begun? : Sight K V → Option K
  | .began key _ => some key
  | _ => none

/-- What a report of a job says of a sight: the number of flights when the
    computation has begun, or that and the result when the call has
    returned. -/
def noted? : Sight K V → Option (Nat ⊕ Except Fault (Option V) × Nat)
  | .began _ flights => some (.inl flights.count)
  | .ended _ _ _ => none
  | .returned _ result flights => some (.inr (result, flights.count))

end Sight

/-- What the caller gets and what was seen meanwhile, and the registry
    afterwards. -/
abbrev Course (K V : Type) := (Except Fault (Option V) × List (Sight K V)) × Flights K

variable [DecidableEq K]

/-! ## Running programs -/

/-- Has a computation for `key` done under a flight.  If there is one already
    on the only thread, the call waits for ever and is given up. -/
def Flights.work (flights : Flights K) (key : K) (produce : Flights K → Course K V) :
    Course K V :=
  if flights.isRunning key then
    ((.error .stuck, [.returned key (.error .stuck) flights]), flights)
  else
    let entered := flights.enter key
    let ((result, seen), later) := produce entered
    let left := later.leave key
    ((result, .began key entered :: seen ++ [.ended key result later, .returned key result left]),
      left)

namespace Program

/-- Runs a program. -/
def run : Program K V → Flights K → Course K V
  | .ends ending, flights => ((ending.toExcept, []), flights)
  | .works key inner next, flights =>
      let ((result, seen), flights) := flights.work key inner.run
      let ((final, more), flights) := (next result).run flights
      ((final, seen ++ more), flights)

/-! ## What programs come to by themselves -/

/-- What a program comes to if each call in it returns what its own
    computation comes to. -/
def result : Program K V → Except Fault (Option V)
  | .ends ending => ending.toExcept
  | .works _ inner next => (next inner.result).result

/-- The keys that are asked for in a program, in this order. -/
def calls : Program K V → List K
  | .ends _ => []
  | .works key inner next => key :: inner.calls ++ (next inner.result).calls

/-- What reports note of a program that runs at some depth: for each call the
    number of flights when its computation has begun, then its result and the
    number when it has returned. -/
def notes (depth : Nat) : Program K V → List (Nat ⊕ Except Fault (Option V) × Nat)
  | .ends _ => []
  | .works _ inner next =>
      .inl (depth + 1) :: inner.notes (depth + 1) ++ [.inr (inner.result, depth)] ++
        (next inner.result).notes depth

/-- No key is asked for by its own computation, or by one further down, where
    `stack` are the keys of the computations in progress. -/
def Apart (stack : List K) : Program K V → Prop
  | .ends _ => True
  | .works key inner next =>
      key ∉ stack ∧ inner.Apart (key :: stack) ∧ (next inner.result).Apart stack

/-- What is seen of a program if the registry is the stack of the calls in
    progress. -/
def trace (stack : List K) : Program K V → List (Sight K V)
  | .ends _ => []
  | .works key inner next =>
      .began key ⟨key :: stack⟩ :: inner.trace (key :: stack) ++
        [.ended key inner.result ⟨key :: stack⟩, .returned key inner.result ⟨stack⟩] ++
          (next inner.result).trace stack

end Program

/-- A call for a key that is not in progress. -/
theorem Flights.work_of_free {flights : Flights K} {key : K} (hfree : key ∉ flights.running)
    {produce : Flights K → Course K V} {result : Except Fault (Option V)}
    {seen : List (Sight K V)}
    (hproduce : produce (flights.enter key) = ((result, seen), flights.enter key)) :
    flights.work key produce =
      ((result, .began key (flights.enter key) :: seen ++
        [.ended key result (flights.enter key), .returned key result flights]), flights) := by
  have hrunning : ¬flights.isRunning key = true := by
    rw [isRunning, List.contains_iff_mem]
    exact hfree
  simp only [work, if_neg hrunning, hproduce, Flights.leave_enter]

namespace Program

/-- A program runs as it would by itself.  The registry is the stack of the
    calls in progress at each moment, and as it was in the end. -/
theorem run_eq_trace {program : Program K V} {flights : Flights K}
    (happart : program.Apart flights.running) :
    program.run flights = ((program.result, program.trace flights.running), flights) := by
  induction program generalizing flights with
  | ends ending => rfl
  | works key inner next ihinner ihnext =>
      obtain ⟨hfree, hinner, hnext⟩ := happart
      have hproduce : inner.run (flights.enter key) =
          ((inner.result, inner.trace (key :: flights.running)), flights.enter key) :=
        ihinner hinner
      have hwork := Flights.work_of_free hfree hproduce
      simp only [run, hwork, ihnext _ hnext]
      rfl

omit [DecidableEq K] in
/-- Each computation begins once for each time that it is asked for. -/
theorem begun_trace (program : Program K V) (stack : List K) :
    (program.trace stack).filterMap Sight.begun? = program.calls := by
  induction program generalizing stack with
  | ends ending => rfl
  | works key inner next ihinner ihnext =>
      have hends : [.ended key inner.result ⟨key :: stack⟩,
          .returned key inner.result ⟨stack⟩].filterMap Sight.begun? = [] := rfl
      rw [trace, calls, List.filterMap_append, List.filterMap_append, hends, List.append_nil,
        List.filterMap_cons, ihinner, ihnext]
      rfl

omit [DecidableEq K] in
/-- There are as many flights as calls in progress. -/
theorem noted_trace (program : Program K V) (stack : List K) :
    (program.trace stack).filterMap Sight.noted? = program.notes stack.length := by
  induction program generalizing stack with
  | ends ending => rfl
  | works key inner next ihinner ihnext =>
      rw [trace, notes, List.filterMap_append, List.filterMap_append, List.filterMap_cons,
        ihinner, ihnext]
      rfl

omit [DecidableEq K] in
/-- No key is registered twice. -/
theorem nodup_of_mem_trace {program : Program K V} {stack : List K}
    (happart : program.Apart stack) (hdistinct : stack.Nodup) :
    ∀ sight ∈ program.trace stack, sight.flights.running.Nodup := by
  induction program generalizing stack with
  | ends ending => exact fun _ h => nomatch h
  | works key inner next ihinner ihnext =>
      obtain ⟨hfree, hinner, hnext⟩ := happart
      have hpushed : (key :: stack).Nodup := List.nodup_cons.mpr ⟨hfree, hdistinct⟩
      intro sight hsight
      simp only [trace, List.mem_append, List.mem_cons, List.not_mem_nil, or_false] at hsight
      rcases hsight with ((rfl | hmem) | rfl | rfl) | hmem
      · exact hpushed
      · exact ihinner hinner hpushed sight hmem
      · exact hpushed
      · exact hdistinct
      · exact ihnext _ hnext hdistinct sight hmem

end Program

/-! ## Jobs are programs -/

namespace Job

/-- The key of a job. -/
def key : Job K V → K
  | ⟨key, _, _⟩ => key

mutual

/-- The computation of a job: it has the inner jobs done, whatever they come
    to, and ends. -/
def body : Job K V → Program K V
  | ⟨_, inner, ending⟩ => bodyAll inner ending

/-- It has several jobs done, one after another, and ends. -/
def bodyAll : List (Job K V) → Ending V → Program K V
  | [], ending => .ends ending
  | job :: rest, ending => .works job.key job.body fun _ => bodyAll rest ending

end

end Job

namespace JobReport

/-- What the caller of a job got. -/
def result : JobReport V → Except Fault (Option V)
  | ⟨result, _, _, _⟩ => result

mutual

/-- The numbers and results in a report, in the order in which they were
    noted. -/
def notes : JobReport V → List (Nat ⊕ Except Fault (Option V) × Nat)
  | ⟨result, during, after, inner⟩ =>
      during.toList.map .inl ++ notesAll inner ++ [.inr (result, after)]

def notesAll : List (JobReport V) → List (Nat ⊕ Except Fault (Option V) × Nat)
  | [] => []
  | report :: rest => report.notes ++ notesAll rest

end

end JobReport

namespace Job

/-- The report of a job says what was seen of its computation. -/
def Tells (told : JobReport V × Flights K) (course : Course K V) : Prop :=
  told.1.result = course.1.1 ∧ told.1.notes = course.1.2.filterMap Sight.noted? ∧
    told.2 = course.2

mutual

/-- A job is done like the computation that it consists of. -/
theorem tells_work : ∀ (job : Job K V) (flights : Flights K),
    Tells (job.run flights) (flights.work job.key job.body.run)
  | ⟨key, inner, ending⟩, flights => by
      obtain ⟨hresult, hnotes, hflights⟩ := tells_bodyAll inner ending (flights.enter key)
      by_cases hrunning : flights.isRunning key = true
      · rw [Job.run, Flights.work, Job.key, if_pos hrunning, if_pos hrunning]
        exact ⟨rfl, rfl, rfl⟩
      · rw [Job.run, Flights.work, Job.key, if_neg hrunning, if_neg hrunning]
        refine ⟨hresult.symm, ?_, congrArg (·.leave key) hflights⟩
        simp only [JobReport.notes, Job.body, hnotes, hflights, List.filterMap_append,
          List.filterMap_cons, hresult]
        rfl

theorem tells_bodyAll : ∀ (jobs : List (Job K V)) (ending : Ending V) (flights : Flights K),
    ((bodyAll jobs ending).run flights).1.1 = ending.toExcept ∧
      JobReport.notesAll (runAll jobs flights).1 =
        ((bodyAll jobs ending).run flights).1.2.filterMap Sight.noted? ∧
      (runAll jobs flights).2 = ((bodyAll jobs ending).run flights).2
  | [], ending, flights => ⟨rfl, rfl, rfl⟩
  | job :: rest, ending, flights => by
      obtain ⟨-, hnotes, hflights⟩ := tells_work job flights
      obtain ⟨hresult, hrest, hlater⟩ := tells_bodyAll rest ending (job.run flights).2
      simp only [bodyAll, Program.run, runAll, ← hflights]
      refine ⟨hresult, ?_, hlater⟩
      rw [JobReport.notesAll, hnotes, hrest, List.filterMap_append]

end

end Job

/-! ## Calls within calls -/

namespace Program

/-- Whatever programs ask for on one thread, as long as nobody asks for a key
    whose computation is in progress: every computation runs once for each time
    that it is asked for, its caller gets what it comes to, and at each moment
    the registry is the stack of the computations in progress, no key twice, so
    that there are as many flights as the calls are deep.  In the end the
    registry is as it was.  Jobs are done and reported accordingly. -/
theorem registry_is_call_stack {program : Program K V} {flights : Flights K}
    (hdistinct : flights.running.Nodup) (happart : program.Apart flights.running) :
    program.run flights = ((program.result, program.trace flights.running), flights) ∧
      (program.trace flights.running).filterMap Sight.begun? = program.calls ∧
      (program.trace flights.running).filterMap Sight.noted? = program.notes flights.count ∧
      (∀ sight ∈ program.trace flights.running, sight.flights.running.Nodup) ∧
      ∀ jobs ending, Job.bodyAll jobs ending = program →
        JobReport.notesAll (Job.runAll jobs flights).1 = program.notes flights.count ∧
          (Job.runAll jobs flights).2 = flights := by
  have hrun := run_eq_trace happart
  refine ⟨hrun, begun_trace program _, noted_trace program _,
    nodup_of_mem_trace happart hdistinct, fun jobs ending hbody => ?_⟩
  obtain ⟨-, hnotes, hflights⟩ := Job.tells_bodyAll jobs ending flights
  rw [hbody, hrun] at hnotes hflights
  exact ⟨hnotes.trans (noted_trace program _), hflights⟩

/-- Lets a panic through, and takes anything else for the lack of a value. -/
def letThrough : Except Fault (Option Nat) → Program Nat Nat
  | .error (.panic text) => .ends (.panicked text)
  | _ => .ends .nothing

/-- The third computation panics, the second lets that through, and the first
    does not; then it asks for the second key again, and for the third one
    after it has ended itself. -/
def unwinding : Program Nat Nat :=
  .works 1
    (.works 2 (.works 3 (.ends (.panicked "out of luck")) letThrough) fun _ =>
      .works 2 (.ends .nothing) fun _ => .ends (.value 10))
    fun _ => .works 3 (.ends (.failed ⟨"refused", []⟩)) fun _ => .ends .nothing

theorem registry_is_call_stack_unwinding :
    ([] : List Nat).Nodup ∧ unwinding.Apart [] ∧ unwinding.run .none =
      ((.ok none,
        [.began 1 ⟨[1]⟩, .began 2 ⟨[2, 1]⟩, .began 3 ⟨[3, 2, 1]⟩,
          .ended 3 (.error (.panic "out of luck")) ⟨[3, 2, 1]⟩,
          .returned 3 (.error (.panic "out of luck")) ⟨[2, 1]⟩,
          .ended 2 (.error (.panic "out of luck")) ⟨[2, 1]⟩,
          .returned 2 (.error (.panic "out of luck")) ⟨[1]⟩,
          .began 2 ⟨[2, 1]⟩, .ended 2 (.ok none) ⟨[2, 1]⟩, .returned 2 (.ok none) ⟨[1]⟩,
          .ended 1 (.ok (some 10)) ⟨[1]⟩, .returned 1 (.ok (some 10)) ⟨[]⟩,
          .began 3 ⟨[3]⟩, .ended 3 (.error (.error (.producer ⟨"refused", []⟩))) ⟨[3]⟩,
          .returned 3 (.error (.error (.producer ⟨"refused", []⟩))) ⟨[]⟩]), .none) := by
  have hdistinct : (Flights.none : Flights Nat).running.Nodup := List.nodup_nil
  have happart : unwinding.Apart (Flights.none : Flights Nat).running := by
    simp [unwinding, Apart, result, letThrough, Ending.toExcept, Flights.none]
  exact ⟨hdistinct, happart, (registry_is_call_stack hdistinct happart).1⟩

end Program

end ExpiringCache
