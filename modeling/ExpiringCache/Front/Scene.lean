import ExpiringCache.Front.Visit

/-! # Clients at a front

    A scene is a front with the clients who visit it at the same time.  They
    move one at a time: a client who can move begins a visit, lets the
    computation of a call go on or end, or goes on after a flight for which
    it has waited.

    When a flight ends, all who wait for it are told what it came to.  With a
    value they are done; without one they line up again.

    A client who gathers others sends the leader first, then the others, one
    after another, each when nobody can move any more; at last the leader,
    whose computation has been open so far, is let go.  Only such schedules
    are of interest here whose outcome does not depend on who moves first
    where several could. -/

namespace ExpiringCache

namespace Front

variable {K V R : Type}

/-! ## Clients -/

/-- A call whose computation has begun and not ended. -/
structure OpenCall (K V R : Type) where
  -- the place of the back end that goes on with the call
  home : Nat
  next : Front.Next K V
  ending : Ending V
  done : List (VisitReport K V R)
  todo : List (Visit K V R)

/-- A call that waits for a flight. -/
structure Wait (K V R : Type) where
  home : Nat
  turn : Turn K V
  body : List (Visit K V R)
  ending : Ending V
  inner : Option (List (VisitReport K V R))

/-- A flight that has ended. -/
structure Landing (K V : Type) where
  home : Nat
  key : K
  -- what there is for those who wait: what the computation came to, unless it failed
  value : Option (Option V)

/-- What a client is about to do. -/
inductive Phase (K V R : Type) where
  | begins (visit : Visit K V R)
  | computes
  -- its call waits for a flight; `told` is there once the flight has ended
  | waits (wait : Wait K V R) (told : Option (Option (Option V)))
  -- it has sent some clients, the leader first, and is about to send others or to let the
  -- leader go
  | gathers (sent : List Nat) (coming : List (Visit K V R)) (released : Bool)
  | over (report : VisitReport K V R)

/-- A client. -/
structure Client (K V R : Type) where
  phase : Phase K V R
  calls : List (OpenCall K V R)
  -- whether the computation of its outermost call has to stay open
  isKept : Bool

/-- The flight that ends with a call, if the call leads one. -/
def OpenCall.landing? (call : OpenCall K V R) : Option (Landing K V) :=
  match call.next with
  | .cache (.lead turn) => some ⟨call.home, turn.key, call.ending.toExcept.toOption⟩
  | _ => none

namespace Client

/-- The report of a client whose visit is over. -/
def report? (c : Client K V R) : Option (VisitReport K V R) :=
  match c.phase with
  | .over report => some report
  | _ => none

/-- Whether a client holds because its last computation has to stay open. -/
def isHolding (c : Client K V R) : Bool :=
  match c.phase, c.calls with
  | .computes, [call] => c.isKept && call.todo.isEmpty
  | _, _ => false

/-- Whether a client can move by itself. -/
def canMove (c : Client K V R) : Bool :=
  match c.phase with
  | .begins _ => true
  | .computes => !c.isHolding
  | .waits _ told => told.isSome
  | .gathers _ _ _ => false
  | .over _ => false

/-- The client after a visit that is over: the call around it goes on, if
    there is one. -/
def deliver (c : Client K V R) (report : VisitReport K V R) : Client K V R :=
  match c.calls with
  | [] => { c with phase := .over report }
  | call :: around =>
      { c with
        phase := .computes
        calls := { call with done := call.done ++ [report] } :: around }

/-- The client after its call has come so far. -/
def progress (c : Client K V R) (body : List (Visit K V R)) (ending : Ending V)
    (inner : Option (List (VisitReport K V R))) (after : View) :
    Front.Progress K V → Client K V R
  | .done result => c.deliver (.call result inner after)
  | .waiting home turn => { c with phase := .waits ⟨home, turn, body, ending, inner⟩ none }
  | .producing home next =>
      { c with phase := .computes, calls := ⟨home, next, ending, [], body⟩ :: c.calls }

variable [DecidableEq K]

/-- Tells a client that a flight has ended. -/
def tell (landing : Landing K V) (c : Client K V R) : Client K V R :=
  match c.phase with
  | .waits wait none =>
      if wait.home = landing.home && wait.turn.key = landing.key then
        { c with phase := .waits wait (some landing.value) }
      else c
  | _ => c

end Client

/-! ## Scenes -/

/-- A front with clients. -/
structure Scene (K V R : Type) where
  front : Front K V
  clients : List (Client K V R)

namespace Scene

/-- The scene after a client has moved. -/
def moved (s : Scene K V R) (i : Nat) (c : Client K V R) (f : Front K V) : Scene K V R :=
  ⟨f, s.clients.set i c⟩

/-- Lets a client who gathers others send the next one, let the leader go or
    come to an end, if it is time for that. -/
def gather? (s : Scene K V R) (i : Nat) (c : Client K V R) : Option (Scene K V R) :=
  let isReady (leader : Nat) : Bool :=
    s.clients[leader]?.any fun c => c.isHolding || c.report?.isSome
  match c.phase with
  | .gathers sent coming released =>
      if !sent.head?.all isReady then none
      else match coming, sent with
        | visit :: rest, _ =>
            let newcomer : Client K V R := ⟨.begins visit, [], sent.isEmpty⟩
            let c := { c with phase := .gathers (sent ++ [s.clients.length]) rest released }
            some ⟨s.front, s.clients.set i c ++ [newcomer]⟩
        | [], leader :: _ =>
            if released then
              match sent.mapM fun j => s.clients[j]?.bind Client.report? with
              | some (first :: rest) =>
                  some (s.moved i (c.deliver (.together first rest s.front.view)) s.front)
              | _ => none
            else
              let c := { c with phase := .gathers sent [] true }
              let clients := (s.clients.set i c).modify leader fun c => { c with isKept := false }
              some ⟨s.front, clients⟩
        | [], [] => none
  | _ => none

variable [DecidableEq K]

/-- Tells all clients that a flight has ended. -/
def announce (s : Scene K V R) : Option (Landing K V) → Scene K V R
  | none => s
  | some landing => { s with clients := s.clients.map (Client.tell landing) }

/-- Lets a client move that can. -/
def move (s : Scene K V R) (i : Nat) (c : Client K V R) : Scene K V R :=
  match c.phase, c.calls with
  | .begins (.call request body ending), _ =>
      let (progress, f) := s.front.begin (request s.front)
      s.moved i (c.progress body ending none f.view progress) f
  | .begins (.other act), _ =>
      let (kept, f) := act s.front
      s.moved i (c.deliver (.other kept f.view)) f
  | .begins (.together leader others), _ =>
      s.moved i { c with phase := .gathers [] (leader :: others) false } s.front
  | .computes, call :: around =>
      match call.todo with
      | visit :: rest =>
          let c := { c with phase := .begins visit, calls := { call with todo := rest } :: around }
          s.moved i c s.front
      | [] =>
          let (progress, f) := s.front.finish call.home call.next call.ending
          let c := { c with calls := around }
          let c := c.progress [] call.ending (some call.done) f.view progress
          (s.moved i c f).announce call.landing?
  | .waits wait (some (some value)), _ =>
      let (result, f) := s.front.join wait.home wait.turn value
      s.moved i (c.deliver (.call result wait.inner f.view)) f
  | .waits wait (some none), _ =>
      let (progress, f) := s.front.enter wait.home wait.turn
      s.moved i (c.progress wait.body wait.ending wait.inner f.view progress) f
  | _, _ => s

/-- The next scene: the first client who can move does so; if there is none,
    the last one who gathers others goes on with that. -/
def next? (s : Scene K V R) : Option (Scene K V R) :=
  match s.clients.findIdx? Client.canMove with
  | some i => s.clients[i]?.map (s.move i)
  | none =>
      (List.range s.clients.length).reverse.findSome? fun i =>
        s.clients[i]?.bind (s.gather? i)

/-- The scene after at most so many moves. -/
def run : Nat → Scene K V R → Scene K V R
  | 0, s => s
  | moves + 1, s =>
      match s.next? with
      | none => s
      | some s => run moves s

end Scene

variable [DecidableEq K]

/-- More moves than visits can take.  Every visit begins, is taken up by the
    call around it, ends, is sent, and has others wait for it, all of that
    once at most; whoever waits goes on after each flight once at most. -/
def enoughMoves (visits : Nat) : Nat := (visits + 4) * (visits + 4)

/-- Carries out a visit.  One that does not come to its end is stuck. -/
def perform (f : Front K V) (visit : Visit K V R) : VisitReport K V R × Front K V :=
  let start : Scene K V R := ⟨f, [⟨.begins visit, [], false⟩]⟩
  let s := start.run (enoughMoves visit.count)
  ((s.clients.head?.bind Client.report?).getD (.call (.error .stuck) none s.front.view), s.front)

end Front

end ExpiringCache
