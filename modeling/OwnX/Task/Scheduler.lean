import OwnX.Foundations.Machine
import Mathlib.Logic.Function.Basic

/-!
# The round scheduler (`task/scheduler.go`)

Each registered name has a callback that starts a round. A round is known by the second in which it
started. `RoundDone` reports the end of a round; the loop of `Start` receives the name and starts the
next round.

The callbacks are only called here, and the calls are written down. The channels and maps are made in
`newScheduler`, so `prevCheck` never fails.
-/

namespace OwnX.Task

/-- The maps of a `Scheduler`, as `newScheduler` makes them, and the calls of the callbacks so far. -/
structure Scheduler where
  round : String → Option Int := fun _ => none
  roundDoneFlag : String → Option Bool := fun _ => none
  /-- The names that have a callback. -/
  roundCall : List String := []
  calls : List (String × Int) := []

namespace Scheduler

def roundCallRegistry (s : Scheduler) (name : String) : Scheduler :=
  if name ∈ s.roundCall then s else { s with roundCall := s.roundCall ++ [name] }

/-- The tests of `RoundDone`: whether the name is sent to the loop. -/
def accepts (s : Scheduler) (name : String) (round : Int) : Bool :=
  match s.roundDoneFlag name, s.round name with
  | some flag, some current => !flag && current == round
  | _, _ => false

/-- `s.roundDoneFlag[name] = true`. -/
def setDone (s : Scheduler) (name : String) : Scheduler :=
  { s with roundDoneFlag := Function.update s.roundDoneFlag name (some true) }

/-- One turn of the loop of `startAll`, at the time `now`. -/
def startFirst (s : Scheduler) (name : String) (now : Int) : Scheduler :=
  { s with round := Function.update s.round name (some now), calls := s.calls ++ [(name, now)] }

/-- `startAll`, with the time at which it comes to each name. -/
def startAll (s : Scheduler) (now : String → Int) : Scheduler :=
  s.roundCall.foldl (fun s name => s.startFirst name (now name)) s

/-- `startNewRound` at the time `now`. -/
def startNewRound (s : Scheduler) (name : String) (now : Int) : Scheduler :=
  if name ∈ s.roundCall then
    { s with
      round := Function.update s.round name (some now)
      roundDoneFlag := Function.update s.roundDoneFlag name (some false)
      calls := s.calls ++ [(name, now)] }
  else s

end Scheduler

/-! ## The goroutines

The mutex `mu` and the unbuffered channels connect the calls of `RoundDone` with the loop of `Start`. -/

/-- Who holds `mu`, and where in the section under it. -/
inductive Section where
  /-- `startAll`. -/
  | first
  /-- `RoundDone` before its tests. -/
  | testing (name : String) (round : Int)
  /-- `RoundDone` in its send on `roundDoneChan`. -/
  | sending (name : String)
  /-- `RoundDone` before it unlocks. -/
  | leaving
  /-- `startNewRound`. -/
  | starting (name : String)
  deriving DecidableEq, Repr

/-- Where the loop of `Start` is. -/
inductive Loop where
  | unstarted
  | select
  /-- In `startNewRound`, before it has `mu`. -/
  | received (name : String)
  /-- In `startNewRound`, under `mu`. -/
  | busy
  | stopped
  deriving DecidableEq, Repr

structure Goroutines where
  scheduler : Scheduler := {}
  mu : Option Section := none
  loop : Loop := .unstarted
  /-- The goroutine of `startAll` is started and does not have `mu` yet. -/
  first : Bool := false
  /-- The calls of `RoundDone` that do not have `mu` yet. -/
  calling : List (String × Int) := []

inductive SchedulerEvent where
  /-- `RoundCallRegistry`. -/
  | register (name : String)
  /-- `Start`, up to its loop. -/
  | start
  /-- `Stop`, when the loop takes what it sends. -/
  | stop
  /-- `startAll` takes `mu`. -/
  | lockFirst
  /-- `startAll` calls the callbacks and returns. -/
  | startAll (now : String → Int)
  /-- `RoundDone` is called. -/
  | roundDone (name : String) (round : Int)
  /-- One of the calls of `RoundDone` takes `mu`. -/
  | lockReport (k : Nat)
  /-- Its tests. -/
  | test
  /-- It sends the name, and the loop receives it. -/
  | handOver
  /-- It returns, and `mu` is free. -/
  | unlock
  /-- The loop takes `mu` in `startNewRound`. -/
  | lockLoop
  /-- The rest of `startNewRound`. -/
  | startNewRound (now : Int)

namespace Goroutines

def step (g : Goroutines) : SchedulerEvent → Option Goroutines
  | .register name =>
    if g.mu = none then some { g with scheduler := g.scheduler.roundCallRegistry name } else none
  | .start =>
    if g.mu = none ∧ g.loop = .unstarted then some { g with loop := .select, first := true } else none
  | .stop => if g.loop = .select then some { g with loop := .stopped } else none
  | .lockFirst =>
    if g.mu = none ∧ g.first then some { g with mu := some .first, first := false } else none
  | .startAll now =>
    if g.mu = some .first then some { g with scheduler := g.scheduler.startAll now, mu := none }
    else none
  | .roundDone name round => some { g with calling := g.calling ++ [(name, round)] }
  | .lockReport k =>
    match g.mu, g.calling[k]? with
    | none, some (name, round) =>
      some { g with mu := some (.testing name round), calling := g.calling.eraseIdx k }
    | _, _ => none
  | .test =>
    match g.mu with
    | some (.testing name round) =>
      if g.scheduler.accepts name round then
        some { g with scheduler := g.scheduler.setDone name, mu := some (.sending name) }
      else some { g with mu := some .leaving }
    | _ => none
  | .handOver =>
    match g.mu, g.loop with
    | some (.sending name), .select => some { g with mu := some .leaving, loop := .received name }
    | _, _ => none
  | .unlock => if g.mu = some .leaving then some { g with mu := none } else none
  | .lockLoop =>
    match g.mu, g.loop with
    | none, .received name => some { g with mu := some (.starting name), loop := .busy }
    | _, _ => none
  | .startNewRound now =>
    match g.mu with
    | some (.starting name) => some { g with
        scheduler := g.scheduler.startNewRound name now, mu := none, loop := .select }
    | _ => none

/-- A scheduler with any maps; no call is under way, and the loop is not started or at its `select`. -/
def Idle (g : Goroutines) : Prop :=
  g.mu = none ∧ g.calling = [] ∧ (g.loop = .unstarted ∨ g.loop = .select)

/-- The runs from any scheduler. -/
def goroutines : Machine Goroutines SchedulerEvent where
  init := Idle
  step := step

/-- The runs from a new scheduler. -/
abbrev fresh : Machine Goroutines SchedulerEvent := goroutines.startIn {}

/-! ### What a report is for -/

/-- The loop is about to run the callback of `name`. -/
def Bound (name : String) (g : Goroutines) : Prop :=
  (g.mu = some (.sending name) ∧ g.loop = .select) ∨ g.loop = .received name ∨
    g.mu = some (.starting name)

/-- The step is not `Stop`, nor the run of a callback by the loop. -/
def Before (_ : Goroutines) : SchedulerEvent → Prop
  | .stop | .startNewRound _ => False
  | _ => True

/-- The loop gets `name`: the callback of `name` is the next one it runs, whatever happens before, and at
any time it can run with a new round. -/
def Advances (name : String) (g : Goroutines) : Prop :=
  (∀ g', (goroutines.startIn g).ReachableWhen Before g' → Bound name g') ∧
  ∀ now, ∃ es g', goroutines.run g es = some g' ∧ g'.scheduler.round name = some now ∧
    g'.scheduler.calls = g.scheduler.calls ++ [(name, now)]

/-! ### The deadlock -/

/-- Every registered name has a round and a flag, and the loop is running. -/
def Running (g : Goroutines) : Prop :=
  (∀ name ∈ g.scheduler.roundCall,
    (g.scheduler.round name).isSome ∧ (g.scheduler.roundDoneFlag name).isSome) ∧
  g.mu = none ∧ g.calling = [] ∧ g.loop = .select ∧ g.first = false

/-- The runs of a scheduler whose loop is running. -/
def running : Machine Goroutines SchedulerEvent where
  init := Running
  step := step

/-- A `RoundDone` holds `mu` and waits for the loop to receive, and the loop waits for `mu`. -/
def Deadlocked (g : Goroutines) : Prop :=
  ∃ name name', g.mu = some (.sending name) ∧ g.loop = .received name'

/-- The loop waits for `mu`. -/
def loopWaits (g : Goroutines) : Bool :=
  match g.loop with
  | .received _ => true
  | _ => false

/-- The `RoundDone` that has `mu` is going to pass its tests. -/
def passes (g : Goroutines) : Bool :=
  match g.mu with
  | some (.testing name round) => g.scheduler.accepts name round
  | _ => false

/-- A `RoundDone` passes its tests only while the loop is not waiting for `mu`. -/
def LoopFree (g : Goroutines) : SchedulerEvent → Prop
  | .test => ¬(g.passes ∧ g.loopWaits)
  | _ => True

instance (g : Goroutines) (e : SchedulerEvent) : Decidable (g.LoopFree e) :=
  match e with
  | .test => inferInstanceAs (Decidable (¬(_ ∧ _)))
  | .register _ | .start | .stop | .lockFirst | .startAll _ | .roundDone _ _ | .lockReport _ | .handOver
  | .unlock | .lockLoop | .startNewRound _ => .isTrue trivial

end Goroutines

/-! ## Rounds and reports

For the question which round a report ends, the calls are atomic. A report is issued for an instance of a
round, with the number of that instance, and may arrive at any time and any number of times. -/

/-- A report on its way, issued for the `number`-th instance of the name, whose round is `round`. -/
structure Issued where
  name : String
  number : Nat
  round : Int
  deriving DecidableEq, Repr

/-- The end of an instance, by a report that was issued for the instance `issuedFor`. -/
structure Ended where
  name : String
  number : Nat
  issuedFor : Nat
  deriving DecidableEq, Repr

/-- The scheduler with its clock; `current` is the number of the instance each name is in. -/
structure Instances where
  scheduler : Scheduler := {}
  clock : Int := 0
  current : String → Nat := fun _ => 0
  issued : List Issued := []
  ended : List Ended := []

inductive InstanceEvent where
  /-- `startNewRound` at the time `now`. -/
  | startNewRound (name : String) (now : Int)
  /-- Someone is going to report the current instance. -/
  | issue (name : String)
  /-- The report `k` arrives: `RoundDone` is called. -/
  | roundDone (k : Nat)

namespace Instances

def step (s : Instances) : InstanceEvent → Option Instances
  | .startNewRound name now =>
    if s.clock ≤ now then
      some { s with
        scheduler := s.scheduler.startNewRound name now
        clock := now
        current := if name ∈ s.scheduler.roundCall then
          Function.update s.current name (s.current name + 1) else s.current }
    else none
  | .issue name =>
    (s.scheduler.round name).map fun round =>
      { s with issued := s.issued ++ [⟨name, s.current name, round⟩] }
  | .roundDone k =>
    (s.issued[k]?).map fun r =>
      if s.scheduler.accepts r.name r.round then
        { s with
          scheduler := s.scheduler.setDone r.name
          ended := s.ended ++ [⟨r.name, s.current r.name, r.number⟩] }
      else s

/-- Every registered name has a round and a flag; nothing has been reported. -/
def Registered (s : Instances) : Prop :=
  (∀ name ∈ s.scheduler.roundCall,
    (s.scheduler.round name).isSome ∧ (s.scheduler.roundDoneFlag name).isSome) ∧
  s.issued = [] ∧ s.ended = []

def instances : Machine Instances InstanceEvent where
  init := Registered
  step := step

/-- A round starts in a later second than the one before it. -/
def LaterSecond (s : Instances) : InstanceEvent → Prop
  | .startNewRound name now => ∀ round ∈ s.scheduler.round name, round < now
  | _ => True

instance (s : Instances) (e : InstanceEvent) : Decidable (s.LaterSecond e) :=
  match e with
  | .startNewRound name now =>
    inferInstanceAs (Decidable (∀ round ∈ s.scheduler.round name, round < now))
  | .issue _ | .roundDone _ => .isTrue trivial

end Instances

end OwnX.Task
