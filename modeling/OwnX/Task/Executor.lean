import OwnX.Ssh.Command
import OwnX.Task.Worker

/-!
# The executor of a node (`task/node/executor.go`, `task/node/job.go`)

The executor builds one task for each address, and its `Exec` is the function of the task: it connects
to the address and runs a script there. What the script writes is kept as the output of the task.

`executions` is a worker whose built tasks are the executor's. A goroutine that ends such a task has run
`Exec` on a host; which host answers, and how, is left open. A task that ends the process ends the
worker with it.
-/

namespace OwnX.Task

/-- The data of a task: a `*Job`, or something else. -/
inductive JobData where
  | job (ip : String)
  | other
  deriving DecidableEq, Repr

/-- `decodeJob`: the address of the job. -/
def decodeJob : JobData → Except String String
  | .job ip => .ok ip
  | .other => .error "data is invalid"

/-- A `Task` with `F` the `Exec` of the executor. -/
structure BuiltTask where
  id : Int
  data : JobData
  info : TaskInfo
  deriving DecidableEq, Repr

/-- What a build function is given: a `[]string`, or something else. -/
inductive BuildInput where
  | ips (ipList : List String)
  | other
  deriving DecidableEq, Repr

namespace Executor

open Ssh

/-- The script of `Exec`. -/
def scripts : List String := ["echo 'hello!'"]

/-- `remoteExec`: the results that the scripts receive. -/
def remoteExec (host : Host) (ip : String) (scripts : List String) : Option (List String) :=
  match host.connect with
  | some err => some (scripts.map fun _ => "connect to host " ++ ip ++ " failed. err=" ++ err)
  | none =>
    scripts.mapM fun script => do
      let ret := host.runCmd script
      let _ ← ret.hasError true
      return ret.stdout

/-- `updateResult`: what it prints, and its error. -/
def updateResult (ip : String) (outputs : List String) : List String × Option String :=
  (outputs.map fun o => ip ++ " exec got ouput: " ++ o, none)

/-- `Exec`: what it prints of the results, and its error. -/
def exec (host : Host) (jobData : JobData) : Option (List String × Option String) :=
  match decodeJob jobData with
  | .error err => some ([], some err)
  | .ok ip => (remoteExec host ip scripts).map (updateResult ip)

/-- `TaskBuild`; `clock` has the times that `time.Now` returns, one after the other. -/
def taskBuild (clock : Nat → Int) (_round : Int) : BuildInput → Except String (List BuiltTask)
  | .other => .error "data is not []string"
  | .ips ipList =>
    .ok (ipList.mapIdx fun i ip =>
      { id := clock i
        data := .job ip
        info := { needRetry := true, retryTimes := 0, retryLimit := 3 } })

/-- `CutInLineTaskBuild`. -/
def cutInLineTaskBuild (clock : Nat → Int) (nodeIPList : BuildInput) :
    Except String (List BuiltTask) :=
  taskBuild clock (-1) nodeIPList

end Executor

/-- How a function ends that returns an error or nil. -/
def TaskResult.ofError : Option String → TaskResult
  | none => .ok
  | some _ => .err

/-- A worker of executor tasks, with its history. -/
structure Executions where
  history : TaskHistory
  /-- What each run of `Exec` printed of the results, with the task it was run for. -/
  outputs : List (Nat × List String) := []
  /-- The process has ended. -/
  exited : Bool := false

/-- What goes on in a worker of executor tasks. -/
inductive ExecutionEvent where
  /-- A step of the worker, other than the end of a built task. -/
  | worker (e : WorkerEvent)
  /-- The goroutine `k` has run `Exec`. -/
  | exec (k : Nat) (host : Ssh.Host)

namespace Executions

/-- One step; `jobs` has the built tasks. -/
def step (jobs : Nat → BuiltTask) (s : Executions) (e : ExecutionEvent) : Option Executions :=
  if s.exited then none
  else
    match e with
    | .worker (.finish _ _) => none
    | .worker e => (s.history.step e).map fun history => { s with history }
    | .exec k host =>
      match s.history.worker.execs[k]? with
      | some (.running (.built t)) =>
        match Executor.exec host (jobs t).data with
        | none => some { s with exited := true }
        | some (outputs, err) =>
          (s.history.step (.finish k (.ofError err))).map fun history =>
            { s with history, outputs := s.outputs ++ [(t, outputs)] }
      | _ => none

/-- A started worker of executor tasks. -/
def executions (jobs : Nat → BuiltTask) : Machine Executions ExecutionEvent where
  init := fun s => TaskHistory.histories.init s.history ∧ s = { history := s.history } ∧
    s.history.initial = fun t => (jobs t).info
  step := step jobs

/-- Each built task is put once. -/
def PutOnce (s : Executions) : ExecutionEvent → Prop
  | .worker e => s.history.PutOnce e
  | .exec _ _ => True

instance (s : Executions) (e : ExecutionEvent) : Decidable (s.PutOnce e) :=
  match e with
  | .worker e => inferInstanceAs (Decidable (s.history.PutOnce e))
  | .exec _ _ => isTrue trivial

end Executions

end OwnX.Task
