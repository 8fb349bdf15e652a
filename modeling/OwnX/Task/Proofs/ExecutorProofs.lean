import OwnX.Task.Executor
import OwnX.Task.Proofs.AttemptProofs

/-!
# The tasks of the executor

`Exec` has no error to return for a job: what goes wrong on the host becomes an output, or ends the
process. So a task of the executor is run once, and its retries are never used.
-/

namespace OwnX.Task

/-! ## The functions of the executor -/

namespace Executor

/-- `Exec` returns nil for a job, or the process ends. -/
theorem exec_job (host : Ssh.Host) (ip : String) :
    exec host (.job ip) = none ∨ ∃ outputs, exec host (.job ip) = some (outputs, none) := by
  have hexec : exec host (.job ip) = (remoteExec host ip scripts).map (updateResult ip) := rfl
  rw [hexec]
  cases remoteExec host ip scripts with
  | none => exact Or.inl rfl
  | some outputs => exact Or.inr ⟨_, rfl⟩

/-- A task that `TaskBuild` has built is for one of the addresses, and has been tried never. -/
theorem data_of_taskBuild {clock : Nat → Int} {round : Int} {input : BuildInput}
    {tasks : List BuiltTask} (hb : taskBuild clock round input = .ok tasks) {b : BuiltTask}
    (h : b ∈ tasks) : ∃ ip, b.data = .job ip ∧ b.info.retryTimes = 0 := by
  cases input with
  | other => cases hb
  | ips ipList =>
    obtain rfl := Except.ok.inj hb
    obtain ⟨i, hi, rfl⟩ := List.mem_mapIdx.mp h
    exact ⟨ipList[i], rfl, rfl⟩

end Executor

/-! ## The steps of the worker -/

namespace Worker

variable {w w' : Worker} {e : WorkerEvent} {t : Nat}

/-- What a step leaves alone of a task that is not sent back. -/
structure Untouched (w w' : Worker) (t : Nat) : Prop where
  requeued : w'.requeued t = w.requeued t
  task : w'.task t = w.task t
  finished : w'.finished.count (.built t) = w.finished.count (.built t)

theorem taken_le_attempts (w : Worker) (e : WorkerEvent) (t : Nat) :
    e.taken.count (.built t) ≤ (w.attempts e).count (.start t) := by
  cases e with
  | put id u k =>
    cases u with
    | built u => simp [WorkerEvent.taken, attempts, List.count_singleton]
    | batchDone index => simp [WorkerEvent.taken]
  | _ => simp [WorkerEvent.taken]

/-- A step that ends no built task. -/
theorem untouched_of_step (hs : w.step e = some w') (hne : ∀ k r, e ≠ .finish k r)
    (hzero : w.requeued t = 0) : Untouched w w' t ∧ ∀ r, .result t r ∉ w.attempts e := by
  have htask : w'.task = w.task := by
    cases moves_of_step hs with
    | retry k u hk hu => exact absurd rfl (hne _ _)
    | _ => rfl
  have hfinished : w'.finished.count (.built t) = w.finished.count (.built t) := by
    cases moves_of_step hs with
    | finish => exact absurd rfl (hne _ _)
    | batchDone k index hk =>
      show (w.finished ++ [Queued.batchDone index]).count (Queued.built t) = _
      simp
    | _ => rfl
  -- every attempt at the task is for a `Put`
  have hrequeued : w'.requeued t = 0 := by
    have hattempts := attempts_of_step hs t
    have htaken := taken_le_attempts w e t
    rw [htask] at hattempts
    omega
  refine ⟨⟨hrequeued.trans hzero.symm, congrFun htask t, hfinished⟩, fun r hr => ?_⟩
  cases e with
  | put id u k => cases u <;> simp [attempts] at hr
  | requeue k =>
    simp only [attempts] at hr
    split at hr <;> simp at hr
  | finish k r => exact hne k r rfl
  | _ => simp [attempts] at hr

/-- Another task ends. -/
theorem untouched_of_finish {k u : Nat} {r : TaskResult} (hs : w.step (.finish k r) = some w')
    (hk : w.execs[k]? = some (.running (.built u))) (hu : u ≠ t) : Untouched w w' t := by
  cases moves_of_step hs with
  | finish _ u' _ after hk' hafter =>
    obtain rfl : u' = u := by simpa [hk] using hk'.symm
    refine ⟨requeued_setExec_of_ne hk _ (by simp) ?_, rfl, ?_⟩
    · rcases hafter with rfl | rfl <;> simp
    · show (w.finished ++ [Queued.built u']).count (.built t) = _
      simp [hu]
  | retry _ u' hk' ht =>
    obtain rfl : u' = u := by simpa [hk] using hk'.symm
    refine ⟨requeued_setExec_of_ne (w := w) hk _ (by simp) (by simpa using hu), ?_, rfl⟩
    exact Function.update_of_ne hu.symm _ _

end Worker

/-! ## Runs -/

namespace Executions

variable {jobs : Nat → BuiltTask} {s s' : Executions} {t : Nat}

/-- A task of the executor is not tried again, and each of its runs that ends leaves its outputs. -/
structure Once (s : Executions) (t : Nat) : Prop where
  reach : TaskHistory.histories.ReachableWhen TaskHistory.PutOnce s.history
  requeued : s.history.worker.requeued t = 0
  task : s.history.worker.task t = s.history.initial t
  result : ∀ r, .result t r ∈ s.history.log → r = .ok
  outputs : (s.outputs.map Prod.fst).count t = s.history.worker.finished.count (.built t)

theorem Once.init (h : (executions jobs).init s) : s.Once t := by
  obtain ⟨hinit, hs, -⟩ := h
  have htracks := TaskHistory.tracks_init hinit t
  have hnew := hinit.2
  have hlog : s.history.log = [] := by rw [hnew]
  have htaken : s.history.taken = [] := by rw [hnew]
  have hinitial : s.history.initial = s.history.worker.task := by rw [hnew]
  have houtputs : s.outputs = [] := by rw [hs]
  have hstarts := htracks.starts
  have hcarried := htracks.carried
  unfold Worker.carried at hcarried
  rw [htaken, List.count_nil] at hcarried
  rw [hlog, htaken, hinitial, List.count_nil, List.count_nil] at hstarts
  refine ⟨.init hinit, by omega, by rw [hinitial], ?_, ?_⟩
  · simp [hlog]
  · rw [houtputs, List.count_eq_countP]
    exact (Nat.eq_zero_of_add_eq_zero_left hcarried).symm

/-- A step is one of the worker that ends no built task, or it ends the process, or a goroutine has run
`Exec`. -/
theorem step_cases {e : ExecutionEvent} (hs : step jobs s e = some s') :
    (∃ e', e = .worker e' ∧ (∀ k r, e' ≠ .finish k r) ∧ s.history.step e' = some s'.history ∧
      s'.outputs = s.outputs) ∨
    (s'.history = s.history ∧ s'.outputs = s.outputs) ∨
    ∃ k u host outputs err, s.history.worker.execs[k]? = some (.running (.built u)) ∧
      Executor.exec host (jobs u).data = some (outputs, err) ∧
      s.history.step (.finish k (.ofError err)) = some s'.history ∧
      s'.outputs = s.outputs ++ [(u, outputs)] := by
  unfold step at hs
  split_ifs at hs
  split at hs
  · cases hs
  · next e' hne =>
    obtain ⟨history, hstep, rfl⟩ := Option.map_eq_some_iff.mp hs
    exact Or.inl ⟨e', rfl, fun k r he => hne k r he, hstep, rfl⟩
  · next k host =>
    split at hs
    · next u hk =>
      split at hs
      · obtain rfl := Option.some.inj hs
        exact Or.inr (Or.inl ⟨rfl, rfl⟩)
      · next outputs err hexec =>
        obtain ⟨history, hstep, rfl⟩ := Option.map_eq_some_iff.mp hs
        exact Or.inr (Or.inr ⟨k, u, host, outputs, err, hk, hexec, hstep, rfl⟩)
    · cases hs

/-- A step that leaves the task alone. -/
theorem Once.untouched {e : WorkerEvent} (h : s.Once t) (hok : s.history.PutOnce e)
    (hstep : s.history.step e = some s'.history)
    (hsame : Worker.Untouched s.history.worker s'.history.worker t)
    (hresult : ∀ r, .result t r ∉ s.history.worker.attempts e)
    (houtputs : (s'.outputs.map Prod.fst).count t = (s.outputs.map Prod.fst).count t) : s'.Once t := by
  obtain ⟨worker, hworker, he⟩ := Option.map_eq_some_iff.mp hstep
  have hlog : s'.history.log = s.history.log ++ s.history.worker.attempts e := by rw [← he]
  have hinitial : s'.history.initial = s.history.initial := by rw [← he]
  refine ⟨h.reach.step hok hstep, hsame.requeued.trans h.requeued, ?_, fun r hr => ?_, ?_⟩
  · rw [hsame.task, hinitial, h.task]
  · rw [hlog, List.mem_append] at hr
    rcases hr with hr | hr
    · exact h.result r hr
    · exact absurd hr (hresult r)
  · rw [houtputs, hsame.finished, h.outputs]

/-- The task itself ends, and has returned nil. -/
theorem Once.ends {k : Nat} {outputs : List String} (h : s.Once t)
    (hk : s.history.worker.execs[k]? = some (.running (.built t)))
    (hstep : s.history.step (.finish k .ok) = some s'.history)
    (houtputs : s'.outputs = s.outputs ++ [(t, outputs)]) : s'.Once t := by
  obtain ⟨worker, hworker, he⟩ := Option.map_eq_some_iff.mp hstep
  have hw : s'.history.worker = s.history.worker.finishAs k (.built t) .select := by
    have hdone : s.history.worker.step (.finish k .ok) =
        some (s.history.worker.finishAs k (.built t) .select) := by
      simp only [Worker.step, hk]
      rfl
    rw [hdone, Option.some.injEq] at hworker
    rw [← he, ← hworker]
  have hlog : s'.history.log = s.history.log ++ [.result t .ok] := by
    have hattempts : s.history.worker.attempts (.finish k .ok) = [.result t .ok] := by
      simp only [Worker.attempts, hk]
    rw [← he, ← hattempts]
  have hinitial : s'.history.initial = s.history.initial := by rw [← he]
  have hok : s.history.PutOnce (.finish k .ok) := trivial
  refine ⟨h.reach.step hok hstep, ?_, ?_, fun r hr => ?_, ?_⟩
  · rw [hw]
    exact (Worker.requeued_setExec_of_ne hk _ (by simp) (by simp)).trans h.requeued
  · rw [hw, hinitial]
    exact h.task
  · rw [hlog, List.mem_append, List.mem_singleton] at hr
    rcases hr with hr | hr
    · exact h.result r hr
    · exact (Attempt.result.inj hr).2
  · have hfinished : s'.history.worker.finished = s.history.worker.finished ++ [.built t] := by
      rw [hw]
      rfl
    rw [houtputs, hfinished, List.map_append, List.count_append, List.count_append, h.outputs]
    simp

theorem Once.step {ip : String} (hjob : (jobs t).data = .job ip) {e : ExecutionEvent} (h : s.Once t)
    (hok : s.PutOnce e) (hs : Executions.step jobs s e = some s') : s'.Once t := by
  rcases step_cases hs with ⟨e', rfl, hne, hstep, hout⟩ | ⟨hhistory, hout⟩ |
    ⟨k, u, host, outputs, err, hk, hexec, hstep, hout⟩
  · obtain ⟨worker, hworker, he⟩ := Option.map_eq_some_iff.mp hstep
    obtain ⟨hsame, hresult⟩ := Worker.untouched_of_step hworker hne h.requeued
    rw [show worker = s'.history.worker by rw [← he]] at hsame
    exact h.untouched hok hstep hsame hresult (by rw [hout])
  · obtain ⟨hreach, hrequeued, htask, hresult, houtputs⟩ := h
    rw [← hhistory] at hreach hrequeued htask hresult houtputs
    rw [← hout] at houtputs
    exact ⟨hreach, hrequeued, htask, hresult, houtputs⟩
  · by_cases hu : u = t
    · subst hu
      -- `Exec` has no error for a job
      rcases Executor.exec_job host ip with hnone | ⟨outputs', hsome⟩
      · rw [hjob, hnone] at hexec
        cases hexec
      · rw [hjob, hsome] at hexec
        cases hexec
        exact h.ends hk hstep hout
    · obtain ⟨worker, hworker, he⟩ := Option.map_eq_some_iff.mp hstep
      have hsame := Worker.untouched_of_finish hworker hk hu
      rw [show worker = s'.history.worker by rw [← he]] at hsame
      have hok : s.history.PutOnce (.finish k (.ofError err)) := trivial
      refine h.untouched hok hstep hsame (fun r hr => ?_) ?_
      · simp only [Worker.attempts, hk, List.mem_singleton, Attempt.result.injEq] at hr
        exact hu hr.1.symm
      · rw [hout, List.map_append, List.count_append]
        simp [hu]

/-- A task that the executor has built is tried at most once, whatever its hosts do: its `RetryTimes`
stay at zero and it never returns an error. It has left its outputs once for every time it has been
finished. -/
theorem executed_once {clock : Nat → Int} {round : Int} {input : BuildInput} {tasks : List BuiltTask}
    (hb : Executor.taskBuild clock round input = .ok tasks)
    (hr : (executions jobs).ReachableWhen PutOnce s) (ht : jobs t ∈ tasks) :
    s.history.log.count (.start t) ≤ 1 ∧ (s.history.worker.task t).retryTimes = 0 ∧
      (∀ r, .result t r ∈ s.history.log → r = .ok) ∧
      (s.outputs.map Prod.fst).count t = s.history.worker.finished.count (.built t) := by
  obtain ⟨ip, hjob, hzero⟩ := Executor.data_of_taskBuild hb ht
  have honce : s.Once t :=
    hr.invariant (·.Once t) (fun _ h => .init h) fun _ _ _ _ h hok hs => h.step hjob hok hs
  have hinitial : s.history.initial = fun t => (jobs t).info := by
    refine hr.invariant (fun s => s.history.initial = fun t => (jobs t).info) ?_ ?_
    · exact fun s (h : (executions jobs).init s) => h.2.2
    intro s e s' _ h _ hs
    rcases step_cases hs with ⟨e', -, -, hstep, -⟩ | ⟨hhistory, -⟩ | ⟨_, _, _, _, _, -, -, hstep, -⟩
    · obtain ⟨worker, -, he⟩ := Option.map_eq_some_iff.mp hstep
      rw [← he]
      exact h
    · rw [hhistory]
      exact h
    · obtain ⟨worker, -, he⟩ := Option.map_eq_some_iff.mp hstep
      rw [← he]
      exact h
  have htracks := TaskHistory.tracks_reachable honce.reach t
  have htimes : (s.history.worker.task t).retryTimes = 0 := by
    rw [honce.task, hinitial]
    exact hzero
  refine ⟨?_, htimes, honce.result, honce.outputs⟩
  have hstarts := htracks.starts
  have htaken := htracks.once
  rw [← honce.task] at hstarts
  omega

/-- A host that cannot be reached. -/
def unreachable : Ssh.Host where
  connect := some "timeout"
  reply := fun _ => .noSession "closed"

/-- The one task of the executor for the address `10.0.0.1`. -/
def oneJob : BuiltTask where
  id := 7
  data := .job "10.0.0.1"
  info := { needRetry := true, retryTimes := 0, retryLimit := 3 }

/-- The host cannot be reached: this is the output of the task, and there is no other attempt. -/
theorem executed_once_unreachable :
    ∃ s, (executions fun _ => oneJob).ReachableWhen PutOnce s ∧
      s.outputs = [(0, ["10.0.0.1 exec got ouput: connect to host 10.0.0.1 failed. err=timeout"])] ∧
      s.history.log.count (.start 0) ≤ 1 ∧ s.history.worker.finished.count (.built 0) = 1 := by
  let worker := Worker.newWorker 1 (fun _ => oneJob.info) {} "node"
  have hrun : (((executions fun _ => oneJob).restrict PutOnce).run
      { history := { worker, initial := fun _ => oneJob.info } }
      [.worker (.put 7 (.built 0) 0), .exec 0 unreachable]).map Executions.outputs =
        some [(0, ["10.0.0.1 exec got ouput: connect to host 10.0.0.1 failed. err=timeout"])] := by
    decide
  have hinit : Worker.workers.init worker := ⟨1, _, {}, "node", rfl⟩
  obtain ⟨s, hr, hout⟩ := Machine.observedWhen_of_run hrun ⟨⟨hinit, rfl⟩, rfl, rfl⟩
  have hb : Executor.taskBuild (fun _ => 7) 1 (.ips ["10.0.0.1"]) = .ok [oneJob] := rfl
  obtain ⟨hstarts, -, -, hcount⟩ := executed_once (t := 0) hb hr (List.mem_singleton_self _)
  refine ⟨s, hr, hout, hstarts, ?_⟩
  rw [← hcount, hout]
  rfl

end Executions

end OwnX.Task
