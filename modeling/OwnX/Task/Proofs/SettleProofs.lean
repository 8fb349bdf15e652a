import OwnX.Task.Proofs.RoundWorkerProofs
import OwnX.Foundations.Proofs.TerminationProofs
import Mathlib.Algebra.Order.BigOperators.Group.List
import Mathlib.Algebra.Order.Group.Nat

/-!
# Proofs: a worker comes to rest

Every attempt at a task uses up one of its `RetryTimes`, so a worker into which nothing is put any more
has only so many steps left. It may still be stuck with a task that waits for the other goroutine of its
bucket to receive it; where tasks that may be sent back are kept apart, and no goroutine has stopped, that
one is at its `select` sooner or later.
-/

namespace OwnX.Task

/-- How often a failed task may still be sent back. -/
def TaskInfo.retriesLeft (info : TaskInfo) : Nat :=
  if info.needRetry then (info.retryLimit - info.retryTimes).toNat else 0

/-- The steps that a goroutine has left until it is at its `select` again, or in the send that never
ends. -/
def Exec.stepsLeft (task : Nat → TaskInfo) : Exec → Nat
  | .select | .cancelTimeout _ | .stopped => 0
  | .running (.built t) => 2 * (task t).retriesLeft + 1
  | .requeue t => 2 * (task t).retriesLeft + 2
  | .running (.batchDone _) => 4
  | .ending _ => 3
  | .roundDone _ => 2
  | .sendName _ => 1

namespace WorkerEvent

/-- A goroutine goes on with what it does. -/
def isWork : WorkerEvent → Prop
  | .requeue _ | .finish .. | .batchDone _ | .conclude .. | .roundDone .. | .nameReceived _ => True
  | .put .. | .syncPartitions _ | .syncPartitionDone _ | .done _ => False

instance : DecidablePred isWork := fun e =>
  match e with
  | .requeue _ | .finish .. | .batchDone _ | .conclude .. | .roundDone .. | .nameReceived _ => isTrue trivial
  | .put .. | .syncPartitions _ | .syncPartitionDone _ | .done _ => isFalse not_false

/-- No goroutine stops: no task panics, and `Done` is not called. -/
def goesOn : WorkerEvent → Bool
  | .finish _ .panic | .done _ => false
  | _ => true

/-- No goroutine stops, and nothing is put. -/
def noPut (e : WorkerEvent) : Prop := e.goesOn = true ∧ e.taken = []

end WorkerEvent

namespace Worker

variable {w w' : Worker} {e : WorkerEvent}

def stepsLeft (w : Worker) : Nat := (w.execs.map (Exec.stepsLeft w.task)).sum

/-! ## The steps that are left -/

theorem stepsLeft_setExec {k : Nat} {before : Exec} (hk : w.execs[k]? = some before) (after : Exec) :
    (w.setExec k after).stepsLeft + before.stepsLeft w.task = w.stepsLeft + after.stepsLeft w.task :=
  sum_map_set (Exec.stepsLeft w.task) hk after

theorem stepsLeft_setExec_lt {k : Nat} {before : Exec} (hk : w.execs[k]? = some before) (after : Exec)
    (hlt : after.stepsLeft w.task < before.stepsLeft w.task) : (w.setExec k after).stepsLeft < w.stepsLeft := by
  have hset := stepsLeft_setExec hk after
  omega

theorem retriesLeft_retry {info : TaskInfo} (h : info.retries) :
    TaskInfo.retriesLeft { info with retryTimes := info.retryTimes + 1 } + 1 = info.retriesLeft := by
  simp only [TaskInfo.retries, Bool.and_eq_true, decide_eq_true_eq] at h
  simp only [TaskInfo.retriesLeft, h.1, if_true]
  omega

/-- An attempt that fails leaves every goroutine no more to do than before. -/
theorem stepsLeft_update {task : Nat → TaskInfo} {t : Nat} (h : (task t).retries) (x : Exec) :
    x.stepsLeft (Function.update task t { task t with retryTimes := (task t).retryTimes + 1 }) ≤
      x.stepsLeft task := by
  have hle : ∀ u, (Function.update task t { task t with retryTimes := (task t).retryTimes + 1 }
      u).retriesLeft ≤ (task u).retriesLeft := by
    intro u
    by_cases hu : u = t
    · subst hu
      rw [Function.update_self, ← retriesLeft_retry h]
      exact Nat.le_succ _
    · rw [Function.update_of_ne hu]
  match x with
  | .running (.built u) => exact Nat.succ_le_succ (Nat.mul_le_mul_left 2 (hle u))
  | .requeue u => exact Nat.add_le_add_right (Nat.mul_le_mul_left 2 (hle u)) 2
  | .select | .cancelTimeout _ | .stopped | .running (.batchDone _) | .ending _ | .roundDone _
  | .sendName _ => exact Nat.le_refl _

/-- The sum over all goroutines, when the task `t` that goroutine `k` runs is sent back. -/
theorem stepsLeft_retry {k t : Nat} (hk : w.execs[k]? = some (.running (.built t)))
    (ht : (w.task t).retries) :
    stepsLeft { w.setExec k (.requeue t) with
      task := Function.update w.task t { w.task t with retryTimes := (w.task t).retryTimes + 1 } } <
      w.stepsLeft := by
  set task' := Function.update w.task t { w.task t with retryTimes := (w.task t).retryTimes + 1 }
    with htask'
  have hset : ((w.execs.set k (.requeue t)).map (Exec.stepsLeft task')).sum +
      (Exec.running (.built t)).stepsLeft task' = (w.execs.map (Exec.stepsLeft task')).sum +
        (Exec.requeue t).stepsLeft task' := sum_map_set _ hk _
  have hset₀ : ((w.execs.set k .select).map (Exec.stepsLeft task')).sum +
      (Exec.running (.built t)).stepsLeft task' = (w.execs.map (Exec.stepsLeft task')).sum +
        Exec.select.stepsLeft task' := sum_map_set _ hk _
  have hset₁ : ((w.execs.set k .select).map (Exec.stepsLeft w.task)).sum +
      (Exec.running (.built t)).stepsLeft w.task = (w.execs.map (Exec.stepsLeft w.task)).sum +
        Exec.select.stepsLeft w.task := sum_map_set _ hk _
  have hothers : ((w.execs.set k .select).map (Exec.stepsLeft task')).sum ≤
      ((w.execs.set k .select).map (Exec.stepsLeft w.task)).sum :=
    List.sum_le_sum fun x _ => stepsLeft_update ht x
  have hleft : (task' t).retriesLeft + 1 = (w.task t).retriesLeft := by
    rw [htask', Function.update_self]
    exact retriesLeft_retry ht
  show ((w.execs.set k (.requeue t)).map (Exec.stepsLeft task')).sum <
    (w.execs.map (Exec.stepsLeft w.task)).sum
  simp only [Exec.stepsLeft] at hset hset₀ hset₁
  omega

/-- Every step of a goroutine uses up one of those that are left. -/
theorem stepsLeft_work (hwork : e.isWork) (hs : w.step e = some w') : w'.stepsLeft < w.stepsLeft := by
  cases moves_of_step hs with
  | put | syncPartitions | syncPartitionDone | done => exact absurd hwork not_false
  | requeue k t hk hsibling =>
    have hsibling' : (w.setExec k .select).execs[sibling k]? = some .select := by
      rw [getElem?_setExec_of_ne (sibling_ne k), hsibling]
    have hfirst := stepsLeft_setExec hk .select
    have hsecond := stepsLeft_setExec hsibling' (.running (.built t))
    simp only [Exec.stepsLeft, setExec] at hfirst hsecond ⊢
    omega
  | finish k t r after hk hafter =>
    refine stepsLeft_setExec_lt (w := w) hk after ?_
    rcases hafter with rfl | rfl <;> exact Nat.succ_pos _
  | retry k t hk ht => exact stepsLeft_retry hk ht
  | batchDone k index hk =>
    refine stepsLeft_setExec_lt (w := w) hk _ ?_
    split <;> simp [Exec.stepsLeft]
  | conclude k p aliveNodeNames hk =>
    refine stepsLeft_setExec_lt hk _ ?_
    split <;> simp [Exec.stepsLeft]
  | roundDone k round accepted hk =>
    refine stepsLeft_setExec_lt hk _ ?_
    split <;> simp [Exec.stepsLeft]
  | nameReceived k round hk => exact stepsLeft_setExec_lt hk _ (Nat.succ_pos 0)

/-! ## The worker at rest -/

theorem length_execs_of_step (hs : w.step e = some w') : w'.execs.length = w.execs.length := by
  cases moves_of_step hs with
  | requeue k t hk hsibling =>
    simp only [setExec, List.length_set]
  | syncPartitions np => rfl
  | syncPartitionDone pt => rfl
  | _ => exact List.length_set

/-- A goroutine stops when its task panics or when it receives from `done`. -/
theorem stopped_of_step (hgo : e.goesOn = true) (hs : w.step e = some w') (h : .stopped ∈ w'.execs) :
    .stopped ∈ w.execs := by
  have hset : ∀ {l : List Exec} {k : Nat} {after : Exec}, after ≠ .stopped → .stopped ∈ l.set k after →
      .stopped ∈ l :=
    fun hne hmem => (List.mem_or_eq_of_mem_set hmem).resolve_right (Ne.symm hne)
  cases moves_of_step hs with
  | put id t k hk => exact hset (by simp) h
  | requeue k t hk hsibling => exact hset (by simp) (hset (by simp) h)
  | finish k t r after hk hafter =>
    rcases hafter with rfl | rfl
    · exact hset (by simp) h
    · -- the goroutine of a task that has returned is at its `select`
      simp only [step, hk, Option.some.injEq] at hs
      have hself := congrArg (fun w => w.execs[k]?) hs
      rw [show (w.finishAs k (.built t) .stopped).execs[k]? = some .stopped from
        getElem?_setExec_self hk .stopped] at hself
      cases r with
      | panic => cases hgo
      | ok =>
        rw [show (w.finish k t .ok).execs[k]? = some .select from getElem?_setExec_self hk .select] at hself
        cases hself
      | err =>
        unfold finish at hself
        dsimp only at hself
        split at hself
        · rw [show (w.setExec k (.requeue t)).execs[k]? = _ from getElem?_setExec_self hk _] at hself
          cases hself
        · rw [show (w.finishAs k (.built t) .select).execs[k]? = _ from getElem?_setExec_self hk _] at hself
          cases hself
  | retry k t hk ht => exact hset (by simp) h
  | batchDone k index hk => exact hset (by split <;> simp) h
  | conclude k p aliveNodeNames hk => exact hset (by split <;> simp) h
  | roundDone k round accepted hk => exact hset (by split <;> simp) h
  | nameReceived k round hk => exact hset (by simp) h
  | syncPartitions np => exact h
  | syncPartitionDone pt => exact h
  | done k hk => cases hgo

/-- A worker that can always go on: tasks that may be sent back are apart, no goroutine has stopped, and
every goroutine has its sibling. -/
structure Sound (w : Worker) : Prop where
  apart : ∀ i, ¬ Both w.maySend w.execs i
  goesOn : .stopped ∉ w.execs
  even : w.execs.length % 2 = 0

theorem sound_newWorker (parallelism : Int) (task : Nat → TaskInfo) (allocator : Allocator Nat)
    (myName : String) : Sound (newWorker parallelism task allocator myName) := by
  constructor
  · intro i hboth
    obtain ⟨x, hx, hmay⟩ := (Option.any_eq_true _ _).1 (hboth (2 * i) (.inl rfl))
    rw [eq_select_of_newWorker (List.mem_of_getElem? hx)] at hmay
    cases hmay
  · intro hmem
    cases eq_select_of_newWorker hmem
  · simp [newWorker]

theorem Sound.step (h : Sound w) (hapart : w.PutApart e) (hgo : e.goesOn = true)
    (hs : w.step e = some w') : Sound w' where
  apart := fun i hboth => h.apart i (both_maySend_of_step hapart hs hboth)
  goesOn := fun hmem => h.goesOn (stopped_of_step hgo hs hmem)
  even := by rw [length_execs_of_step hs]; exact h.even

/-- Where no goroutine can go on, none has a task. -/
theorem Sound.held_of_idle (h : Sound w) (hidle : ∀ e : WorkerEvent, e.isWork → w.step e = none)
    {x : Exec} (hx : x ∈ w.execs) : x.held = none := by
  obtain ⟨k, hk⟩ := List.mem_iff_getElem?.1 hx
  have hbuilt : ∀ {j t : Nat}, w.execs[j]? ≠ some (.running (.built t)) := by
    intro j t hj
    have hstep := hidle (.finish j .ok) trivial
    simp [Worker.step, hj] at hstep
  match x, hk with
  | .running (.built t), hk => exact absurd hk hbuilt
  | .running (.batchDone index), hk =>
    have hstep := hidle (.batchDone k) trivial
    simp [Worker.step, hk] at hstep
  | .requeue t, hk =>
    -- the sibling is neither at its `select` nor stopped, so it handles a task that may be sent back
    have hlt : sibling k < w.execs.length := by
      have hlt := (List.getElem?_eq_some_iff.1 hk).1
      have heven := h.even
      unfold sibling
      split <;> omega
    obtain ⟨y, hy⟩ : ∃ y, w.execs[sibling k]? = some y := ⟨_, List.getElem?_eq_getElem hlt⟩
    have hselect : y ≠ .select := by
      rintro rfl
      have hstep := hidle (.requeue k) trivial
      simp [Worker.step, hk, hy] at hstep
    have hmay : w.maySend y = true := by
      match y, hy with
      | .running (.built u), hy => exact absurd hy hbuilt
      | .select, _ => exact absurd rfl hselect
      | .stopped, hy => exact absurd (List.mem_of_getElem? hy) h.goesOn
      | .running (.batchDone _), _ | .requeue _, _ | .ending _, _ | .roundDone _, _ | .sendName _, _
      | .cancelTimeout _, _ => rfl
    refine absurd (fun j hj => ?_) (h.apart (k / 2))
    have hj : j = k ∨ j = sibling k := by
      unfold sibling
      split <;> omega
    rcases hj with rfl | rfl
    · rw [hk]
      rfl
    · rw [hy]
      exact hmay
  | .select, _ | .ending _, _ | .roundDone _, _ | .sendName _, _ | .cancelTimeout _, _ | .stopped, _ => rfl

end Worker

/-- A worker with one bucket, whose task `0` alone may be tried once more. -/
def Worker.retryFirst : Worker :=
  newWorker 1 (fun t => { needRetry := t == 0, retryTimes := 0, retryLimit := 1 }) {} "node"

namespace TaskHistory

variable {s s' : TaskHistory} {e : WorkerEvent}

/-- Tasks that may be sent back are put apart, and no goroutine stops. -/
def Steady (s : TaskHistory) (e : WorkerEvent) : Prop := s.worker.PutApart e ∧ e.goesOn = true

instance (s : TaskHistory) (e : WorkerEvent) : Decidable (s.Steady e) :=
  inferInstanceAs (Decidable (_ ∧ _))

theorem sound_reachable (h : histories.ReachableWhen Steady s) : s.worker.Sound := by
  refine h.invariant (fun s => s.worker.Sound) ?_ ?_
  · rintro s ⟨⟨parallelism, task, allocator, myName, hw⟩, -⟩
    rw [hw]
    exact Worker.sound_newWorker parallelism task allocator myName
  · intro s e s' _ hsound hok hs
    obtain ⟨w', hw, rfl⟩ := Option.map_eq_some_iff.1 hs
    exact hsound.step hok.1 hok.2 hw

/-- What was put is with a goroutine or finished. -/
theorem carried_reachable {ok : TaskHistory → WorkerEvent → Prop} (h : histories.ReachableWhen ok s)
    (p : Queued Nat → Bool) : s.worker.carried p = s.taken.countP p := by
  refine h.invariant (fun s => s.worker.carried p = s.taken.countP p) ?_ ?_
  · rintro s ⟨⟨parallelism, task, allocator, myName, hw⟩, hs⟩
    have hexecs : s.worker.execs.countP (fun x => x.held.any p) = 0 := by
      refine List.countP_eq_zero.2 fun x hx => ?_
      rw [hw] at hx
      rw [Worker.eq_select_of_newWorker hx]
      exact Bool.false_ne_true
    have hfinished : s.worker.finished = [] := by rw [hw]; rfl
    have htaken : s.taken = [] := by rw [hs]
    rw [Worker.carried, hexecs, hfinished, htaken]
    rfl
  · intro s e s' _ hcarried _ hs
    obtain ⟨w', hw, rfl⟩ := Option.map_eq_some_iff.1 hs
    rw [Worker.carried_of_step hw, hcarried, List.countP_append]

theorem ranked : histories.Ranked WorkerEvent.noPut WorkerEvent.isWork
    (fun s => histories.ReachableWhen Steady s) (fun s => s.worker.stepsLeft) where
  keep := by
    intro s e s' hr hno hs
    refine .step hr ⟨?_, hno.1⟩ hs
    cases e with
    | put id t k => cases hno.2
    | _ => trivial
  stay := by
    intro s e s' hr hno hs
    obtain ⟨w', hw, rfl⟩ := Option.map_eq_some_iff.1 hs
    by_cases hwork : e.isWork
    · exact Nat.le_of_lt (Worker.stepsLeft_work hwork hw)
    · cases Worker.moves_of_step hw with
      | put => cases hno.2
      | done => cases hno.1
      | syncPartitions | syncPartitionDone => exact Nat.le_refl _
      | _ => exact absurd trivial hwork
  lower := by
    intro s e s' hr hno hwork hs
    obtain ⟨w', hw, rfl⟩ := Option.map_eq_some_iff.1 hs
    exact Worker.stepsLeft_work hwork hw

end TaskHistory

end OwnX.Task
