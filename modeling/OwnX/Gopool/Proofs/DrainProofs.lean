import OwnX.Gopool.Proofs.QueueProofs
import OwnX.Gopool.Proofs.WorkerProofs
import OwnX.Foundations.Proofs.TerminationProofs
import Mathlib.Algebra.BigOperators.Group.Multiset.Basic

/-!
# Proofs: a pool gets its work done

Every goroutine of a pool has a bounded number of steps before it, and a task in the queue costs the worker
that takes it three more. So a pool on which `CtxGo` is not called any more comes to rest, whatever goes on
in the others. At rest it has no goroutine left: the invariants of the queue and of the worker count say what
has become of its tasks.
-/

namespace OwnX.Gopool

/-! ## The steps before a goroutine -/

/-- The steps a `CtxGo` call may still take, with those of the worker it may start and of the task it is to
enqueue. -/
def CallerPc.stepsLeft : CallerPc → Nat
  | .get => 13
  | .enqueue _ => 12
  | .addTaskCount => 8
  | .loadTaskCount => 7
  | .loadWorkerCount => 6
  | .loadCap _ => 5
  | .checkZero => 4
  | .incrWorkerCount => 3
  | .runWorker => 2

/-- The steps a worker may still take if it finds no further task. -/
def WorkerPc.stepsLeft : WorkerPc → Nat
  | .take => 1
  | .run _ _ => 3
  | .recycle _ => 2

def Thread.stepsLeft : Thread → Nat
  | .caller _ _ pc => pc.stepsLeft
  | .worker _ pc => pc.stepsLeft

/-- The event is a step of a goroutine of the pool `p`. -/
def Event.isWork (p : Nat) (e : Event) : Prop := e.pool = some p ∧ e.thread.isSome

instance (p : Nat) : DecidablePred (Event.isWork p) :=
  fun e => inferInstanceAs (Decidable (e.pool = some p ∧ e.thread.isSome))

/-- The event is not a call of `CtxGo` on the pool `p`. -/
def Event.noCall (p : Nat) (e : Event) : Prop := ∀ job, e ≠ .call p job

namespace World

/-- The goroutines of the pool `p`. -/
def team (s : World) (p : Nat) : Multiset Thread := s.threads.filter fun t => t.pool = p

/-- The number of tasks in the queue of the pool `p`. -/
def queued (s : World) (p : Nat) : Nat := (s.pools p).submitted.length - (s.pools p).taken.length

/-- The steps the goroutines of the pool `p` may still take. -/
def stepsLeft (s : World) (p : Nat) : Nat := ((s.team p).map Thread.stepsLeft).sum + 3 * s.queued p

/-- The pool `p` has no goroutine and no task left: every task that was submitted is finished. -/
structure Drained (s : World) (p : Nat) : Prop where
  team : s.team p = 0
  taskHead : (s.pools p).taskHead = none
  workerCount : (s.pools p).workerCount = 0
  taskCount : (s.pools p).taskCount = 0
  finished : (s.pools p).finished.Perm (s.pools p).submitted

variable {s s' : World} {p : Nat}

theorem team_spawn {th : Thread} (h : th.pool = p) : (s.spawn th).team p = th ::ₘ s.team p :=
  Multiset.filter_cons_of_pos s.threads h

/-- The steps of the goroutines, by one of them. -/
theorem stepsLeft_spawn {th : Thread} (h : th.pool = p) :
    (s.spawn th).stepsLeft p = th.stepsLeft + s.stepsLeft p := by
  unfold stepsLeft queued
  rw [team_spawn h, Multiset.map_cons, Multiset.sum_cons, spawn_pools]
  omega

theorem stepsLeft_caller (s : World) (p : Nat) (job : Job) (pc : CallerPc) :
    (s.spawn (.caller p job pc)).stepsLeft p = pc.stepsLeft + s.stepsLeft p := stepsLeft_spawn rfl

theorem stepsLeft_worker (s : World) (p : Nat) (pc : WorkerPc) :
    (s.spawn (.worker p pc)).stepsLeft p = pc.stepsLeft + s.stepsLeft p := stepsLeft_spawn rfl

/-- Only the goroutines and the history of the pool count. -/
theorem stepsLeft_congr (hteam : s'.team p = s.team p)
    (hsub : (s'.pools p).submitted = (s.pools p).submitted)
    (htaken : (s'.pools p).taken = (s.pools p).taken) : s'.stepsLeft p = s.stepsLeft p := by
  unfold stepsLeft queued
  rw [hteam, hsub, htaken]

theorem stepsLeft_setPool {q : Pool} (hsub : q.submitted = (s.pools p).submitted)
    (htaken : q.taken = (s.pools p).taken) : (s.setPool p q).stepsLeft p = s.stepsLeft p :=
  stepsLeft_congr rfl (by rw [setPool_pools_self, hsub]) (by rw [setPool_pools_self, htaken])

end World

open World

variable {s s' : World} {p : Nat}

/-- A step of another pool leaves the goroutines alone. -/
theorem team_other {e : Event} (h : Moves s e s') (hne : e.pool ≠ some p) : s'.team p = s.team p := by
  ext th
  by_cases hth : th.pool = p
  · have hof : OfPool p fun t => decide (th = t) := by
      intro t ht
      rw [← of_decide_eq_true ht]
      exact hth
    have hcount := (moves_other h hne).2 _ hof
    simp only [World.count, decide_eq_true_eq] at hcount
    simp only [World.team, Multiset.count_filter, hth, if_true]
    exact hcount
  · simp only [World.team, Multiset.count_filter, hth, if_false]

/-! ## Every step lowers them -/

theorem stepsLeft_ctxGo {job : Job} {pick : Option Nat} {pc : CallerPc}
    (hle : (s.pools p).taken.length ≤ (s.pools p).submitted.length)
    (h : s.ctxGo p job pick pc = some s') :
    s'.stepsLeft p < (s.spawn (.caller p job pc)).stepsLeft p := by
  rw [stepsLeft_caller]
  cases pc with
  | get =>
    obtain ⟨⟨s₁, t⟩, h₁, rfl⟩ := Option.map_eq_some_iff.1 h
    have hsame : s₁.stepsLeft p = s.stepsLeft p := by
      rcases getTask_some h₁ with ⟨-, rfl⟩ | ⟨-, rfl⟩ <;> rfl
    rw [stepsLeft_caller, hsame]
    simp only [CallerPc.stepsLeft]
    omega
  | enqueue t =>
    obtain ⟨s₁, h₁, rfl⟩ := Option.map_eq_some_iff.1 h
    have hmore : s₁.stepsLeft p = s.stepsLeft p + 3 := by
      rcases enqueue_some h₁ with ⟨-, rfl⟩ | ⟨_, _, -, -, rfl⟩ <;>
      · simp only [World.stepsLeft, World.queued, World.team, setPool_threads, setTask_threads,
          setPool_pools_self, List.length_append, List.length_singleton]
        omega
    rw [stepsLeft_caller, hmore]
    simp only [CallerPc.stepsLeft]
    omega
  | addTaskCount | incrWorkerCount =>
    cases h
    rw [stepsLeft_caller, stepsLeft_setPool]
    · simp only [CallerPc.stepsLeft]
      omega
    · rfl
    · rfl
  | loadWorkerCount =>
    cases h
    rw [stepsLeft_caller]
    simp only [CallerPc.stepsLeft]
    omega
  | runWorker =>
    cases h
    rw [stepsLeft_worker]
    simp only [CallerPc.stepsLeft, WorkerPc.stepsLeft]
    omega
  | loadTaskCount | loadCap w =>
    simp only [World.ctxGo] at h
    split_ifs at h <;>
    · cases h
      rw [stepsLeft_caller]
      simp only [CallerPc.stepsLeft]
      omega
  | checkZero =>
    simp only [World.ctxGo] at h
    split_ifs at h
    · cases h
      rw [stepsLeft_caller]
      simp only [CallerPc.stepsLeft]
      omega
    · cases h
      simp only [CallerPc.stepsLeft]
      omega

theorem stepsLeft_workerRun {pc : WorkerPc}
    (hqueue : (s.pools p).taskHead ≠ none →
      (s.pools p).taken.length < (s.pools p).submitted.length)
    (h : s.workerRun p pc = some s') : s'.stepsLeft p < (s.spawn (.worker p pc)).stepsLeft p := by
  rw [stepsLeft_worker]
  cases pc with
  | take =>
    cases hhead : (s.pools p).taskHead with
    | none =>
      simp only [World.workerRun, hhead] at h
      cases h
      rw [stepsLeft_setPool]
      · simp only [WorkerPc.stepsLeft]
        omega
      · rfl
      · rfl
    | some t =>
      -- the task leaves the queue, and the worker has it before it
      have hlt := hqueue (by rw [hhead]; exact Option.some_ne_none t)
      simp only [World.workerRun, hhead] at h
      cases h
      rw [stepsLeft_worker]
      simp only [World.stepsLeft, World.queued, World.team, setPool_threads, setPool_pools_self,
        List.length_append, List.length_singleton, WorkerPc.stepsLeft]
      omega
  | run t job =>
    cases h
    rw [stepsLeft_worker, stepsLeft_setPool]
    · simp only [WorkerPc.stepsLeft]
      omega
    · rfl
    · rfl
  | recycle t =>
    cases h
    have hsame : (s.recycle t).stepsLeft p = s.stepsLeft p := rfl
    rw [stepsLeft_worker, hsame]
    simp only [WorkerPc.stepsLeft]
    omega

/-- The tasks that have left the queue are among those that entered it, and a queue with a head has one that
has not left. -/
theorem taken_of_reachable (h : machine.Reachable s) (p : Nat) :
    (s.pools p).taken.length ≤ (s.pools p).submitted.length ∧
      ((s.pools p).taskHead ≠ none → (s.pools p).taken.length < (s.pools p).submitted.length) := by
  obtain ⟨own, q, hs, hb⟩ := queues_reachable h
  have horder := (hb p).order
  have hspells := hs.spells p
  rw [horder, List.length_append, List.length_map]
  refine ⟨by omega, fun hhead => ?_⟩
  cases hq : q p with
  | nil =>
    rw [hq] at hspells
    exact absurd hspells hhead
  | cons e l =>
    rw [List.length_cons]
    omega

/-- A step that is not of the pool, or is a change of its capacity, costs it nothing. -/
theorem stepsLeft_quiet {e : Event} (h : Moves s e s') (hcall : e.noCall p) (hwork : ¬e.isWork p) :
    s'.stepsLeft p = s.stepsLeft p := by
  by_cases hp : e.pool = some p
  · cases h with
    | call s p' job =>
      obtain rfl := Option.some.inj hp
      exact absurd rfl (hcall job)
    | caller h => exact absurd ⟨hp, rfl⟩ hwork
    | worker h => exact absurd ⟨hp, rfl⟩ hwork
    | setCap s p' cap =>
      obtain rfl := Option.some.inj hp
      exact stepsLeft_setPool rfl rfl
    | drop ht => cases hp
  · have hpool := (moves_other h hp).1
    exact stepsLeft_congr (team_other h hp) (by rw [hpool]) (by rw [hpool])

theorem stepsLeft_work {e : Event} (hr : machine.Reachable s) (h : Moves s e s') (hwork : e.isWork p) :
    s'.stepsLeft p < s.stepsLeft p := by
  obtain ⟨hle, hlt⟩ := taken_of_reachable hr p
  obtain ⟨hp, hthread⟩ := hwork
  cases h with
  | caller h =>
    obtain rfl := Option.some.inj hp
    exact stepsLeft_ctxGo hle h
  | worker h =>
    obtain rfl := Option.some.inj hp
    exact stepsLeft_workerRun hlt h
  | call s p' job => cases hthread
  | setCap s p' cap => cases hthread
  | drop ht => cases hthread

theorem ranked (p : Nat) :
    machine.Ranked (Event.noCall p) (Event.isWork p) machine.Reachable (World.stepsLeft · p) where
  keep := fun _ _ _ hr _ hs => .step hr trivial hs
  stay := by
    intro s e s' hr hcall hs
    have hm := moves_of_step hs
    by_cases hwork : e.isWork p
    · exact (stepsLeft_work hr hm hwork).le
    · exact (stepsLeft_quiet hm hcall hwork).le
  lower := fun _ _ _ hr _ hwork hs => stepsLeft_work hr (moves_of_step hs) hwork

/-! ## The pool at rest -/

theorem workerRun_isSome (s : World) (p : Nat) (pc : WorkerPc) : (s.workerRun p pc).isSome := by
  cases pc with
  | take =>
    cases hhead : (s.pools p).taskHead with
    | none => simp only [World.workerRun, hhead, Option.isSome_some]
    | some t => simp only [World.workerRun, hhead, Option.isSome_some]
  | run t job => rfl
  | recycle t => rfl

/-- A queue with a head has a tail. -/
theorem Shape.tail_isSome {own : Nat → Owner} {q : Nat → List (Nat × Job)} (hs : Shape s own q) {a : Nat}
    (hhead : (s.pools p).taskHead = some a) : (s.pools p).taskTail.isSome := by
  have hspells := hs.spells p
  rw [hhead] at hspells
  have hne : q p ≠ [] := by
    intro hq
    rw [hq] at hspells
    cases hspells
  rw [hs.tail p hne, List.getLast?_isSome]
  simpa [addrs] using hne

theorem enqueue_isSome {job : Job} {t : Nat}
    (h : ∀ a, (s.pools p).taskHead = some a → (s.pools p).taskTail.isSome) :
    (s.enqueue p job t).isSome := by
  cases hhead : (s.pools p).taskHead with
  | none => simp only [World.enqueue, hhead, Option.isSome_some]
  | some a =>
    simp only [World.enqueue, hhead, Option.isSome_map]
    exact h a hhead

theorem ctxGo_isSome {job : Job} (h : ∀ t, (s.enqueue p job t).isSome) (pc : CallerPc) :
    (s.ctxGo p job none pc).isSome := by
  cases pc with
  | get | addTaskCount | loadWorkerCount | incrWorkerCount | runWorker => rfl
  | enqueue t =>
    rw [World.ctxGo, Option.isSome_map]
    exact h t
  | loadTaskCount | loadCap w | checkZero =>
    simp only [World.ctxGo]
    split_ifs <;> rfl

/-- Every goroutine can take its next step. -/
theorem exists_step_of_thread (hr : machine.Reachable s) {th : Thread} (hth : th ∈ s.threads) :
    ∃ e s', e.thread = some th ∧ e.pool = some th.pool ∧ machine.step s e = some s' := by
  obtain ⟨own, q, hs, -⟩ := queues_reachable hr
  obtain ⟨s₀, rfl⟩ := exists_spawn hth
  cases th with
  | worker p pc =>
    obtain ⟨s', hs'⟩ := Option.isSome_iff_exists.1 (workerRun_isSome s₀ p pc)
    refine ⟨.worker p pc, s', rfl, rfl, ?_⟩
    simp only [machine, World.step, remove_spawn, Option.bind_some, hs']
  | caller p job pc =>
    have henq : ∀ t, (s₀.enqueue p job t).isSome := fun t => enqueue_isSome fun _ => hs.tail_isSome
    obtain ⟨s', hs'⟩ := Option.isSome_iff_exists.1 (ctxGo_isSome henq pc)
    refine ⟨.caller p job pc none, s', rfl, rfl, ?_⟩
    simp only [machine, World.step, remove_spawn, Option.bind_some, hs']

theorem count_of_team {f : Thread → Bool} (hteam : s.team p = 0) (hf : OfPool p f) : s.count f = 0 := by
  by_contra hne
  obtain ⟨t, ht, hft⟩ := World.count_pos.1 (Nat.pos_of_ne_zero hne)
  have hmem : t ∈ s.team p := Multiset.mem_filter.2 ⟨ht, hf t hft⟩
  rw [hteam] at hmem
  exact Multiset.notMem_zero t hmem

/-- A pool without goroutines has no task left. -/
theorem drained_of_team (hr : machine.Reachable s) (hteam : s.team p = 0) : s.Drained p := by
  obtain ⟨own, q, hs, hb⟩ := queues_reachable hr
  obtain ⟨hcount, hcover⟩ := staffed_reachable hr p
  obtain ⟨horder, hconserve, htasks⟩ := hb p
  rw [count_of_team hteam (ofPool_counted p)] at hcount hcover
  rw [count_of_team hteam (ofPool_deciding p)] at hcover
  rw [count_of_team hteam (ofPool_uncounted p)] at htasks
  have hhead : (s.pools p).taskHead = none := hcover.resolve_right (by omega)
  have hq : q p = [] := by
    have hspells := hs.spells p
    rw [hhead] at hspells
    cases hl : q p with
    | nil => rfl
    | cons e l =>
      rw [hl] at hspells
      exact absurd hspells.1 (by simp)
  rw [hq] at horder htasks
  refine ⟨hteam, hhead, hcount, htasks, List.perm_iff_count.2 fun job => ?_⟩
  have hjob := hconserve job
  rw [count_of_team hteam (ofPool_runs p job)] at hjob
  rw [horder, List.map_nil, List.append_nil, hjob, Nat.zero_add]

/-- From every reachable state, a pool on which `CtxGo` is not called any more comes to rest: its goroutines
take no more than `stepsLeft` steps, however they are interleaved with each other, with the other pools and
with `SetCap`; and when none of them can take a step, every submitted task has been run and finished, the
queue is empty and no worker is left. -/
theorem pool_drains (h : machine.Reachable s) (p : Nat) :
    machine.Finishes (Event.noCall p) (Event.isWork p) s (s.stepsLeft p) (World.Drained · p) := by
  refine (ranked p).finishes (fun s hr hidle => drained_of_team hr ?_) h
  by_contra hne
  obtain ⟨th, hth⟩ := Multiset.exists_mem_of_ne_zero hne
  obtain ⟨hmem, hp⟩ := Multiset.mem_filter.1 hth
  obtain ⟨e, s', hthread, hpool, hstep⟩ := exists_step_of_thread hr hmem
  have hwork : e.isWork p := ⟨by rw [hpool, hp], by rw [hthread]; rfl⟩
  rw [hidle e hwork] at hstep
  cases hstep

/-- Two tasks are submitted; a worker runs the first of them and the second is in the queue. -/
theorem pool_drains_two :
    ∃ s, machine.Reachable s ∧ (s.pools 0).submitted = [⟨none, some 7⟩, ⟨none, some 8⟩] ∧
      (s.pools 0).finished = [] ∧
      machine.Finishes (Event.noCall 0) (Event.isWork 0) s (s.stepsLeft 0) (World.Drained · 0) := by
  have hrun : (machine.run (initial (fun _ => 1) fun _ => 1)
      [.call 0 ⟨none, some 7⟩, .call 0 ⟨none, some 8⟩, .caller 0 ⟨none, some 7⟩ .get none,
        .caller 0 ⟨none, some 7⟩ (.enqueue 0) none, .caller 0 ⟨none, some 8⟩ .get none,
        .caller 0 ⟨none, some 8⟩ (.enqueue 1) none, .caller 0 ⟨none, some 7⟩ .addTaskCount none,
        .caller 0 ⟨none, some 7⟩ .loadTaskCount none, .caller 0 ⟨none, some 7⟩ .loadWorkerCount none,
        .caller 0 ⟨none, some 7⟩ (.loadCap 0) none, .caller 0 ⟨none, some 7⟩ .incrWorkerCount none,
        .caller 0 ⟨none, some 7⟩ .runWorker none, .worker 0 .take]).map
      (fun s => ((s.pools 0).submitted, (s.pools 0).finished)) =
      some ([⟨none, some 7⟩, ⟨none, some 8⟩], []) := by
    decide
  obtain ⟨s, hreach, hobs⟩ := Machine.observed_of_run hrun ⟨_, _, rfl⟩
  obtain ⟨hsub, hfin⟩ := Prod.mk.inj hobs
  exact ⟨s, hreach, hsub, hfin, pool_drains hreach 0⟩

end OwnX.Gopool
