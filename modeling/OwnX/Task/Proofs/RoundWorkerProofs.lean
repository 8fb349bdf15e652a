import OwnX.Task.Proofs.AllocatorProofs
import OwnX.Task.Proofs.WorkerProofs

/-!
# The tasks of a round in the worker

The tasks of all rounds are never lost: each is still to be put, with a goroutine, or finished. A
`batchDoneTask` may be taken by the other goroutine of a bucket while a task before it is still run, may
be put while another build function has its tasks still to put, and may be left from a round before. If
rounds do not overlap and the last `batchDoneTask`s of a round wait for its tasks, `RoundDone` is set when
all of them are finished.
-/

namespace OwnX.Task

/-! ## Counting -/

theorem toNat_eq_ite (b : Bool) : b.toNat = if b = true then 1 else 0 := by
  cases b <;> rfl

theorem countP_set_add {α : Type} {l : List α} {k : Nat} {a : α} (h : l[k]? = some a) (b : α)
    (p : α → Bool) :
    (l.set k b).countP p + (p a).toNat = l.countP p + (p b).toNat := by
  induction l generalizing k with
  | nil => simp at h
  | cons c l ih =>
    cases k with
    | zero =>
      obtain rfl : c = a := by simpa using h
      simp only [List.set_cons_zero, List.countP_cons, toNat_eq_ite]
      omega
    | succ k =>
      have hl := ih (k := k) (by simpa using h)
      simp only [List.set_cons_succ, List.countP_cons]
      omega

theorem countP_singleton_toNat {α : Type} (p : α → Bool) (a : α) : [a].countP p = (p a).toNat := by
  cases h : p a with
  | false => rw [List.countP_singleton, h]; rfl
  | true => rw [List.countP_singleton, h]; rfl

namespace Allocator

variable {T : Type}

/-- Counting a batch counts it and nothing else. -/
theorem countBatch_counts {a : Allocator T} {myName : String} {q : Partition}
    (h : (a.countBatch myName).1.nodePartition myName = some q) :
    ∃ p, a.nodePartition myName = some p ∧ q.finBatchCount = p.finBatchCount + 1 ∧
      q.batchCount = p.batchCount := by
  cases hp : a.nodePartition myName with
  | none =>
    rw [countBatch_of_none hp, hp] at h
    cases h
  | some p =>
    rw [countBatch_of_some hp, nodePartition_setPartition, if_pos rfl] at h
    obtain rfl := Option.some.inj h
    exact ⟨p, rfl, rfl, rfl⟩

/-- `partitionDone` goes on when it has set `RoundDone`, which is when enough batches are counted. -/
theorem countBatch_eq_some {a : Allocator T} {myName : String} {p : Partition}
    (h : (a.countBatch myName).2 = some p) :
    (a.countBatch myName).1.nodePartition myName = some p ∧ p.roundDone = true ∧
      p.batchCount ≤ p.finBatchCount := by
  unfold countBatch at h ⊢
  split at h
  · simp at h
  · dsimp only at h ⊢
    split at h
    · simp at h
    · next hge =>
      obtain rfl := Option.some.inj h
      rw [if_neg hge]
      exact ⟨Function.update_self .., rfl, Int.not_lt.1 hge⟩

/-- A message about a partition leaves the counts of all partitions alone. -/
theorem syncPartitionDone_counts {a : Allocator T} {name : String} {pt q : Partition}
    (h : (a.syncPartitionDone (.partition pt)).allocator.nodePartition name = some q) :
    ∃ p, a.nodePartition name = some p ∧ q.finBatchCount = p.finBatchCount ∧
      q.batchCount = p.batchCount := by
  unfold syncPartitionDone at h
  dsimp only at h
  split at h
  · exact ⟨q, h, rfl, rfl⟩
  · next partition hpt =>
    by_cases hname : name = pt.nodeName
    · rw [nodePartition_setPartition, if_pos hname] at h
      obtain rfl := Option.some.inj h
      exact ⟨partition, hname ▸ hpt, rfl, rfl⟩
    · rw [nodePartition_setPartition, if_neg hname] at h
      exact ⟨q, h, rfl, rfl⟩

end Allocator

namespace Worker

variable {w w' : Worker} {e : WorkerEvent}

/-! ## The tasks in the worker -/

/-- The tasks with the property `p` that goroutines have to finish, and those that are finished. -/
def carried (w : Worker) (p : Queued Nat → Bool) : Nat :=
  w.execs.countP (fun x => x.held.any p) + w.finished.countP p

theorem carried_setExec {k : Nat} {before : Exec} (hk : w.execs[k]? = some before) (after : Exec)
    (p : Queued Nat → Bool) :
    (w.setExec k after).carried p + (before.held.any p).toNat =
      w.carried p + (after.held.any p).toNat := by
  have hset := countP_set_add hk after fun x => x.held.any p
  simp only [carried, setExec]
  omega

theorem carried_setExec_of_none {k : Nat} {before after : Exec} (hk : w.execs[k]? = some before)
    (hbefore : before.held = none) (hafter : after.held = none) (p : Queued Nat → Bool) :
    (w.setExec k after).carried p = w.carried p := by
  have hset := carried_setExec hk after p
  rwa [hbefore, hafter] at hset

theorem carried_finishAs {k : Nat} {before after : Exec} {t : Queued Nat}
    (hk : w.execs[k]? = some before) (hbefore : before.held = some t) (hafter : after.held = none)
    (p : Queued Nat → Bool) : (w.finishAs k t after).carried p = w.carried p := by
  have hset := countP_set_add hk after fun x => x.held.any p
  simp only [hbefore, hafter, Option.any_some, Option.any_none, Bool.toNat_false] at hset
  simp only [carried, finishAs, setExec, List.countP_append, countP_singleton_toNat]
  omega

/-- No task is lost and none is made: what a step brings into the worker is what is put. -/
theorem carried_of_step (hs : w.step e = some w') (p : Queued Nat → Bool) :
    w'.carried p = w.carried p + e.taken.countP p := by
  cases moves_of_step hs with
  | put id t k hk =>
    have hset := carried_setExec hk (.running t) p
    simp only [Exec.held, Option.any_none, Option.any_some, Bool.toNat_false] at hset
    simp only [WorkerEvent.taken, countP_singleton_toNat]
    omega
  | requeue k t hk hsibling =>
    have hsibling' : (w.setExec k .select).execs[sibling k]? = some .select := by
      rw [getElem?_setExec_of_ne (sibling_ne k), hsibling]
    have hfirst := carried_setExec hk .select p
    have hsecond := carried_setExec hsibling' (.running (.built t)) p
    simp only [Exec.held, Option.any_none, Option.any_some, Bool.toNat_false] at hfirst hsecond
    simp only [WorkerEvent.taken, List.countP_nil]
    omega
  | finish k t r after hk hafter =>
    refine carried_finishAs hk rfl ?_ p
    rcases hafter with rfl | rfl <;> rfl
  | retry k t hk ht =>
    have hset := carried_setExec hk (.requeue t) p
    exact Nat.add_right_cancel hset
  | batchDone k index hk =>
    refine carried_finishAs (w := { w with allocator := (w.allocator.countBatch w.myName).1 }) hk rfl ?_ p
    split <;> rfl
  | conclude k q aliveNodeNames hk =>
    refine carried_setExec_of_none hk rfl ?_ p
    split <;> rfl
  | roundDone k round accepted hk =>
    refine carried_setExec_of_none hk rfl ?_ p
    split <;> rfl
  | nameReceived k round hk => exact carried_setExec_of_none hk rfl rfl p
  | syncPartitions np => rfl
  | syncPartitionDone pt => rfl
  | done k hk => exact carried_setExec_of_none hk rfl rfl p

/-- What is finished stays so. -/
theorem countP_finished_le (hs : w.step e = some w') (p : Queued Nat → Bool) :
    w.finished.countP p ≤ w'.finished.countP p := by
  cases moves_of_step hs with
  | finish k t r after hk hafter =>
    show w.finished.countP p ≤ (w.finished ++ [Queued.built t]).countP p
    rw [List.countP_append]
    exact Nat.le_add_right _ _
  | batchDone k index hk =>
    show w.finished.countP p ≤ (w.finished ++ [Queued.batchDone index]).countP p
    rw [List.countP_append]
    exact Nat.le_add_right _ _
  | _ => exact Nat.le_refl _

/-- A step counts the batches whose `batchDoneTask` it finishes. -/
theorem own_of_step {q : Partition} (he : ∀ np, e ≠ .syncPartitions np) (hs : w.step e = some w')
    (hown : w'.own = some q) :
    ∃ p, w.own = some p ∧ q.batchCount = p.batchCount ∧
      q.finBatchCount + w.finished.countP Queued.isBatchDone =
        p.finBatchCount + w'.finished.countP Queued.isBatchDone := by
  cases moves_of_step hs with
  | finish k t r after hk hafter =>
    refine ⟨q, hown, rfl, ?_⟩
    simp [finishAs, setExec, Queued.isBatchDone]
  | batchDone k index hk =>
    obtain ⟨p, hp, hfin, hcount⟩ := Allocator.countBatch_counts hown
    refine ⟨p, hp, hcount, ?_⟩
    simp only [batchDone, finishAs, setExec, List.countP_append, countP_singleton_toNat,
      Queued.isBatchDone, Bool.toNat_true]
    omega
  | syncPartitions np => exact absurd rfl (he np)
  | syncPartitionDone pt =>
    obtain ⟨p, hp, hfin, hcount⟩ := Allocator.syncPartitionDone_counts hown
    exact ⟨p, hp, hcount, by rw [hfin]⟩
  | _ => exact ⟨q, hown, rfl, rfl⟩

/-- The `batchDoneTask` that sets `RoundDone`. -/
theorem ending_of_batchDone {k : Nat} {p : Partition} (hs : w.step (.batchDone k) = some w')
    (hset : w'.execs[k]? = some (.ending p)) :
    w'.own = some p ∧ p.roundDone = true ∧ p.batchCount ≤ p.finBatchCount := by
  cases moves_of_step hs with
  | batchDone _ index hk =>
    change (w.setExec k _).execs[k]? = _ at hset
    rw [getElem?_setExec_self hk] at hset
    cases hcounted : (w.allocator.countBatch w.myName).2 with
    | none =>
      rw [hcounted] at hset
      simp at hset
    | some q =>
      rw [hcounted] at hset
      obtain rfl : q = p := by simpa using hset
      exact Allocator.countBatch_eq_some hcounted

end Worker

/-! ## The rounds -/

/-- The queues of some calls, when one of them has put its next task. -/
theorem countP_flatten_set {α : Type} {l : List (List α)} {j : Nat} {x : α} {rest : List α}
    (h : l[j]? = some (x :: rest)) (p : α → Bool) :
    (l.set j rest).flatten.countP p + (p x).toNat = l.flatten.countP p := by
  induction l generalizing j with
  | nil => simp at h
  | cons run l ih =>
    cases j with
    | zero =>
      obtain rfl : run = x :: rest := by simpa using h
      simp only [List.set_cons_zero, List.flatten_cons, List.countP_append, List.countP_cons,
        toNat_eq_ite]
      omega
    | succ j =>
      have hl := ih (j := j) (by simpa using h)
      simp only [List.set_cons_succ, List.flatten_cons, List.countP_append]
      omega

namespace RoundWorker

variable {s s' : RoundWorker} {e : RoundWorkerEvent}

/-- Everything that is still to be put. -/
def toPut (s : RoundWorker) : List (Queued Nat) := s.runs.flatten.map Prod.snd

/-- A step of the worker, in which at most the next task of a call of `roundRun` is put. -/
structure WorkerStep (s s' : RoundWorker) (e : RoundWorkerEvent) (e' : WorkerEvent) : Prop where
  worker : s.worker.step e' = some s'.worker
  noMap : ∀ np, e' ≠ .syncPartitions np
  starting : s'.starting = s.starting
  tasks : s'.tasks = s.tasks
  toPut : ∀ p, s'.toPut.countP p + e'.taken.countP p = s.toPut.countP p
  taken : e'.taken.length ≤ 1
  marker : 0 < e'.taken.countP Queued.isBatchDone → ∃ j k, e = .put j k ∧ s.putsMarker j = true

/-- The steps, one by one. -/
inductive Moves (s : RoundWorker) : RoundWorkerEvent → RoundWorker → Prop where
  | syncPartitions (np : Partitions) (hnew : newMap s.worker.myName np = true) :
    Moves s (.syncPartitions np)
      { s with
        worker := { s.worker with allocator := { s.worker.allocator with nodePartition := np } }
        starting := s.starting + 1 }
  | roundRun (aliveNodeNames : List String) (aliveNodeIps : Slice) (rest : List (Int × Queued Nat))
      (hstarting : 0 < s.starting)
      (hrest : rest.map Prod.snd = (s.worker.allocator.roundRun
        (Nodes.view aliveNodeNames s.worker.myName aliveNodeIps)).effects.flatMap Effect.tasks) :
    Moves s (.roundRun aliveNodeNames aliveNodeIps rest)
      { s with
        starting := s.starting - 1, runs := s.runs ++ [rest]
        tasks := s.tasks ++ rest.map Prod.snd }
  | worker (e : RoundWorkerEvent) (e' : WorkerEvent) (s' : RoundWorker)
      (h : WorkerStep s s' e e') : Moves s e s'

/-- A step that is the worker's alone. -/
theorem workerStep_of_worker {e' : WorkerEvent} {worker : Worker} (hs : s.worker.step e' = some worker)
    (hnoMap : ∀ np, e' ≠ .syncPartitions np) (htaken : e'.taken = []) :
    WorkerStep s { s with worker } (.worker e') e' where
  worker := hs
  noMap := hnoMap
  starting := rfl
  tasks := rfl
  toPut := fun p => by rw [htaken, List.countP_nil]; rfl
  taken := by simp [htaken]
  marker := by simp [htaken]

theorem workerStep_of_put {j k : Nat} {id : Int} {t : Queued Nat} {rest : List (Int × Queued Nat)}
    {worker : Worker} (hj : s.runs[j]? = some ((id, t) :: rest))
    (hs : s.worker.step (.put id t k) = some worker) :
    WorkerStep s { s with worker, runs := s.runs.set j rest } (.put j k) (.put id t k) where
  worker := hs
  noMap := by simp
  starting := rfl
  tasks := rfl
  toPut := by
    intro p
    have hset := countP_flatten_set hj (p ∘ Prod.snd)
    simp only [toPut, List.countP_map, WorkerEvent.taken, countP_singleton_toNat]
    exact hset
  taken := Nat.le_refl 1
  marker := by
    intro hmarker
    refine ⟨j, k, rfl, ?_⟩
    obtain ⟨x, hx, hx'⟩ := List.countP_pos_iff.1 hmarker
    obtain rfl := List.mem_singleton.1 hx
    simpa [putsMarker, hj] using hx'

theorem moves_of_step (hs : s.step e = some s') : s.Moves e s' := by
  cases e with
  | syncPartitions np =>
    obtain ⟨hnew, hmap⟩ := Option.ite_none_right_eq_some.1 hs
    obtain ⟨worker, hworker, rfl⟩ := Option.map_eq_some_iff.1 hmap
    obtain rfl := Option.some.inj hworker
    exact .syncPartitions np hnew
  | roundRun aliveNodeNames aliveNodeIps rest =>
    obtain ⟨⟨hstarting, hrest, -⟩, hs'⟩ := Option.ite_none_right_eq_some.1 hs
    obtain rfl := Option.some.inj hs'
    rw [← hrest]
    exact .roundRun aliveNodeNames aliveNodeIps rest hstarting hrest
  | put j k =>
    unfold step at hs
    dsimp only at hs
    split at hs
    · next id t rest hj =>
      obtain ⟨worker, hworker, rfl⟩ := Option.map_eq_some_iff.1 hs
      exact .worker _ _ _ (workerStep_of_put hj hworker)
    · cases hs
  | worker e =>
    have hkind : (∀ np, e ≠ .syncPartitions np) ∧ e.taken = [] ∧
        (s.worker.step e).map (fun worker => { s with worker }) = some s' := by
      cases e with
      | put _ _ _ | syncPartitions _ => cases hs
      | _ => exact ⟨by simp, rfl, hs⟩
    obtain ⟨hnoMap, htaken, hmap⟩ := hkind
    obtain ⟨worker, hworker, rfl⟩ := Option.map_eq_some_iff.1 hmap
    exact .worker _ _ _ (workerStep_of_worker hworker hnoMap htaken)

/-! ## Where the tasks are -/

/-- A task is still to be put, with a goroutine, or finished. -/
def Accounted (s : RoundWorker) : Prop :=
  ∀ p, s.toPut.countP p + s.worker.carried p = s.tasks.countP p

theorem Accounted.step (h : s.Accounted) (hs : s.step e = some s') : s'.Accounted := by
  intro p
  have hp := h p
  cases moves_of_step hs with
  | syncPartitions np hnew => exact hp
  | roundRun names ips rest hstarting hrest =>
    have hput : toPut { s with runs := s.runs ++ [rest] } = s.toPut ++ rest.map Prod.snd := by
      simp [toPut]
    show (toPut { s with runs := s.runs ++ [rest] }).countP p + s.worker.carried p =
      (s.tasks ++ rest.map Prod.snd).countP p
    rw [hput, List.countP_append, List.countP_append]
    omega
  | worker _ e' _ hstep =>
    have hcarried := Worker.carried_of_step hstep.worker p
    have hput := hstep.toPut p
    rw [hstep.tasks]
    omega

/-- Nothing is with a goroutine of a new worker. -/
theorem init_cases (h : rounds.init s) :
    s.worker.finished = [] ∧ (∀ x ∈ s.worker.execs, x.held = none) ∧ s.toPut = [] ∧ s.tasks = [] ∧
      s.starting = 0 ∧ s.worker.own = none := by
  obtain ⟨⟨parallelism, task, allocator, myName, hworker⟩, hown, hs⟩ := h
  refine ⟨by rw [hworker]; rfl, ?_, by rw [hs]; rfl, by rw [hs], by rw [hs], hown⟩
  intro x hx
  rw [hworker] at hx
  rw [Worker.eq_select_of_newWorker hx]
  rfl

theorem countP_held_eq_zero {execs : List Exec} (h : ∀ x ∈ execs, x.held = none)
    (p : Queued Nat → Bool) : execs.countP (fun x => x.held.any p) = 0 := by
  rw [List.countP_eq_zero]
  intro x hx
  rw [h x hx]
  exact Bool.false_ne_true

theorem Accounted.init (h : rounds.init s) : s.Accounted := by
  obtain ⟨hfinished, hheld, hput, htasks, -, -⟩ := init_cases h
  intro p
  rw [hput, htasks, Worker.carried, hfinished, countP_held_eq_zero hheld]
  rfl

theorem accounted_of_reachable {ok : RoundWorker → RoundWorkerEvent → Prop}
    (h : rounds.ReachableWhen ok s) : s.Accounted :=
  h.invariant Accounted (fun _ => Accounted.init) fun _ _ _ _ hacc _ hs => hacc.step hs

/-- The task is not a `batchDoneTask`. -/
def isBuilt (t : Queued Nat) : Bool := !t.isBatchDone

theorem drained_iff :
    s.drained = true ↔ s.worker.execs.countP (fun x => x.held.any isBuilt) = 0 ∧
      s.toPut.countP isBuilt = 0 := by
  have hheld : s.worker.execs.all (fun x => x.held.all Queued.isBatchDone) = true ↔
      s.worker.execs.countP (fun x => x.held.any isBuilt) = 0 := by
    rw [List.countP_eq_zero, List.all_eq_true]
    refine forall₂_congr fun x _ => ?_
    cases x.held <;> simp [isBuilt]
  have hput : (s.runs.all fun run => run.all fun x => x.2.isBatchDone) = true ↔
      s.toPut.countP isBuilt = 0 := by
    rw [toPut, List.countP_eq_zero, List.forall_mem_map, List.forall_mem_flatten]
    simp [isBuilt]
  rw [drained, Bool.and_eq_true, hheld, hput]

/-- Everything is finished when no built task is still to be put or with a goroutine. -/
theorem Accounted.allFinished (h : s.Accounted) (hdrained : s.drained = true) : s.AllFinished := by
  obtain ⟨hheld, hput⟩ := drained_iff.1 hdrained
  intro t
  have hbuilt : ∀ u : Queued Nat, (u == .built t) = true → isBuilt u = true := by
    intro u hu
    rw [eq_of_beq hu]
    rfl
  have hheld' : s.worker.execs.countP (fun x => x.held.any (· == .built t)) = 0 := by
    refine Nat.eq_zero_of_le_zero (Nat.le_trans (List.countP_mono_left fun x _ hx => ?_)
      (Nat.le_of_eq hheld))
    obtain ⟨u, hu, hut⟩ := (Option.any_eq_true _ _).1 hx
    exact (Option.any_eq_true _ _).2 ⟨u, hu, hbuilt u hut⟩
  have hput' : s.toPut.countP (· == .built t) = 0 :=
    Nat.eq_zero_of_le_zero (Nat.le_trans (List.countP_mono_left fun u _ => hbuilt u)
      (Nat.le_of_eq hput))
  have hcount := h (· == .built t)
  unfold Worker.carried at hcount
  change s.worker.finished.countP (· == .built t) = s.tasks.countP (· == .built t)
  omega

/-! ## Rounds in order -/

/-- Nothing that was put or built is left. -/
structure Clear (s : RoundWorker) : Prop where
  held : s.worker.execs.countP (fun x => x.held.any fun _ => true) = 0
  toPut : s.toPut = []
  counted : ∀ p ∈ s.worker.own, p.finBatchCount + s.heldMarkers = 0

/-- What holds while rounds are in order. -/
structure InOrder (s : RoundWorker) : Prop where
  /-- Between a new map and its `roundRun` nothing is left. -/
  starting : s.starting = 0 ∨ s.starting = 1 ∧ s.Clear
  /-- When there are enough `batchDoneTask`s, no built task is left. -/
  last : ∀ p ∈ s.worker.own, p.batchCount ≤ p.finBatchCount + s.heldMarkers → s.drained = true

theorem Clear.drained (h : s.Clear) : s.drained = true := by
  rw [drained_iff, h.toPut]
  refine ⟨?_, rfl⟩
  refine Nat.eq_zero_of_le_zero (Nat.le_trans (List.countP_mono_left fun x _ hx => ?_)
    (Nat.le_of_eq h.held))
  obtain ⟨u, hu, -⟩ := (Option.any_eq_true _ _).1 hx
  exact (Option.any_eq_true _ _).2 ⟨u, hu, rfl⟩

/-- What the goroutines have, before and after a step. -/
theorem WorkerStep.held_le {e' : WorkerEvent} (h : WorkerStep s s' e e') (p : Queued Nat → Bool) :
    s'.worker.execs.countP (fun x => x.held.any p) + s'.toPut.countP p ≤
      s.worker.execs.countP (fun x => x.held.any p) + s.toPut.countP p := by
  have hcarried := Worker.carried_of_step h.worker p
  have hfinished := Worker.countP_finished_le h.worker p
  have hput := h.toPut p
  unfold Worker.carried at hcarried
  omega

theorem WorkerStep.drained {e' : WorkerEvent} (h : WorkerStep s s' e e') (hs : s.drained = true) :
    s'.drained = true := by
  rw [drained_iff] at hs ⊢
  have hle := h.held_le isBuilt
  omega

/-- The `batchDoneTask`s that are counted or run, before and after a step. -/
theorem WorkerStep.markers {e' : WorkerEvent} (h : WorkerStep s s' e e') {q : Partition}
    (hown : s'.worker.own = some q) :
    ∃ p, s.worker.own = some p ∧ q.batchCount = p.batchCount ∧
      q.finBatchCount + s'.heldMarkers =
        p.finBatchCount + s.heldMarkers + e'.taken.countP Queued.isBatchDone := by
  obtain ⟨p, hp, hcount, hfin⟩ := Worker.own_of_step h.noMap h.worker hown
  have hcarried := Worker.carried_of_step h.worker Queued.isBatchDone
  refine ⟨p, hp, hcount, ?_⟩
  unfold Worker.carried at hcarried
  unfold heldMarkers
  omega

theorem WorkerStep.clear {e' : WorkerEvent} (h : WorkerStep s s' e e') (hs : s.Clear) : s'.Clear := by
  have hle := h.held_le fun _ => true
  have hput := h.toPut fun _ => true
  rw [hs.held, hs.toPut, List.countP_nil] at hle
  rw [hs.toPut, List.countP_nil, List.countP_true] at hput
  refine ⟨by omega, List.eq_nil_of_length_eq_zero (by omega), ?_⟩
  intro q hq
  obtain ⟨p, hp, -, hmarkers⟩ := h.markers hq
  have hnone : e'.taken = [] := List.eq_nil_of_length_eq_zero (by omega)
  rw [hmarkers, hs.counted p hp, hnone]
  rfl

/-- A partition without batches has no tasks. -/
theorem roundRun_of_nonpos {a : Allocator Nat} {view : View}
    (h : ∀ p ∈ a.nodePartition view.myName, p.batchCount ≤ 0) :
    (a.roundRun view).effects.flatMap Effect.tasks = [] := by
  rw [List.flatMap_eq_nil_iff]
  intro e he
  obtain ⟨p, hp, index, hindex, -⟩ := Allocator.mem_effects_roundRun he
  have hcount := h p hp
  omega

theorem InOrder.step (h : s.InOrder) (hok : s.Orderly e) (hs : s.step e = some s') : s'.InOrder := by
  cases moves_of_step hs with
  | syncPartitions np hnew =>
    obtain ⟨hstarting, hruns, hheld⟩ := hok
    have hclear : Clear { s with
        worker := { s.worker with allocator := { s.worker.allocator with nodePartition := np } }
        starting := s.starting + 1 } := by
      refine ⟨countP_held_eq_zero hheld _, ?_, ?_⟩
      · simpa [toPut, List.flatten_eq_nil_iff] using hruns
      · intro p hp
        have hp : np s.worker.myName = some p := hp
        rw [newMap, hp, Option.all_some, Bool.and_eq_true] at hnew
        show p.finBatchCount + (s.worker.execs.countP _ : Nat) = 0
        rw [countP_held_eq_zero hheld, eq_of_beq hnew.1]
        rfl
    refine ⟨.inr ⟨?_, hclear⟩, fun _ _ _ => hclear.drained⟩
    show s.starting + 1 = 1
    omega
  | roundRun names ips rest hstarting hrest =>
    obtain ⟨hone, hclear⟩ := h.starting.resolve_left (by omega)
    refine ⟨.inl ?_, fun p hp hfull => ?_⟩
    · show s.starting - 1 = 0
      omega
    · -- enough of them before the first is put: there are no batches
      have hcount : p.batchCount ≤ 0 := by
        have hzero := hclear.counted p hp
        change p.batchCount ≤ p.finBatchCount + s.heldMarkers at hfull
        omega
      have hnil : rest.map Prod.snd = [] := by
        rw [hrest]
        refine roundRun_of_nonpos fun q hq => ?_
        obtain rfl : p = q := Option.some.inj (hp.symm.trans hq)
        exact hcount
      have hput : toPut { s with runs := s.runs ++ [rest] } = s.toPut := by
        simpa [toPut] using List.map_eq_nil_iff.1 hnil
      have hdrained := drained_iff.1 hclear.drained
      rw [← hput] at hdrained
      exact drained_iff.2 hdrained
  | worker _ e' _ hstep =>
    constructor
    · rw [hstep.starting]
      exact h.starting.imp_right (And.imp_right hstep.clear)
    · intro q hq hfull
      obtain ⟨p, hp, hcount, hmarkers⟩ := hstep.markers hq
      refine hstep.drained ?_
      by_cases hmarker : 0 < e'.taken.countP Queued.isBatchDone
      · obtain ⟨j, k, rfl, hputs⟩ := hstep.marker hmarker
        have hle := List.countP_le_length (p := Queued.isBatchDone) (l := e'.taken)
        have hone := hstep.taken
        exact hok hputs p hp (by omega)
      · exact h.last p hp (by omega)

theorem InOrder.init (h : rounds.init s) : s.InOrder := by
  obtain ⟨-, -, -, -, hstarting, hown⟩ := init_cases h
  refine ⟨.inl hstarting, fun p hp => ?_⟩
  rw [hown] at hp
  cases hp

theorem inOrder_of_reachable (h : rounds.ReachableWhen Orderly s) : s.InOrder :=
  h.invariant InOrder (fun _ => InOrder.init) fun _ _ _ _ hinv hok hs => hinv.step hok hs

/-- If rounds do not overlap, and the `batchDoneTask`s that may end a round are put when no built task is
left, every task that was built is finished when `partitionDone` sets `RoundDone`. -/
theorem roundDone_finished {k : Nat} {p : Partition} (h : rounds.ReachableWhen Orderly s)
    (hs : rounds.step s (.worker (.batchDone k)) = some s')
    (hset : s'.worker.execs[k]? = some (.ending p)) :
    s'.worker.own = some p ∧ p.roundDone = true ∧ s'.AllFinished := by
  have hstep : s.step (.worker (.batchDone k)) = some s' := hs
  have hreach : rounds.ReachableWhen Orderly s' := h.step (e := .worker (.batchDone k)) trivial hs
  obtain ⟨worker, hworker, rfl⟩ := Option.map_eq_some_iff.1 hstep
  obtain ⟨hown, hround, hdone⟩ := Worker.ending_of_batchDone hworker hset
  refine ⟨hown, hround, (accounted_of_reachable hreach).allFinished ?_⟩
  exact (inOrder_of_reachable hreach).last p hown (by omega)

/-- The partition of a node with one batch. -/
def onePartition : Partition :=
  { nodeName := "node", startIndex := 0, endIndex := 1, sortBy := "created_at", round := 0,
    batchCount := 1, batchSize := 1000 }

def oneMap : Partitions := fun name => if name = "node" then some onePartition else none

/-- A worker with one bucket. -/
def oneBucket (taskBuildFuncs : List (Int → List String → Option (List Nat))) : RoundWorker where
  worker := Worker.newWorker 1 (fun _ => {}) { taskBuildFuncs } "node"

theorem init_oneBucket (funcs : List (Int → List String → Option (List Nat))) :
    rounds.init (oneBucket funcs) := ⟨⟨1, _, _, "node", rfl⟩, rfl, rfl⟩

/-- A round with one batch begins, and builds some tasks. -/
def oneBatch (tasks : List (Queued Nat)) : List RoundWorkerEvent :=
  [.syncPartitions oneMap, .roundRun ["node"] ⟨["ip"], 1, Nat.le_refl 1⟩ (tasks.map (0, ·))]

/-- The partition of the node when its batch is counted. -/
def onePartitionDone : Partition := { onePartition with roundDone := true, finBatchCount := 1 }

/-- What is seen of a worker: its goroutines, and what it has finished. -/
structure Seen where
  tasks : List (Queued Nat)
  execs : List Exec
  finished : List (Queued Nat)
  deriving DecidableEq

/-- What is seen when the `batchDoneTask` of goroutine 1 has counted its batch. -/
def seenAfter (s : RoundWorker) : Option Seen :=
  (rounds.step s (.worker (.batchDone 1))).map fun s' =>
    ⟨s'.tasks, s'.worker.execs, s'.worker.finished⟩

theorem seenAfter_eq_some {seen : Seen} (h : seenAfter s = some seen) :
    ∃ s', rounds.step s (.worker (.batchDone 1)) = some s' ∧ s'.tasks = seen.tasks ∧
      s'.worker.execs = seen.execs ∧ s'.worker.finished = seen.finished := by
  obtain ⟨s', hs, rfl⟩ := Option.map_eq_some_iff.1 h
  exact ⟨s', hs, rfl, rfl, rfl⟩

/-- The `batchDoneTask` is put when the only task of the round is finished. -/
theorem roundDone_finished_after_task :
    ∃ s s' p, rounds.ReachableWhen Orderly s ∧ rounds.step s (.worker (.batchDone 1)) = some s' ∧
      s'.worker.execs[1]? = some (.ending p) ∧ s'.tasks = [.built 0, .batchDone 0] ∧
      s'.AllFinished := by
  have hrun : ((rounds.restrict Orderly).run (oneBucket [fun _ _ => some [0]])
      (oneBatch [.built 0, .batchDone 0] ++ [.put 0 0, .worker (.finish 0 .ok), .put 0 1])).map
        seenAfter =
      some (some ⟨[.built 0, .batchDone 0], [.select, .ending onePartitionDone],
        [.built 0, .batchDone 0]⟩) := by decide
  obtain ⟨s, hreach, hafter⟩ := Machine.observedWhen_of_run hrun (init_oneBucket _)
  obtain ⟨s', hs, htasks, hexecs, -⟩ := seenAfter_eq_some hafter
  have hending : s'.worker.execs[1]? = some (.ending onePartitionDone) := by
    rw [hexecs]
    rfl
  exact ⟨s, s', onePartitionDone, hreach, hs, hending, htasks,
    (roundDone_finished hreach hs hending).2.2⟩

/-- The sibling takes the `batchDoneTask` while the only task of the round is still run. -/
theorem roundDone_before_finished :
    ∃ s s' p, rounds.Reachable s ∧ rounds.step s (.worker (.batchDone 1)) = some s' ∧
      s'.worker.execs = [.running (.built 0), .ending p] ∧ p.roundDone = true ∧
      ¬ s'.AllFinished := by
  have hrun : (rounds.run (oneBucket [fun _ _ => some [0]])
      (oneBatch [.built 0, .batchDone 0] ++ [.put 0 0, .put 0 1])).map seenAfter =
      some (some ⟨[.built 0, .batchDone 0], [.running (.built 0), .ending onePartitionDone],
        [.batchDone 0]⟩) := by decide
  obtain ⟨s, hreach, hafter⟩ := Machine.observed_of_run hrun (init_oneBucket _)
  obtain ⟨s', hs, htasks, hexecs, hfinished⟩ := seenAfter_eq_some hafter
  refine ⟨s, s', onePartitionDone, hreach, hs, hexecs, rfl, fun hall => ?_⟩
  have hcount := hall 0
  rw [hfinished, htasks] at hcount
  exact absurd hcount (by decide)

/-- With two build functions, `RoundDone` is set before the tasks of the second are put. -/
theorem roundDone_before_put :
    ∃ s s' p, rounds.Reachable s ∧ rounds.step s (.worker (.batchDone 1)) = some s' ∧
      s'.worker.execs = [.select, .ending p] ∧ p.roundDone = true ∧ ¬ s'.AllFinished := by
  have hrun : (rounds.run (oneBucket [fun _ _ => some [0], fun _ _ => some [1]])
      (oneBatch [.built 0, .batchDone 0, .built 1, .batchDone 0] ++
        [.put 0 0, .worker (.finish 0 .ok), .put 0 1])).map seenAfter =
      some (some ⟨[.built 0, .batchDone 0, .built 1, .batchDone 0],
        [.select, .ending onePartitionDone], [.built 0, .batchDone 0]⟩) := by decide
  obtain ⟨s, hreach, hafter⟩ := Machine.observed_of_run hrun (init_oneBucket _)
  obtain ⟨s', hs, htasks, hexecs, hfinished⟩ := seenAfter_eq_some hafter
  refine ⟨s, s', onePartitionDone, hreach, hs, hexecs, rfl, fun hall => ?_⟩
  have hcount := hall 1
  rw [hfinished, htasks] at hcount
  exact absurd hcount (by decide)

end RoundWorker

end OwnX.Task
