import OwnX.Task.Worker
import OwnX.Foundations.Proofs.MachineProofs

/-!
# Goroutines of the worker that send

Two goroutines of a bucket that both send are stuck for ever, since nobody else receives from the
bucket. They do not get there if tasks that may come to send are kept apart when they are put.
-/

namespace OwnX.Task

namespace Worker

variable {w w' : Worker} {e : WorkerEvent}

/-- The steps, one by one. -/
inductive Moves (w : Worker) : WorkerEvent → Worker → Prop where
  | put (id : Int) (t : Queued Nat) (k : Nat) (hk : w.execs[k]? = some .select) :
    Moves w (.put id t k) (w.setExec k (.running t))
  | requeue (k t : Nat) (hk : w.execs[k]? = some (.requeue t))
      (hsibling : w.execs[sibling k]? = some .select) :
    Moves w (.requeue k) ((w.setExec k .select).setExec (sibling k) (.running (.built t)))
  | finish (k t : Nat) (r : TaskResult) (after : Exec) (hk : w.execs[k]? = some (.running (.built t)))
      (hafter : after = .select ∨ after = .stopped) :
    Moves w (.finish k r) (w.finishAs k (.built t) after)
  | retry (k t : Nat) (hk : w.execs[k]? = some (.running (.built t))) (ht : (w.task t).retries) :
    Moves w (.finish k .err)
      { w.setExec k (.requeue t) with
        task := Function.update w.task t { w.task t with retryTimes := (w.task t).retryTimes + 1 } }
  | batchDone (k index : Nat) (hk : w.execs[k]? = some (.running (.batchDone index))) :
    Moves w (.batchDone k) (w.batchDone k (.batchDone index))
  | conclude (k : Nat) (p : Partition) (aliveNodeNames : List String)
      (hk : w.execs[k]? = some (.ending p)) :
    Moves w (.conclude k aliveNodeNames) (w.conclude k p aliveNodeNames)
  | roundDone (k : Nat) (round : Int) (accepted : Bool) (hk : w.execs[k]? = some (.roundDone round)) :
    Moves w (.roundDone k accepted)
      (w.setExec k (if accepted then .sendName round else .cancelTimeout round))
  | nameReceived (k : Nat) (round : Int) (hk : w.execs[k]? = some (.sendName round)) :
    Moves w (.nameReceived k) (w.setExec k (.cancelTimeout round))
  | syncPartitions (np : Partitions) :
    Moves w (.syncPartitions np) { w with allocator := { w.allocator with nodePartition := np } }
  | syncPartitionDone (pt : Partition) :
    Moves w (.syncPartitionDone pt)
      { w with allocator := (w.allocator.syncPartitionDone (.partition pt)).allocator }
  | done (k : Nat) (hk : w.execs[k]? = some .select) : Moves w (.done k) (w.setExec k .stopped)

theorem moves_of_step (hs : w.step e = some w') : w.Moves e w' := by
  cases e with
  | put id t k =>
    obtain ⟨h, hw'⟩ := Option.ite_none_right_eq_some.1 hs
    obtain rfl := Option.some.inj hw'
    exact .put id t k h.2
  | requeue k =>
    unfold step at hs
    dsimp only at hs
    split at hs
    · next t hk =>
      obtain ⟨hsibling, hw'⟩ := Option.ite_none_right_eq_some.1 hs
      obtain rfl := Option.some.inj hw'
      exact .requeue k t hk hsibling
    · simp at hs
  | finish k r =>
    unfold step at hs
    dsimp only at hs
    split at hs
    · next t hk =>
      obtain rfl := Option.some.inj hs
      cases r with
      | ok => exact .finish k t .ok .select hk (.inl rfl)
      | panic => exact .finish k t .panic .stopped hk (.inr rfl)
      | err =>
        unfold finish
        dsimp only
        split
        · next ht => exact .retry k t hk ht
        · exact .finish k t .err .select hk (.inl rfl)
    · simp at hs
  | batchDone k =>
    unfold step at hs
    dsimp only at hs
    split at hs
    · next index hk =>
      obtain rfl := Option.some.inj hs
      exact .batchDone k index hk
    · simp at hs
  | conclude k aliveNodeNames =>
    unfold step at hs
    dsimp only at hs
    split at hs
    · next p hk =>
      obtain rfl := Option.some.inj hs
      exact .conclude k p aliveNodeNames hk
    · simp at hs
  | roundDone k accepted =>
    unfold step at hs
    dsimp only at hs
    split at hs
    · next round hk =>
      obtain rfl := Option.some.inj hs
      exact .roundDone k round accepted hk
    · simp at hs
  | nameReceived k =>
    unfold step at hs
    dsimp only at hs
    split at hs
    · next round hk =>
      obtain rfl := Option.some.inj hs
      exact .nameReceived k round hk
    · simp at hs
  | syncPartitions np =>
    obtain rfl := Option.some.inj hs
    exact .syncPartitions np
  | syncPartitionDone pt =>
    obtain rfl := Option.some.inj hs
    exact .syncPartitionDone pt
  | done k =>
    obtain ⟨h, hw'⟩ := Option.ite_none_right_eq_some.1 hs
    obtain rfl := Option.some.inj hw'
    exact .done k h

theorem sibling_ne (k : Nat) : sibling k ≠ k := by
  unfold sibling
  split <;> omega

theorem sibling_sibling (k : Nat) : sibling (sibling k) = k := by
  unfold sibling
  split <;> split <;> omega

theorem sibling_bucket {i k : Nat} (h : k = 2 * i ∨ k = 2 * i + 1) :
    sibling k = 2 * i ∨ sibling k = 2 * i + 1 := by
  unfold sibling
  split <;> omega

theorem getElem?_setExec_of_ne {k j : Nat} (h : j ≠ k) (after : Exec) :
    (w.setExec k after).execs[j]? = w.execs[j]? :=
  List.getElem?_set_ne (Ne.symm h)

theorem getElem?_setExec_self {k : Nat} {before : Exec} (h : w.execs[k]? = some before)
    (after : Exec) : (w.setExec k after).execs[k]? = some after := by
  obtain ⟨hlt, -⟩ := List.getElem?_eq_some_iff.1 h
  exact List.getElem?_set_self hlt

/-! ## Both goroutines of a bucket -/

/-- Both goroutines of bucket `i` are as `P` says. -/
def Both (P : Exec → Bool) (execs : List Exec) (i : Nat) : Prop :=
  ∀ k, k = 2 * i ∨ k = 2 * i + 1 → execs[k]?.any P = true

theorem stuck_iff {i : Nat} : w.Stuck i ↔ Both Exec.sends w.execs i := by
  constructor
  · rintro ⟨h0, h1⟩ k (rfl | rfl)
    · exact h0
    · exact h1
  · intro h
    exact ⟨h _ (.inl rfl), h _ (.inr rfl)⟩

theorem Both.imp {P Q : Exec → Bool} {execs : List Exec} {i : Nat}
    (hPQ : ∀ x, P x = true → Q x = true) (h : Both P execs i) : Both Q execs i := by
  intro k hk
  have hP := h k hk
  cases hx : execs[k]? with
  | none =>
    rw [hx] at hP
    exact Bool.noConfusion hP
  | some x =>
    rw [hx] at hP
    exact hPQ x hP

/-- A change of one goroutine makes both of its bucket as `P` says only if it makes that one so, beside
a sibling that is so already. -/
theorem Both.of_setExec {P : Exec → Bool} {i k : Nat} {before after : Exec}
    (hk : w.execs[k]? = some before)
    (hafter : P after = true → P before = true ∨ w.execs[sibling k]?.any P = false)
    (h : Both P (w.setExec k after).execs i) : Both P w.execs i := by
  intro j hj
  have hPj := h j hj
  by_cases hjk : j = k
  · subst hjk
    rw [getElem?_setExec_self hk after] at hPj
    rcases hafter hPj with hbefore | hsibling
    · rw [hk]
      exact hbefore
    · have hPs := h (sibling j) (sibling_bucket hj)
      rw [getElem?_setExec_of_ne (sibling_ne j), hsibling] at hPs
      exact Bool.noConfusion hPs
  · rwa [getElem?_setExec_of_ne hjk] at hPj

/-- A goroutine that moves is not in a bucket whose goroutines both send. -/
theorem Both.setExec {P : Exec → Bool} {i k : Nat} (h : Both P w.execs i)
    (hk : w.execs[k]?.any P = false ∨ w.execs[sibling k]?.any P = false) (after : Exec) :
    Both P (w.setExec k after).execs i := by
  intro j hj
  have hne : j ≠ k := by
    rintro rfl
    rcases hk with hself | hsibling
    · rw [h j hj] at hself
      exact Bool.noConfusion hself
    · rw [h _ (sibling_bucket hj)] at hsibling
      exact Bool.noConfusion hsibling
  rw [getElem?_setExec_of_ne hne]
  exact h j hj

/-! ## Goroutines that send -/

theorem maySend_of_sends {x : Exec} (h : x.sends = true) : w.maySend x = true := by
  cases x with
  | requeue _ | sendName _ | cancelTimeout _ => rfl
  | _ => exact Bool.noConfusion h

/-- A failed task may be tried at most as often as before. -/
theorem retries_of_update {task : Nat → TaskInfo} {t u : Nat}
    (h : (Function.update task t { task t with retryTimes := (task t).retryTimes + 1 } u).retries) :
    (task u).retries := by
  by_cases hu : u = t
  · subst hu
    rw [Function.update_self] at h
    simp only [TaskInfo.retries, Bool.and_eq_true, decide_eq_true_eq] at h ⊢
    exact ⟨h.1, by omega⟩
  · rwa [Function.update_of_ne hu] at h

/-- The step keeps the goroutines of a bucket from both handling tasks that may come to send. -/
theorem both_maySend_of_step {i : Nat} (hapart : w.PutApart e) (hs : w.step e = some w')
    (h : Both w'.maySend w'.execs i) : Both w.maySend w.execs i := by
  cases moves_of_step hs with
  | put id t k hk => exact h.of_setExec hk fun ht => .inr (hapart ht)
  | requeue k t hk hsibling =>
    have hsibling' : (w.setExec k .select).execs[sibling k]? = some .select := by
      rw [getElem?_setExec_of_ne (sibling_ne k), hsibling]
    -- The goroutine that has sent is back in its select when the sibling runs the task.
    have hk' : (w.setExec k .select).execs[sibling (sibling k)]?.any w.maySend = false := by
      rw [sibling_sibling, getElem?_setExec_self hk]
      rfl
    have hfirst : Both w.maySend (w.setExec k .select).execs i :=
      Both.of_setExec hsibling' (fun _ => .inr hk') h
    exact hfirst.of_setExec hk fun hselect => Bool.noConfusion hselect
  | finish k t r after hk hafter =>
    refine Both.of_setExec hk (fun hP => ?_) h
    rcases hafter with rfl | rfl <;> exact Bool.noConfusion hP
  | retry k t hk ht =>
    have hbefore : Both w.maySend (w.setExec k (.requeue t)).execs i := by
      refine h.imp fun x hx => ?_
      match x with
      | .running (.built u) => exact retries_of_update hx
      | .running (.batchDone _) | .requeue _ | .ending _ | .roundDone _ | .sendName _
      | .cancelTimeout _ => rfl
      | .select | .stopped => exact Bool.noConfusion hx
    exact hbefore.of_setExec hk fun _ => .inl ht
  | batchDone k index hk => exact Both.of_setExec (w := w) hk (fun _ => .inl rfl) h
  | conclude k p aliveNodeNames hk => exact h.of_setExec hk fun _ => .inl rfl
  | roundDone k round accepted hk => exact h.of_setExec hk fun _ => .inl rfl
  | nameReceived k round hk => exact h.of_setExec hk fun _ => .inl rfl
  | syncPartitions np => exact h
  | syncPartitionDone pt => exact h
  | done k hk => exact h.of_setExec hk fun hP => Bool.noConfusion hP

/-- A bucket that is stuck stays so, whatever happens. -/
theorem Stuck.step {i : Nat} (h : w.Stuck i) (hs : w.step e = some w') : w'.Stuck i := by
  rw [stuck_iff] at h ⊢
  have hsends : ∀ {k : Nat} {x : Exec}, w.execs[k]? = some x → x.sends = false →
      w.execs[k]?.any Exec.sends = false := by
    intro k x hk hx
    rw [hk]
    exact hx
  cases moves_of_step hs with
  | put id t k hk => exact h.setExec (.inl (hsends hk rfl)) _
  | requeue k t hk hsibling =>
    have hfirst : Both Exec.sends (w.setExec k .select).execs i :=
      h.setExec (.inr (hsends hsibling rfl)) _
    refine hfirst.setExec (.inl ?_) _
    rw [getElem?_setExec_of_ne (sibling_ne k)]
    exact hsends hsibling rfl
  | finish k t r after hk hafter => exact h.setExec (.inl (hsends hk rfl)) _
  | retry k t hk ht => exact h.setExec (.inl (hsends hk rfl)) _
  | batchDone k index hk => exact h.setExec (.inl (hsends hk rfl)) _
  | conclude k p aliveNodeNames hk => exact h.setExec (.inl (hsends hk rfl)) _
  | roundDone k round accepted hk => exact h.setExec (.inl (hsends hk rfl)) _
  | nameReceived k round hk =>
    -- The scheduler takes the name, and the goroutine goes on to the send that never ends.
    intro j hj
    by_cases hjk : j = k
    · subst hjk
      rw [getElem?_setExec_self hk]
      rfl
    · rw [getElem?_setExec_of_ne hjk]
      exact h j hj
  | syncPartitions np => exact h
  | syncPartitionDone pt => exact h
  | done k hk => exact h.setExec (.inl (hsends hk rfl)) _

/-- Two goroutines of a bucket that both send do so for ever: only they receive from the bucket. -/
theorem stuck_forever {i : Nat} (h : w.Stuck i) (hreach : (workers.startIn w).Reachable w') :
    w'.Stuck i := by
  refine hreach.invariant (·.Stuck i) ?_ ?_
  · rintro _ rfl
    exact h
  · intro v e v' _ hstuck _ hs
    exact hstuck.step hs

/-- In a new worker every goroutine is in its select. -/
theorem eq_select_of_newWorker {parallelism : Int} {task : Nat → TaskInfo} {allocator : Allocator Nat}
    {myName : String} {x : Exec} (h : x ∈ (newWorker parallelism task allocator myName).execs) :
    x = .select := List.eq_of_mem_replicate h

/-- If a task that may come to send is put only beside a goroutine without such a task, no two
goroutines of a bucket are ever both blocked in a send of their own. -/
theorem workers_not_stuck (h : workers.ReachableWhen PutApart w) (i : Nat) : ¬ w.Stuck i := by
  have hapart : ¬ Both w.maySend w.execs i := by
    refine h.invariant (fun w => ¬ Both w.maySend w.execs i) ?_ ?_
    · rintro _ ⟨parallelism, task, allocator, myName, rfl⟩ hboth
      have hfirst := hboth (2 * i) (.inl rfl)
      obtain ⟨x, hx, hmay⟩ := (Option.any_eq_true _ _).1 hfirst
      rw [eq_select_of_newWorker (List.mem_of_getElem? hx)] at hmay
      exact Bool.noConfusion hmay
    · intro v e v' _ hnot hok hs hboth
      exact hnot (both_maySend_of_step hok hs hboth)
  intro hstuck
  exact hapart ((stuck_iff.1 hstuck).imp fun _ => maySend_of_sends)

/-- A worker with one bucket whose tasks may be tried once more. -/
def retrying : Worker :=
  newWorker 1 (fun _ => { needRetry := true, retryTimes := 0, retryLimit := 1 }) {} "node"

theorem init_retrying : workers.init retrying := ⟨1, _, {}, "node", rfl⟩

theorem workers_not_stuck_resent :
    ∃ w, workers.ReachableWhen PutApart w ∧ w.sends 0 = true ∧ ∀ i, ¬ w.Stuck i := by
  have hrun : ((workers.restrict PutApart).run retrying
      [.put 0 (.built 0) 0, .finish 0 .err]).map (·.sends 0) = some true := by decide
  obtain ⟨w, hreach, hsends⟩ := Machine.observedWhen_of_run hrun init_retrying
  exact ⟨w, hreach, hsends, workers_not_stuck hreach⟩

/-- Two tasks fail on the two goroutines of a bucket, and each waits for the other to receive. -/
theorem workers_stuck :
    ∃ w, workers.Reachable w ∧ ∀ w', (workers.startIn w).Reachable w' → w'.Stuck 0 := by
  have hrun : (workers.run retrying [.put 0 (.built 0) 0, .put 0 (.built 1) 1, .finish 0 .err,
      .finish 1 .err]).map (fun w => (w.sends 0, w.sends 1)) = some (true, true) := by decide
  obtain ⟨w, hreach, hsends⟩ := Machine.observed_of_run hrun init_retrying
  have hstuck : w.Stuck 0 := ⟨(Prod.mk.inj hsends).1, (Prod.mk.inj hsends).2⟩
  exact ⟨w, hreach, fun w' hw' => stuck_forever hstuck hw'⟩

end Worker

end OwnX.Task
