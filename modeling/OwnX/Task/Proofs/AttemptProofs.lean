import OwnX.Task.Proofs.RoundWorkerProofs

/-!
# The attempts at a task

A task that is put once has one place in the worker: a goroutine runs it or sends it back, or it is
finished. Every further attempt is paid for with its `RetryTimes`, which do not pass the limit.
-/

namespace OwnX.Task

namespace Worker

variable {w w' : Worker} {e : WorkerEvent}

/-! ## One step -/

/-- The goroutines that send the task `t` back. -/
def requeued (w : Worker) (t : Nat) : Nat := w.execs.countP fun x => decide (x = .requeue t)

theorem requeued_setExec {k : Nat} {before : Exec} (hk : w.execs[k]? = some before) (after : Exec)
    (t : Nat) :
    (w.setExec k after).requeued t + (if before = .requeue t then 1 else 0) =
      w.requeued t + if after = .requeue t then 1 else 0 := by
  have hset := countP_set_add hk after fun x => decide (x = .requeue t)
  simp only [toNat_eq_ite, decide_eq_true_eq] at hset
  exact hset

theorem requeued_setExec_of_ne {k : Nat} {before : Exec} (hk : w.execs[k]? = some before)
    (after : Exec) {t : Nat} (hbefore : before ≠ .requeue t) (hafter : after ≠ .requeue t) :
    (w.setExec k after).requeued t = w.requeued t := by
  have hset := requeued_setExec hk after t
  rwa [if_neg hbefore, if_neg hafter] at hset

/-- An attempt is made for a task that is put, or for one that is sent back with one more of its
`RetryTimes`. -/
theorem attempts_of_step (hs : w.step e = some w') (t : Nat) :
    ((w.attempts e).count (.start t) : Int) + w'.requeued t + (w.task t).retryTimes =
      w.requeued t + (w'.task t).retryTimes + e.taken.count (.built t) := by
  -- the steps that concern no attempt
  have hquiet : ∀ {e : WorkerEvent}, w.attempts e = [] → e.taken = [] → w'.requeued t = w.requeued t →
      w'.task = w.task → ((w.attempts e).count (.start t) : Int) + w'.requeued t +
        (w.task t).retryTimes = w.requeued t + (w'.task t).retryTimes + e.taken.count (.built t) := by
    intro e hnone htaken hsame htask
    rw [hnone, htaken, hsame, htask, List.count_nil, List.count_nil]
    omega
  cases moves_of_step hs with
  | put id u k hk =>
    have hsame : (w.setExec k (.running u)).requeued t = w.requeued t :=
      requeued_setExec_of_ne hk _ (by simp) (by simp)
    have htask : (w.setExec k (.running u)).task = w.task := rfl
    rw [hsame, htask]
    cases u with
    | built u =>
      simp only [attempts, WorkerEvent.taken, List.count_singleton, beq_iff_eq, Attempt.start.injEq,
        Queued.built.injEq]
      split_ifs <;> omega
    | batchDone index => simp [attempts, WorkerEvent.taken]
  | requeue k u hk hsibling =>
    have hsibling' : (w.setExec k .select).execs[sibling k]? = some .select := by
      rw [getElem?_setExec_of_ne (sibling_ne k), hsibling]
    have hfirst := requeued_setExec hk .select t
    have hsecond : ((w.setExec k .select).setExec (sibling k) (.running (.built u))).requeued t =
        (w.setExec k .select).requeued t :=
      requeued_setExec_of_ne hsibling' _ (by simp) (by simp)
    have htask : ((w.setExec k .select).setExec (sibling k) (.running (.built u))).task = w.task := rfl
    rw [hsecond, htask]
    simp only [Exec.requeue.injEq, reduceCtorEq, if_false] at hfirst
    simp only [attempts, hk, WorkerEvent.taken, List.count_nil, List.count_singleton, beq_iff_eq,
      Attempt.start.injEq]
    omega
  | finish k u r after hk hafter =>
    have hsame : (w.setExec k after).requeued t = w.requeued t := by
      refine requeued_setExec_of_ne hk _ (by simp) ?_
      rcases hafter with rfl | rfl <;> simp
    have hcount : (w.attempts (.finish k r)).count (.start t) = 0 := by
      simp [attempts, hk]
    rw [hcount]
    show ((0 : Nat) : Int) + (w.setExec k after).requeued t + _ = _ + (w.task t).retryTimes + _
    rw [hsame]
    simp only [WorkerEvent.taken, List.count_nil]
    omega
  | retry k u hk ht =>
    have hset := requeued_setExec hk (.requeue u) t
    have hcount : (w.attempts (.finish k .err)).count (.start t) = 0 := by
      simp [attempts, hk]
    simp only [Exec.requeue.injEq, reduceCtorEq, if_false] at hset
    rw [hcount]
    show ((0 : Nat) : Int) + (w.setExec k (.requeue u)).requeued t + _ = _ +
      (Function.update w.task u { w.task u with retryTimes := (w.task u).retryTimes + 1 } t).retryTimes + _
    simp only [WorkerEvent.taken, List.count_nil]
    by_cases hu : t = u
    · subst hu
      rw [if_pos rfl] at hset
      rw [Function.update_self]
      simp only
      omega
    · rw [if_neg (Ne.symm hu)] at hset
      rw [Function.update_of_ne hu]
      omega
  | batchDone k index hk =>
    refine hquiet rfl rfl ?_ rfl
    refine requeued_setExec_of_ne (w := w) hk _ (by simp) ?_
    split <;> simp
  | conclude k p aliveNodeNames hk =>
    refine hquiet rfl rfl (requeued_setExec_of_ne hk _ (by simp) ?_) rfl
    split <;> simp
  | roundDone k round accepted hk =>
    refine hquiet rfl rfl (requeued_setExec_of_ne hk _ (by simp) ?_) rfl
    split <;> simp
  | nameReceived k round hk =>
    exact hquiet rfl rfl (requeued_setExec_of_ne hk _ (by simp) (by simp)) rfl
  | syncPartitions np => exact hquiet rfl rfl rfl rfl
  | syncPartitionDone pt => exact hquiet rfl rfl rfl rfl
  | done k hk => exact hquiet rfl rfl (requeued_setExec_of_ne hk _ (by simp) (by simp)) rfl

/-- A failed task is counted as long as it may be tried again. -/
theorem task_of_step (hs : w.step e = some w') (t : Nat) :
    (w'.task t).needRetry = (w.task t).needRetry ∧ (w'.task t).retryLimit = (w.task t).retryLimit ∧
      ((w'.task t).retryTimes = (w.task t).retryTimes ∨
        (w.task t).needRetry = true ∧ (w'.task t).retryTimes ≤ (w.task t).retryLimit) := by
  cases moves_of_step hs with
  | retry k u hk ht =>
    show (Function.update w.task u { w.task u with retryTimes := (w.task u).retryTimes + 1 } t).needRetry =
        _ ∧ (Function.update w.task u _ t).retryLimit = _ ∧
      ((Function.update w.task u _ t).retryTimes = _ ∨ _ ∧ (Function.update w.task u _ t).retryTimes ≤ _)
    by_cases hu : t = u
    · subst hu
      simp only [TaskInfo.retries, Bool.and_eq_true, decide_eq_true_eq] at ht
      rw [Function.update_self]
      exact ⟨rfl, rfl, Or.inr ⟨ht.1, by simp only; omega⟩⟩
    · rw [Function.update_of_ne hu]
      exact ⟨rfl, rfl, Or.inl rfl⟩
  | _ => exact ⟨rfl, rfl, Or.inl rfl⟩

/-- What is finished stays so, and a task that has returned nil is. -/
theorem finished_of_step (hs : w.step e = some w') :
    (∀ t ∈ w.finished, t ∈ w'.finished) ∧
      ∀ t, .result t .ok ∈ w.attempts e → .built t ∈ w'.finished := by
  cases moves_of_step hs with
  | put id u k hk =>
    refine ⟨fun t ht => ht, fun t ht => ?_⟩
    cases u <;> simp [attempts] at ht
  | requeue k u hk hsibling =>
    refine ⟨fun t ht => ht, fun t ht => ?_⟩
    simp [attempts, hk] at ht
  | finish k u r after hk hafter =>
    refine ⟨fun t ht => List.mem_append_left _ ht, fun t ht => List.mem_append_right _ ?_⟩
    simp only [attempts, hk, List.mem_singleton, Attempt.result.injEq] at ht
    rw [ht.1]
    exact List.mem_singleton_self _
  | retry k u hk ht =>
    refine ⟨fun t ht => ht, fun t ht => ?_⟩
    simp [attempts, hk] at ht
  | batchDone k index hk =>
    refine ⟨fun t ht => List.mem_append_left _ ht, fun t ht => ?_⟩
    simp [attempts] at ht
  | _ =>
    refine ⟨fun t ht => ht, fun t ht => ?_⟩
    simp [attempts] at ht

/-- A task is with a goroutine after an attempt has begun. -/
theorem running_of_step (hs : w.step e = some w') {t : Nat} (h : .start t ∈ w.attempts e) :
    Exec.running (.built t) ∈ w'.execs := by
  cases moves_of_step hs with
  | put id u k hk =>
    cases u with
    | built u =>
      simp only [attempts, List.mem_singleton, Attempt.start.injEq] at h
      subst h
      exact List.mem_of_getElem? (getElem?_setExec_self hk _)
    | batchDone index => simp [attempts] at h
  | requeue k u hk hsibling =>
    simp only [attempts, hk, List.mem_singleton, Attempt.start.injEq] at h
    subst h
    have hsibling' : (w.setExec k .select).execs[sibling k]? = some .select := by
      rw [getElem?_setExec_of_ne (sibling_ne k), hsibling]
    exact List.mem_of_getElem? (getElem?_setExec_self hsibling' _)
  | finish k u r after hk hafter => simp [attempts, hk] at h
  | retry k u hk ht => simp [attempts, hk] at h
  | _ => simp [attempts] at h

end Worker

/-! ## Runs -/

namespace TaskHistory

variable {s s' : TaskHistory} {e : WorkerEvent} {t : Nat}

/-- What the history says of the built task `t`. -/
structure Tracks (s : TaskHistory) (t : Nat) : Prop where
  /-- The task is with a goroutine or finished once it is put. -/
  carried : s.worker.carried (· == .built t) = s.taken.count (.built t)
  /-- It is put at most once. -/
  once : s.taken.count (.built t) ≤ 1
  needRetry : (s.worker.task t).needRetry = (s.initial t).needRetry
  retryLimit : (s.worker.task t).retryLimit = (s.initial t).retryLimit
  /-- The `RetryTimes` rise to the limit, if the task is tried again at all. -/
  retryTimes : (s.worker.task t).retryTimes = (s.initial t).retryTimes ∨
    (s.initial t).needRetry = true ∧ (s.worker.task t).retryTimes ≤ (s.initial t).retryLimit
  /-- An attempt for the `Put`, and one for each of the `RetryTimes` that is not still to come. -/
  starts : (s.log.count (.start t) : Int) + s.worker.requeued t + (s.initial t).retryTimes =
    (s.worker.task t).retryTimes + s.taken.count (.built t)
  /-- A task that has returned nil is finished. -/
  finished : .result t .ok ∈ s.log → .built t ∈ s.worker.finished
  /-- No attempt begins after one that returned nil. -/
  last : ∀ i j : Nat, s.log[i]? = some (.result t .ok) → s.log[j]? = some (.start t) → j < i

theorem tracks_init (h : histories.init s) (t : Nat) : s.Tracks t := by
  obtain ⟨⟨parallelism, task, allocator, myName, hw⟩, hs⟩ := h
  have hselect : ∀ x ∈ s.worker.execs, x = .select := by
    intro x hx
    rw [hw] at hx
    exact Worker.eq_select_of_newWorker hx
  have hfinished : s.worker.finished = [] := by rw [hw]; rfl
  have htaken : s.taken = [] := by rw [hs]
  have hlog : s.log = [] := by rw [hs]
  have hinitial : s.initial = s.worker.task := by rw [hs]
  have hheld : s.worker.carried (· == .built t) = 0 := by
    unfold Worker.carried
    rw [hfinished, List.countP_nil, Nat.add_zero]
    refine List.countP_eq_zero.mpr fun x hx => ?_
    rw [hselect x hx]
    exact Bool.false_ne_true
  have hrequeued : s.worker.requeued t = 0 := by
    refine List.countP_eq_zero.mpr fun x hx => ?_
    rw [hselect x hx]
    simp
  constructor
  case carried => rw [hheld, htaken]; rfl
  case once => simp [htaken]
  case needRetry => rw [hinitial]
  case retryLimit => rw [hinitial]
  case retryTimes => exact Or.inl (by rw [hinitial])
  case starts => simp [hlog, hrequeued, htaken, hinitial]
  case finished => simp [hlog]
  case last => simp [hlog]

/-- A task that is put once is not finished while a goroutine has it. -/
theorem not_finished_of_held {w : Worker} {x : Exec} (hone : w.carried (· == .built t) ≤ 1)
    (hx : x ∈ w.execs) (hheld : x.held = some (.built t)) : .built t ∉ w.finished := by
  intro hmem
  have hexec : 0 < w.execs.countP fun x => x.held.any (· == .built t) :=
    List.countP_pos_iff.mpr ⟨x, hx, by simp [hheld]⟩
  have hfin : 0 < w.finished.countP (· == .built t) :=
    List.countP_pos_iff.mpr ⟨_, hmem, by simp⟩
  unfold Worker.carried at hone
  omega

theorem PutOnce.count_le (h : s.PutOnce e) (honce : s.taken.count (.built t) ≤ 1) :
    (s.taken ++ e.taken).count (.built t) ≤ 1 := by
  rw [List.count_append]
  cases e with
  | put id u k =>
    cases u with
    | built u =>
      by_cases hu : u = t
      · subst hu
        have hnone : s.taken.count (.built u) = 0 := List.count_eq_zero.mpr h
        simp [WorkerEvent.taken, hnone]
      · simpa [WorkerEvent.taken, hu] using honce
    | batchDone index => simpa [WorkerEvent.taken] using honce
  | _ => simpa [WorkerEvent.taken] using honce

theorem Tracks.step (h : s.Tracks t) (hok : s.PutOnce e) (hs : s.step e = some s') : s'.Tracks t := by
  obtain ⟨w', hw, rfl⟩ := Option.map_eq_some_iff.mp hs
  have hattempts := Worker.attempts_of_step hw t
  obtain ⟨hneed, hlimit, htimes⟩ := Worker.task_of_step hw t
  obtain ⟨hkept, hnil⟩ := Worker.finished_of_step hw
  have honce := hok.count_le h.once
  have hcarried : w'.carried (· == .built t) = (s.taken ++ e.taken).count (.built t) := by
    rw [Worker.carried_of_step hw, h.carried, List.count_append]
    rfl
  have hfinished : .result t .ok ∈ s.log ++ s.worker.attempts e → .built t ∈ w'.finished := by
    intro hmem
    rcases List.mem_append.mp hmem with hold | hnew
    · exact hkept _ (h.finished hold)
    · exact hnil t hnew
  constructor
  case carried => exact hcarried
  case once => exact honce
  case needRetry => exact hneed.trans h.needRetry
  case retryLimit => exact hlimit.trans h.retryLimit
  case retryTimes =>
    rcases htimes with hsame | ⟨hretry, hle⟩
    · rw [hsame]
      exact h.retryTimes
    · refine Or.inr ⟨h.needRetry.symm.trans hretry, ?_⟩
      rw [← h.retryLimit]
      exact hle
  case starts =>
    have hstarts := h.starts
    simp only [List.count_append]
    omega
  case finished => exact hfinished
  case last =>
    intro i j hi hj
    by_cases hnew : j < s.log.length
    · rw [List.getElem?_append_left hnew] at hj
      by_cases hold : i < s.log.length
      · rw [List.getElem?_append_left hold] at hi
        exact h.last i j hi hj
      · omega
    · -- the new attempt is at a task that is with a goroutine, so it has not returned nil
      rw [List.getElem?_append_right (Nat.not_lt.mp hnew)] at hj
      have hrun := Worker.running_of_step hw (List.mem_of_getElem? hj)
      exact absurd (hfinished (List.mem_of_getElem? hi))
        (not_finished_of_held (hcarried.trans_le honce) hrun rfl)

theorem tracks_reachable (h : histories.ReachableWhen PutOnce s) (t : Nat) : s.Tracks t :=
  h.invariant (·.Tracks t) (fun _ hs => tracks_init hs t) fun _ _ _ _ ht hok hs => ht.step hok hs

/-- The goroutine `k` runs the built task `t` or sends it back. -/
def Holds (s : TaskHistory) (k t : Nat) : Prop :=
  (s.worker.execs[k]?.bind Exec.held) = some (.built t)

theorem Tracks.holds_unique (h : s.Tracks t) {j k : Nat} (hj : s.Holds j t) (hk : s.Holds k t) :
    j = k := by
  obtain ⟨x, hx, hxt⟩ := Option.bind_eq_some_iff.mp hj
  obtain ⟨y, hy, hyt⟩ := Option.bind_eq_some_iff.mp hk
  have hset := countP_set_add hx .select fun z => z.held.any (· == .built t)
  have hcarried := h.carried
  have honce := h.once
  unfold Worker.carried at hcarried
  by_contra hne
  have hother : 0 < (s.worker.execs.set j .select).countP fun z => z.held.any (· == .built t) := by
    refine List.countP_pos_iff.mpr ⟨y, ?_, by simp [hyt]⟩
    exact List.mem_of_getElem? ((List.getElem?_set_ne hne).trans hy)
  have hbefore : (x.held.any (· == .built t)).toNat = 1 := by simp [hxt]
  have hafter : (Exec.select.held.any (· == .built t)).toNat = 0 := rfl
  omega

/-- The life of a built task that is put once. At most one goroutine has it at a time, to run it or to
send it back, and none before it is put. It is tried once, and again only as often as its `RetryTimes`
may rise. After an attempt that returned nil there is no other. -/
theorem attempts_bounded (h : histories.ReachableWhen PutOnce s) (t : Nat) :
    (∀ j k, s.Holds j t → s.Holds k t → j = k) ∧
    (.built t ∉ s.taken → ∀ k, ¬ s.Holds k t) ∧
    (s.log.count (.start t) : Int) ≤ 1 +
      (if (s.initial t).needRetry then max 0 ((s.initial t).retryLimit - (s.initial t).retryTimes)
        else 0) ∧
    ∀ i j : Nat, s.log[i]? = some (.result t .ok) → s.log[j]? = some (.start t) → j < i := by
  have ht := tracks_reachable h t
  refine ⟨fun j k => ht.holds_unique, fun hnot k hk => ?_, ?_, ht.last⟩
  · obtain ⟨x, hx, hxt⟩ := Option.bind_eq_some_iff.mp hk
    have hcarried := ht.carried
    rw [List.count_eq_zero.mpr hnot] at hcarried
    have hexec : 0 < s.worker.execs.countP fun x => x.held.any (· == .built t) :=
      List.countP_pos_iff.mpr ⟨x, List.mem_of_getElem? hx, by simp [hxt]⟩
    unfold Worker.carried at hcarried
    omega
  · have hstarts := ht.starts
    have honce := ht.once
    rcases ht.retryTimes with hsame | ⟨hretry, hle⟩
    · split_ifs <;> omega
    · rw [if_pos hretry]
      omega

/-- A task that may be tried once more fails twice: it is tried twice. -/
theorem attempts_bounded_twice :
    ∃ s, histories.ReachableWhen PutOnce s ∧ s.log.count (.start 0) = 2 ∧
      ∀ j k, s.Holds j 0 → s.Holds k 0 → j = k := by
  have hrun : ((histories.restrict PutOnce).run
      { worker := Worker.retrying, initial := Worker.retrying.task }
      [.put 0 (.built 0) 0, .finish 0 .err, .requeue 0, .finish 1 .err]).map
        (fun s => s.log.count (.start 0)) = some 2 := by
    decide
  obtain ⟨s, hreach, hobs⟩ := Machine.observedWhen_of_run hrun ⟨Worker.init_retrying, rfl⟩
  exact ⟨s, hreach, hobs, (attempts_bounded hreach 0).1⟩

end TaskHistory

end OwnX.Task
