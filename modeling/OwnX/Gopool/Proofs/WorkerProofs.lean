import OwnX.Gopool.Proofs.PoolProofs

/-!
# Proofs: the workers of a pool

`workerCount` counts the workers and the callers about to start one. So a queue is never left without
a worker, and the capacity is exceeded only by calls that tested the count before others raised it.
-/

namespace OwnX.Gopool

/-- A thread that `workerCount` counts: a worker, or the caller about to start one. -/
def Thread.counted (p : Nat) : Thread → Bool
  | .worker p' _ => p' = p
  | .caller p' _ .runWorker => p' = p
  | .caller _ _ _ => false

/-- A call that has enqueued its task and has not finished its decision to start a worker. -/
def Thread.deciding (p : Nat) : Thread → Bool
  | .caller _ _ .get => false
  | .caller _ _ (.enqueue _) => false
  | .caller _ _ .runWorker => false
  | .caller p' _ _ => p' = p
  | .worker _ _ => false

/-- The invariant: `workerCount` is exact, and a non-empty queue has a worker or a deciding call. -/
structure Staffed (s : World) (p : Nat) : Prop where
  count : (s.pools p).workerCount = s.count (Thread.counted p)
  cover : (s.pools p).taskHead = none ∨
    0 < s.count (Thread.counted p) + s.count (Thread.deciding p)

theorem staffed_initial (cap scaleThreshold : Nat → Int) (p : Nat) :
    Staffed (initial cap scaleThreshold) p where
  count := rfl
  cover := Or.inl rfl

theorem ofPool_counted (p : Nat) : OfPool p (Thread.counted p) := by
  intro t ht
  unfold Thread.counted at ht
  split at ht <;> simp_all [Thread.pool]

theorem ofPool_deciding (p : Nat) : OfPool p (Thread.deciding p) := by
  intro t ht
  unfold Thread.deciding at ht
  split at ht <;> simp_all [Thread.pool]

theorem staffed_ctxGo {s s' : World} {p : Nat} {job : Job} {pick : Option Nat} {pc : CallerPc}
    (hi : Staffed (s.spawn (.caller p job pc)) p) (h : s.ctxGo p job pick pc = some s') :
    Staffed s' p := by
  obtain ⟨hcount, hcover⟩ := hi
  simp only [World.spawn_pools, World.count_spawn] at hcount hcover
  cases pc with
  | get =>
    obtain ⟨⟨s₁, t⟩, h₁, rfl⟩ := Option.map_eq_some_iff.mp h
    constructor
    · simpa [getTask_frame h₁, Thread.counted] using hcount
    · simpa [getTask_frame h₁, Thread.counted, Thread.deciding] using hcover
  | enqueue t =>
    obtain ⟨s₁, h₁, rfl⟩ := Option.map_eq_some_iff.mp h
    constructor
    · simpa [enqueue_frame h₁, Thread.counted] using hcount
    · -- the call itself is deciding from here on
      right
      simp only [World.count_spawn, Thread.deciding, decide_true, Bool.toNat_true]
      omega
  | addTaskCount | loadWorkerCount =>
    cases h
    constructor <;> simp_all [Thread.counted, Thread.deciding]
  | loadTaskCount | loadCap w =>
    simp only [World.ctxGo] at h
    split_ifs at h <;> cases h <;> constructor <;> simp_all [Thread.counted, Thread.deciding]
  | checkZero =>
    simp only [World.ctxGo] at h
    split_ifs at h with hzero
    · cases h
      constructor <;> simp_all [Thread.counted, Thread.deciding]
    · -- the call returns, and the count it read is not zero
      cases h
      simp only [Thread.counted, Bool.toNat_false, Nat.add_zero] at hcount
      exact ⟨hcount, Or.inr (by omega)⟩
  | incrWorkerCount =>
    cases h
    constructor
    · simpa [Thread.counted] using hcount
    · right
      simp only [World.count_spawn, Thread.counted, decide_true, Bool.toNat_true]
      omega
  | runWorker =>
    cases h
    constructor <;> simp_all [Thread.counted, Thread.deciding]

theorem staffed_workerRun {s s' : World} {p : Nat} {pc : WorkerPc}
    (hi : Staffed (s.spawn (.worker p pc)) p) (h : s.workerRun p pc = some s') : Staffed s' p := by
  obtain ⟨hcount, hcover⟩ := hi
  simp only [World.spawn_pools, World.count_spawn] at hcount hcover
  cases pc with
  | take =>
    simp only [World.workerRun] at h
    split at h
    · cases h
      constructor <;> simp_all [Thread.counted, Thread.deciding]
    · -- the worker stops, and it has seen the queue empty
      next hempty =>
      cases h
      constructor <;> simp_all [Thread.counted, Thread.deciding]
  | run t job =>
    cases h
    constructor <;> simp_all [Thread.counted, Thread.deciding]
  | recycle t =>
    cases h
    constructor <;> simp_all [Thread.counted, Thread.deciding]

theorem staffed_step {s s' : World} {e : Event} {p : Nat} (hi : Staffed s p)
    (h : s.step e = some s') : Staffed s' p := by
  have hm := moves_of_step h
  by_cases hp : e.pool = some p
  · cases hm with
    | call s p' job =>
      constructor
      · simpa [Thread.counted] using hi.count
      · simpa [Thread.counted, Thread.deciding] using hi.cover
    | caller h =>
      cases hp
      exact staffed_ctxGo hi h
    | worker h =>
      cases hp
      exact staffed_workerRun hi h
    | setCap s p' cap =>
      cases hp
      constructor
      · simpa using hi.count
      · simpa using hi.cover
    | drop h => exact ⟨hi.count, hi.cover⟩
  · obtain ⟨hpool, hcount⟩ := moves_other hm hp
    constructor
    · rw [hpool, hcount _ (ofPool_counted p)]
      exact hi.count
    · rw [hpool, hcount _ (ofPool_counted p), hcount _ (ofPool_deciding p)]
      exact hi.cover

theorem staffed_reachable {s : World} (h : machine.Reachable s) (p : Nat) : Staffed s p := by
  refine h.invariant (fun s => Staffed s p) ?_ fun s e s' _ hi _ hs => staffed_step hi hs
  rintro s ⟨cap, scaleThreshold, rfl⟩
  exact staffed_initial cap scaleThreshold p

/-- No task is stranded: in every reachable state, a pool with a non-empty queue has a worker that is
running or about to be started by the caller that counted it, or a `CtxGo` call that has enqueued and
has not finished its decision. -/
theorem no_stranded_task {s : World} (h : machine.Reachable s) (p : Nat)
    (hq : (s.pools p).taskHead ≠ none) :
    (1 ≤ (s.pools p).workerCount ∧ ∃ t ∈ s.threads, t.counted p = true) ∨
      ∃ t ∈ s.threads, t.deciding p = true := by
  obtain ⟨hcount, hcover⟩ := staffed_reachable h p
  have hcover := hcover.resolve_left hq
  by_cases hw : 0 < s.count (Thread.counted p)
  · exact Or.inl ⟨by omega, World.count_pos.mp hw⟩
  · exact Or.inr (World.count_pos.mp (by omega))

/-- The steps of one `CtxGo` call on pool `0` up to the enqueueing of the new object `t`. -/
def submitSteps (job : Job) (t : Nat) : List Event :=
  [.call 0 job, .caller 0 job .get none, .caller 0 job (.enqueue t) none]

/-- The first task of a pool, before its caller has counted it. -/
theorem no_stranded_task_first :
    ∃ s, machine.Reachable s ∧ (s.pools 0).taskHead ≠ none ∧
      ((1 ≤ (s.pools 0).workerCount ∧ ∃ t ∈ s.threads, t.counted 0 = true) ∨
        ∃ t ∈ s.threads, t.deciding 0 = true) := by
  have hrun : (machine.run (initial (fun _ => 1) fun _ => 1) (submitSteps ⟨none, some 7⟩ 0)).map
      (fun s => (s.pools 0).taskHead) = some (some 0) := by
    decide
  obtain ⟨s, hreach, hhead⟩ := Machine.observed_of_run hrun ⟨_, _, rfl⟩
  have hq : (s.pools 0).taskHead ≠ none := by
    rw [hhead]
    exact Option.some_ne_none 0
  exact ⟨s, hreach, hq, no_stranded_task hreach 0 hq⟩

/-! ## Capacity -/

/-- A call that has made its test and will start a worker, but has not counted it yet. -/
def Thread.starting (cap : Int) (p : Nat) : Thread → Bool
  | .caller p' _ (.loadCap workerCount) => p' = p ∧ workerCount < cap
  | .caller p' _ .incrWorkerCount => p' = p
  | _ => false

/-- The workers of a pool and the ones that calls are committed to start. -/
def World.committed (s : World) (p : Nat) : Int :=
  (s.pools p).workerCount + s.count (Thread.starting (s.pools p).cap p)

/-- The event is a load of `workerCount` that lets a call of pool `p` start a worker. -/
def Event.passes (s : World) (p : Nat) : Event → Bool
  | .caller p' _ .loadWorkerCount _ => p' = p ∧ (s.pools p).workerCount < (s.pools p).cap
  | .caller p' _ .checkZero _ => p' = p ∧ (s.pools p).workerCount = 0
  | _ => false

/-- The event is `SetCap` on pool `p`. -/
def Event.setsCap (p : Nat) : Event → Bool
  | .setCap p' _ => p' = p
  | _ => false

/-- A call that is let through finds room for one more worker beside those that other calls are
committed to start; and the capacity of the pool does not change. -/
def RoomToStart (p : Nat) (s : World) (e : Event) : Prop :=
  e.setsCap p = false ∧ (e.passes s p = true → s.committed p < max (s.pools p).cap 1)

instance (p : Nat) (s : World) (e : Event) : Decidable (RoomToStart p s e) :=
  inferInstanceAs (Decidable (_ ∧ _))

theorem ofPool_starting (cap : Int) (p : Nat) : OfPool p (Thread.starting cap p) := by
  intro t ht
  unfold Thread.starting at ht
  split at ht <;> simp_all [Thread.pool]

theorem committed_ctxGo {s s' : World} {p : Nat} {job : Job} {pick : Option Nat} {pc : CallerPc}
    (hi : (s.spawn (.caller p job pc)).committed p ≤ max (s.pools p).cap 1)
    (hok : RoomToStart p (s.spawn (.caller p job pc)) (.caller p job pc pick))
    (h : s.ctxGo p job pick pc = some s') : s'.committed p ≤ max (s'.pools p).cap 1 := by
  unfold World.committed at hi ⊢
  simp only [World.spawn_pools, World.count_spawn] at hi
  cases pc with
  | get =>
    obtain ⟨⟨s₁, t⟩, h₁, rfl⟩ := Option.map_eq_some_iff.mp h
    simpa [getTask_frame h₁, Thread.starting] using hi
  | enqueue t =>
    obtain ⟨s₁, h₁, rfl⟩ := Option.map_eq_some_iff.mp h
    simpa [enqueue_frame h₁, Thread.starting] using hi
  | addTaskCount =>
    cases h
    simpa [Thread.starting] using hi
  | loadTaskCount =>
    simp only [World.ctxGo] at h
    split_ifs at h <;> cases h <;> simpa [Thread.starting] using hi
  | loadWorkerCount =>
    cases h
    by_cases hlt : (s.pools p).workerCount < (s.pools p).cap
    · have hroom := hok.2 (by simp [Event.passes, hlt])
      unfold World.committed at hroom
      simp [Thread.starting, hlt] at hroom ⊢
      omega
    · simpa [Thread.starting, hlt] using hi
  | loadCap w =>
    simp only [World.ctxGo] at h
    split_ifs at h with hlt <;> cases h <;> simpa [Thread.starting, hlt] using hi
  | checkZero =>
    simp only [World.ctxGo] at h
    split_ifs at h with hzero
    · cases h
      have hroom := hok.2 (by simp [Event.passes, hzero])
      unfold World.committed at hroom
      simp [Thread.starting] at hroom ⊢
      omega
    · cases h
      simpa [Thread.starting] using hi
  | incrWorkerCount =>
    cases h
    simp [Thread.starting] at hi ⊢
    omega
  | runWorker =>
    cases h
    simpa [Thread.starting] using hi

theorem committed_workerRun {s s' : World} {p : Nat} {pc : WorkerPc}
    (hi : (s.spawn (.worker p pc)).committed p ≤ max (s.pools p).cap 1)
    (h : s.workerRun p pc = some s') : s'.committed p ≤ max (s'.pools p).cap 1 := by
  unfold World.committed at hi ⊢
  simp only [World.spawn_pools, World.count_spawn] at hi
  cases pc with
  | take =>
    simp only [World.workerRun] at h
    split at h
    · cases h
      simpa [Thread.starting] using hi
    · cases h
      simp [Thread.starting] at hi ⊢
      omega
  | run t job =>
    cases h
    simpa [Thread.starting] using hi
  | recycle t =>
    cases h
    simpa [Thread.starting] using hi

theorem committed_step {s s' : World} {e : Event} {p : Nat}
    (hi : s.committed p ≤ max (s.pools p).cap 1) (hok : RoomToStart p s e)
    (h : s.step e = some s') : s'.committed p ≤ max (s'.pools p).cap 1 := by
  have hm := moves_of_step h
  by_cases hp : e.pool = some p
  · cases hm with
    | call s p' job =>
      unfold World.committed at hi ⊢
      simpa [Thread.starting] using hi
    | caller h =>
      cases hp
      exact committed_ctxGo hi hok h
    | worker h =>
      cases hp
      exact committed_workerRun hi h
    | setCap s p' cap =>
      cases hp
      exact absurd hok.1 (by simp [Event.setsCap])
    | drop h => exact hi
  · obtain ⟨hpool, hcount⟩ := moves_other hm hp
    unfold World.committed
    rw [hpool, hcount _ (ofPool_starting _ p)]
    exact hi

/-- The capacity of a pool is kept in every run in which no call starts a worker where there is room
only for those that other calls are already committed to start. -/
theorem workerCount_le_cap {s : World} {p : Nat} (h : machine.ReachableWhen (RoomToStart p) s) :
    (s.pools p).workerCount ≤ max (s.pools p).cap 1 := by
  have hc : s.committed p ≤ max (s.pools p).cap 1 := by
    refine h.invariant (fun s => s.committed p ≤ max (s.pools p).cap 1) ?_
      fun s e s' _ hi hok hs => committed_step hi hok hs
    rintro s ⟨cap, scaleThreshold, rfl⟩
    unfold World.committed
    rw [count_initial]
    simp only [initial]
    omega
  unfold World.committed at hc
  omega

/-- A call that is let through commits itself to one more worker. -/
theorem committed_passes {s s' : World} {e : Event} {p : Nat} (hp : e.passes s p = true)
    (h : s.step e = some s') :
    s'.committed p = s.committed p + 1 ∧ (s'.pools p).cap = (s.pools p).cap := by
  cases moves_of_step h with
  | @caller s s' p' job pc pick h =>
    cases pc with
    | loadWorkerCount =>
      cases h
      obtain ⟨rfl, hlt⟩ := of_decide_eq_true hp
      rw [World.spawn_pools] at hlt
      refine ⟨?_, rfl⟩
      unfold World.committed
      simp [Thread.starting, hlt]
      omega
    | checkZero =>
      obtain ⟨rfl, hzero⟩ := of_decide_eq_true hp
      rw [World.spawn_pools] at hzero
      simp only [World.ctxGo, hzero, if_true] at h
      cases h
      refine ⟨?_, rfl⟩
      unfold World.committed
      simp [Thread.starting]
      omega
    | _ => simp [Event.passes] at hp
  | _ => simp [Event.passes] at hp

theorem starting_cases {cap : Int} {p : Nat} {t : Thread} (h : t.starting cap p = true) :
    ∃ job, (∃ w, w < cap ∧ t = .caller p job (.loadCap w)) ∨ t = .caller p job .incrWorkerCount := by
  unfold Thread.starting at h
  split at h
  · obtain ⟨rfl, hlt⟩ := of_decide_eq_true h
    exact ⟨_, Or.inl ⟨_, hlt, rfl⟩⟩
  · obtain rfl := of_decide_eq_true h
    exact ⟨_, Or.inr rfl⟩
  · cases h

/-- Committed calls can go on to count their workers, one after the other. -/
theorem run_committed {n : Nat} {s : World} {p : Nat}
    (hn : s.count (Thread.starting (s.pools p).cap p) = n) :
    ∃ es s', machine.run s es = some s' ∧ (s'.pools p).cap = (s.pools p).cap ∧
      (s'.pools p).workerCount = s.committed p := by
  induction n generalizing s with
  | zero => exact ⟨[], s, rfl, rfl, by simp [World.committed, hn]⟩
  | succ n ih =>
    have hpos : 0 < s.count (Thread.starting (s.pools p).cap p) := by omega
    obtain ⟨t, ht, hst⟩ := World.count_pos.mp hpos
    obtain ⟨s₀, rfl⟩ := exists_spawn ht
    rw [World.spawn_pools] at hst
    simp only [World.count_spawn, World.spawn_pools, hst, Bool.toNat_true] at hn
    have hcom : (s₀.spawn t).committed p = s₀.committed p + 1 := by
      unfold World.committed
      simp only [World.spawn_pools, World.count_spawn, hst, Bool.toNat_true]
      omega
    -- the state after the increment has one committed call less and the same commitment
    have hincr : ∀ job, ∃ es s', machine.run (s₀.spawn (.caller p job .incrWorkerCount)) es = some s' ∧
        (s'.pools p).cap = (s₀.pools p).cap ∧
        (s'.pools p).workerCount = s₀.committed p + 1 := by
      intro job
      obtain ⟨s₁, hs₁⟩ : ∃ s₁, s₀.ctxGo p job none .incrWorkerCount = some s₁ := ⟨_, rfl⟩
      have hcap : (s₁.pools p).cap = (s₀.pools p).cap := by
        cases hs₁
        simp
      have hcom₁ : s₁.committed p = s₀.committed p + 1 := by
        cases hs₁
        unfold World.committed
        simp [Thread.starting]
        omega
      obtain ⟨es, s', hrun, hcap', hw⟩ := @ih s₁ (by
        cases hs₁
        simpa [Thread.starting] using hn)
      refine ⟨.caller p job .incrWorkerCount none :: es, s', ?_, hcap'.trans hcap, hw.trans hcom₁⟩
      simp only [Machine.run, machine, step_caller_spawn, hs₁, Option.bind_some]
      exact hrun
    obtain ⟨job, ⟨w, hlt, rfl⟩ | rfl⟩ := starting_cases hst
    · obtain ⟨es, s', hrun, hcap, hw⟩ := hincr job
      refine ⟨.caller p job (.loadCap w) none :: es, s', ?_, hcap, hw.trans hcom.symm⟩
      simp only [Machine.run, machine, step_caller_spawn, World.ctxGo, if_pos hlt, Option.bind_some]
      exact hrun
    · obtain ⟨es, s', hrun, hcap, hw⟩ := hincr job
      exact ⟨es, s', hrun, hcap, hw.trans hcom.symm⟩

/-- Where a call is let through without room, the capacity is exceeded as soon as the committed calls
have counted their workers. -/
theorem exceeds_without_room {s s' : World} {e : Event} {p : Nat} (hp : e.passes s p = true)
    (hroom : ¬ s.committed p < max (s.pools p).cap 1) (h : s.step e = some s') :
    ∃ es s'', machine.run s' es = some s'' ∧
      max (s''.pools p).cap 1 < (s''.pools p).workerCount := by
  obtain ⟨hcom, hcap⟩ := committed_passes hp h
  obtain ⟨es, s'', hrun, hcap', hw⟩ := run_committed (p := p) (s := s') rfl
  refine ⟨es, s'', hrun, ?_⟩
  rw [hw, hcap', hcap, hcom]
  omega

/-- The steps of a submitted call that finds no worker, up to its test of the capacity. -/
def testSteps (job : Job) : List Event :=
  [.caller 0 job .addTaskCount none, .caller 0 job .loadTaskCount none,
    .caller 0 job .loadWorkerCount none, .caller 0 job (.loadCap 0) none]

/-- Two calls on a pool of capacity one both make the test before either has counted its worker. -/
theorem cap_exceeded :
    ∃ s, machine.ReachableWhen (fun _ e => e.setsCap 0 = false) s ∧
      ¬ (s.pools 0).workerCount ≤ max (s.pools 0).cap 1 := by
  have hrun : ((machine.restrict fun _ e => e.setsCap 0 = false).run
      (initial (fun _ => 1) fun _ => 1)
      (submitSteps ⟨none, some 7⟩ 0 ++ submitSteps ⟨none, some 8⟩ 1 ++
        testSteps ⟨none, some 7⟩ ++ testSteps ⟨none, some 8⟩ ++
        [.caller 0 ⟨none, some 7⟩ .incrWorkerCount none,
          .caller 0 ⟨none, some 8⟩ .incrWorkerCount none])).map
      (fun s => ((s.pools 0).workerCount, (s.pools 0).cap)) = some (2, 1) := by
    decide
  obtain ⟨s, hreach, hobs⟩ := Machine.observedWhen_of_run hrun ⟨_, _, rfl⟩
  obtain ⟨hw, hc⟩ := Prod.mk.inj hobs
  refine ⟨s, hreach, ?_⟩
  rw [hw, hc]
  decide

/-- A call on a pool of capacity one starts its worker before the next call makes its test. -/
theorem workerCount_le_cap_one :
    ∃ s, machine.ReachableWhen (RoomToStart 0) s ∧ (s.pools 0).workerCount = 1 ∧
      (s.pools 0).workerCount ≤ max (s.pools 0).cap 1 := by
  have hrun : ((machine.restrict (RoomToStart 0)).run (initial (fun _ => 1) fun _ => 1)
      (submitSteps ⟨none, some 7⟩ 0 ++ submitSteps ⟨none, some 8⟩ 1 ++
        testSteps ⟨none, some 7⟩ ++ [.caller 0 ⟨none, some 7⟩ .incrWorkerCount none,
          .caller 0 ⟨none, some 8⟩ .addTaskCount none,
          .caller 0 ⟨none, some 8⟩ .loadTaskCount none,
          .caller 0 ⟨none, some 8⟩ .loadWorkerCount none])).map
      (fun s => (s.pools 0).workerCount) = some 1 := by
    decide
  obtain ⟨s, hreach, hw⟩ := Machine.observedWhen_of_run hrun ⟨_, _, rfl⟩
  exact ⟨s, hreach, hw, workerCount_le_cap hreach⟩

end OwnX.Gopool
