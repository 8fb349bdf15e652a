import OwnX.Gopool.Pool
import OwnX.Foundations.Proofs.MachineProofs

/-!
# Proofs: the steps of the pool

What each write changes, and the steps of a goroutine seen from the state without that goroutine.
-/

namespace OwnX.Gopool

namespace World

variable (s : World) (t p p' a : Nat) (o : Task) (q : Pool) (th : Thread)

@[simp] theorem spawn_threads : (s.spawn th).threads = th ::ₘ s.threads := rfl
@[simp] theorem spawn_heap : (s.spawn th).heap = s.heap := rfl
@[simp] theorem spawn_pools : (s.spawn th).pools = s.pools := rfl
@[simp] theorem spawn_taskPool : (s.spawn th).taskPool = s.taskPool := rfl
@[simp] theorem spawn_nextAddr : (s.spawn th).nextAddr = s.nextAddr := rfl

@[simp] theorem setTask_threads : (s.setTask t o).threads = s.threads := rfl
@[simp] theorem setTask_pools : (s.setTask t o).pools = s.pools := rfl
@[simp] theorem setTask_taskPool : (s.setTask t o).taskPool = s.taskPool := rfl
@[simp] theorem setTask_nextAddr : (s.setTask t o).nextAddr = s.nextAddr := rfl
@[simp] theorem setTask_heap_self : (s.setTask t o).heap t = o := if_pos rfl

@[simp] theorem setTask_heap_of_ne {a t : Nat} (h : a ≠ t) : (s.setTask t o).heap a = s.heap a :=
  if_neg h

@[simp] theorem setPool_threads : (s.setPool p q).threads = s.threads := rfl
@[simp] theorem setPool_heap : (s.setPool p q).heap = s.heap := rfl
@[simp] theorem setPool_taskPool : (s.setPool p q).taskPool = s.taskPool := rfl
@[simp] theorem setPool_nextAddr : (s.setPool p q).nextAddr = s.nextAddr := rfl
@[simp] theorem setPool_pools_self : (s.setPool p q).pools p = q := if_pos rfl

@[simp] theorem setPool_pools_of_ne {p p' : Nat} (h : p' ≠ p) :
    (s.setPool p q).pools p' = s.pools p' := if_neg h

@[simp] theorem recycle_threads : (s.recycle t).threads = s.threads := rfl
@[simp] theorem recycle_pools : (s.recycle t).pools = s.pools := rfl
@[simp] theorem recycle_taskPool : (s.recycle t).taskPool = t ::ₘ s.taskPool := rfl
@[simp] theorem recycle_nextAddr : (s.recycle t).nextAddr = s.nextAddr := rfl
@[simp] theorem recycle_heap_self : (s.recycle t).heap t = Task.zero := if_pos rfl

@[simp] theorem recycle_heap_of_ne {a t : Nat} (h : a ≠ t) : (s.recycle t).heap a = s.heap a :=
  if_neg h

/-- How many threads are of the kind `f`. -/
def count (s : World) (f : Thread → Bool) : Nat := s.threads.countP fun t => f t

variable (f : Thread → Bool)

@[simp] theorem count_spawn : (s.spawn th).count f = s.count f + (f th).toNat := by
  unfold count
  rw [spawn_threads, Multiset.countP_cons]
  cases f th <;> rfl

@[simp] theorem count_setTask : (s.setTask t o).count f = s.count f := rfl
@[simp] theorem count_setPool : (s.setPool p q).count f = s.count f := rfl
@[simp] theorem count_recycle : (s.recycle t).count f = s.count f := rfl

variable {s f} in
theorem count_pos : 0 < s.count f ↔ ∃ t ∈ s.threads, f t = true := Multiset.countP_pos

end World

/-- Taking a goroutine out undoes adding it. -/
theorem remove_some {s s₀ : World} {t : Thread} (h : s.remove t = some s₀) : s = s₀.spawn t := by
  unfold World.remove at h
  split_ifs at h with ht
  cases h
  unfold World.spawn
  simp only [Multiset.cons_erase ht]

theorem remove_spawn (s : World) (t : Thread) : (s.spawn t).remove t = some s := by
  unfold World.remove
  rw [World.spawn_threads, if_pos (Multiset.mem_cons_self t s.threads), Multiset.erase_cons_head]
  rfl

theorem exists_spawn {s : World} {t : Thread} (ht : t ∈ s.threads) :
    ∃ s₀ : World, s = s₀.spawn t := by
  refine ⟨{ s with threads := s.threads.erase t }, remove_some ?_⟩
  unfold World.remove
  rw [if_pos ht]

theorem step_caller_spawn (s : World) (p : Nat) (job : Job) (pc : CallerPc) (pick : Option Nat) :
    (s.spawn (.caller p job pc)).step (.caller p job pc pick) = s.ctxGo p job pick pc := by
  simp only [World.step, remove_spawn, Option.bind_some]

/-- The steps of the system. The state before a goroutine's step is written as the rest of the system
and that goroutine. -/
inductive Moves : World → Event → World → Prop where
  | call (s : World) (p : Nat) (job : Job) :
      Moves s (.call p job) (s.spawn (.caller p job .get))
  | caller {s s' : World} {p : Nat} {job : Job} {pc : CallerPc} {pick : Option Nat}
      (h : s.ctxGo p job pick pc = some s') :
      Moves (s.spawn (.caller p job pc)) (.caller p job pc pick) s'
  | worker {s s' : World} {p : Nat} {pc : WorkerPc} (h : s.workerRun p pc = some s') :
      Moves (s.spawn (.worker p pc)) (.worker p pc) s'
  | setCap (s : World) (p : Nat) (cap : Int) :
      Moves s (.setCap p cap) (s.setPool p { s.pools p with cap := cap })
  | drop {s : World} {t : Nat} (h : t ∈ s.taskPool) :
      Moves s (.drop t) { s with taskPool := s.taskPool.erase t }

theorem moves_of_step {s s' : World} {e : Event} (h : s.step e = some s') : Moves s e s' := by
  cases e with
  | call p job =>
    cases h
    exact .call s p job
  | caller p job pc pick =>
    obtain ⟨s₀, h₀, h⟩ := Option.bind_eq_some_iff.mp h
    rw [remove_some h₀]
    exact .caller h
  | worker p pc =>
    obtain ⟨s₀, h₀, h⟩ := Option.bind_eq_some_iff.mp h
    rw [remove_some h₀]
    exact .worker h
  | setCap p cap =>
    cases h
    exact .setCap s p cap
  | drop t =>
    simp only [World.step] at h
    split_ifs at h with ht
    cases h
    exact .drop ht

/-- An object of the `sync.Pool`, or a new one, gets the fields of the call. -/
theorem getTask_some {s s' : World} {job : Job} {pick : Option Nat} {t : Nat}
    (h : s.getTask job pick = some (s', t)) :
    (t = s.nextAddr ∧ s' = { s with nextAddr := s.nextAddr + 1 }.setTask t ⟨job, none⟩) ∨
    (t ∈ s.taskPool ∧
      s' = { s with taskPool := s.taskPool.erase t }.setTask t ⟨job, (s.heap t).next⟩) := by
  cases pick with
  | none =>
    obtain ⟨rfl, rfl⟩ := Prod.mk.inj (Option.some.inj h)
    exact Or.inl ⟨rfl, rfl⟩
  | some t' =>
    simp only [World.getTask] at h
    split_ifs at h with ht
    obtain ⟨rfl, rfl⟩ := Prod.mk.inj (Option.some.inj h)
    exact Or.inr ⟨ht, rfl⟩

/-- The object becomes the whole queue, or is linked in behind the last one. -/
theorem enqueue_some {s s' : World} {p t : Nat} {job : Job} (h : s.enqueue p job t = some s') :
    ((s.pools p).taskHead = none ∧
      s' = s.setPool p { s.pools p with
        taskHead := some t, taskTail := some t, submitted := (s.pools p).submitted ++ [job] }) ∨
    (∃ head tail, (s.pools p).taskHead = some head ∧ (s.pools p).taskTail = some tail ∧
      s' = (s.setTask tail ⟨(s.heap tail).job, some t⟩).setPool p { s.pools p with
        taskTail := some t, submitted := (s.pools p).submitted ++ [job] }) := by
  unfold World.enqueue at h
  cases hh : (s.pools p).taskHead with
  | none =>
    simp only [hh, Option.some.injEq] at h
    exact Or.inl ⟨rfl, h.symm⟩
  | some head =>
    simp only [hh, Option.map_eq_some_iff] at h
    obtain ⟨tail, ht, rfl⟩ := h
    exact Or.inr ⟨head, tail, rfl, ht, by simp only [hh]⟩

/-- Taking an object out of the `sync.Pool` leaves the pools and the threads alone. -/
theorem getTask_frame {s s' : World} {job : Job} {pick : Option Nat} {t : Nat}
    (h : s.getTask job pick = some (s', t)) : s'.pools = s.pools ∧ ∀ f, s'.count f = s.count f := by
  rcases getTask_some h with ⟨-, rfl⟩ | ⟨-, rfl⟩ <;> exact ⟨rfl, fun _ => rfl⟩

/-- Enqueueing leaves the counters, the threads and the other pools alone. -/
theorem enqueue_frame {s s' : World} {p t : Nat} {job : Job} (h : s.enqueue p job t = some s') :
    (s'.pools p).workerCount = (s.pools p).workerCount ∧ (s'.pools p).cap = (s.pools p).cap ∧
      (∀ p', p' ≠ p → s'.pools p' = s.pools p') ∧ ∀ f, s'.count f = s.count f := by
  rcases enqueue_some h with ⟨-, rfl⟩ | ⟨_, _, -, -, rfl⟩ <;> simp +contextual

theorem count_initial (cap scaleThreshold : Nat → Int) (f : Thread → Bool) :
    (initial cap scaleThreshold).count f = 0 := rfl

/-! ## Steps of other pools -/

/-- The pool a thread works for. -/
def Thread.pool : Thread → Nat
  | .caller p _ _ => p
  | .worker p _ => p

/-- The pool an event belongs to. -/
def Event.pool : Event → Option Nat
  | .call p _ => some p
  | .caller p _ _ _ => some p
  | .worker p _ => some p
  | .setCap p _ => some p
  | .drop _ => none

/-- A kind of threads of one pool. -/
def OfPool (p : Nat) (f : Thread → Bool) : Prop := ∀ t, f t = true → t.pool = p

theorem OfPool.toNat_of_ne {p : Nat} {f : Thread → Bool} (hf : OfPool p f) (t : Thread)
    (ht : t.pool ≠ p) : (f t).toNat = 0 := by
  cases hft : f t with
  | false => rfl
  | true => exact absurd (hf t hft) ht

theorem OfPool.count_spawn {p : Nat} {f : Thread → Bool} (hf : OfPool p f) (s : World) (t : Thread)
    (ht : t.pool ≠ p) : (s.spawn t).count f = s.count f := by
  rw [World.count_spawn, hf.toNat_of_ne t ht, Nat.add_zero]

theorem ctxGo_other {s s' : World} {p p' : Nat} {job : Job} {pick : Option Nat} {pc : CallerPc}
    (hne : p' ≠ p) (h : s.ctxGo p' job pick pc = some s') :
    s'.pools p = s.pools p ∧ ∀ f, OfPool p f → s'.count f = s.count f := by
  have hthread : ∀ {f : Thread → Bool} (pc : CallerPc), OfPool p f →
      (f (.caller p' job pc)).toNat = 0 := fun pc hf => hf.toNat_of_ne _ hne
  have hworker : ∀ {f : Thread → Bool} (pc : WorkerPc), OfPool p f →
      (f (.worker p' pc)).toNat = 0 := fun pc hf => hf.toNat_of_ne _ hne
  cases pc with
  | get =>
    obtain ⟨⟨s₁, t⟩, h₁, rfl⟩ := Option.map_eq_some_iff.mp h
    simp +contextual [getTask_frame h₁, hthread]
  | enqueue t =>
    obtain ⟨s₁, h₁, rfl⟩ := Option.map_eq_some_iff.mp h
    simp +contextual [enqueue_frame h₁, hne.symm, hthread]
  | addTaskCount | loadWorkerCount | incrWorkerCount | runWorker =>
    cases h
    simp +contextual [hne.symm, hthread, hworker]
  | loadTaskCount | loadCap w | checkZero =>
    simp only [World.ctxGo] at h
    split_ifs at h <;> cases h <;> simp +contextual [hthread]

theorem workerRun_other {s s' : World} {p p' : Nat} {pc : WorkerPc} (hne : p' ≠ p)
    (h : s.workerRun p' pc = some s') :
    s'.pools p = s.pools p ∧ ∀ f, OfPool p f → s'.count f = s.count f := by
  have hthread : ∀ {f : Thread → Bool} (pc : WorkerPc), OfPool p f →
      (f (.worker p' pc)).toNat = 0 := fun pc hf => hf.toNat_of_ne _ hne
  cases pc with
  | take =>
    simp only [World.workerRun] at h
    split at h <;> cases h <;> simp +contextual [hne.symm, hthread]
  | run t job =>
    cases h
    simp +contextual [hne.symm, hthread]
  | recycle t =>
    cases h
    simp +contextual [hthread]

/-- A step of another pool changes neither the pool nor its threads. -/
theorem moves_other {s s' : World} {e : Event} {p : Nat} (h : Moves s e s') (hne : e.pool ≠ some p) :
    s'.pools p = s.pools p ∧ ∀ f, OfPool p f → s'.count f = s.count f := by
  cases h with
  | call s p' job =>
    have hp : p' ≠ p := fun he => hne (congrArg some he)
    exact ⟨rfl, fun f hf => hf.count_spawn s _ hp⟩
  | @caller s s' p' job pc pick h =>
    have hp : p' ≠ p := fun he => hne (congrArg some he)
    obtain ⟨hpool, hcount⟩ := ctxGo_other hp h
    exact ⟨hpool, fun f hf => (hcount f hf).trans (hf.count_spawn s (.caller p' job pc) hp).symm⟩
  | @worker s s' p' pc h =>
    have hp : p' ≠ p := fun he => hne (congrArg some he)
    obtain ⟨hpool, hcount⟩ := workerRun_other hp h
    exact ⟨hpool, fun f hf => (hcount f hf).trans (hf.count_spawn s (.worker p' pc) hp).symm⟩
  | setCap s p' cap =>
    have hp : p' ≠ p := fun he => hne (congrArg some he)
    exact ⟨World.setPool_pools_of_ne s _ hp.symm, fun f _ => rfl⟩
  | drop ht => exact ⟨rfl, fun f _ => rfl⟩

end OwnX.Gopool
