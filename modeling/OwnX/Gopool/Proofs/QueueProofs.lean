import OwnX.Foundations.Proofs.MachineIntProofs
import OwnX.Gopool.Proofs.PoolProofs
import OwnX.Foundations.Proofs.LinkedProofs
import Mathlib.Data.List.Nodup

/-!
# Proofs: the task queue

Every task object has one owner: nobody, the `sync.Pool`, one goroutine, or the queue of one pool. A
goroutine writes only to an object it owns or to the last object of a queue, so the links of every
queue stay those of a list, whatever stale links and tails are left behind.
-/

namespace OwnX.Gopool

/-- Who may touch a task object. -/
inductive Owner where
  | nobody
  | pooled
  | held
  | queued (p : Nat)
  deriving DecidableEq

/-- The thread holds the object `a`. -/
def Thread.holds (a : Nat) : Thread → Bool
  | .caller _ _ (.enqueue t) => t = a
  | .worker _ (.run t _) => t = a
  | .worker _ (.recycle t) => t = a
  | _ => false

/-- The object a thread holds has the fields it needs. -/
def Thread.Fits (heap : Nat → Task) : Thread → Prop
  | .caller _ job (.enqueue t) => heap t = ⟨job, none⟩
  | .worker _ (.run t job) => (heap t).job = job
  | _ => True

/-- The representation invariant: `own` gives each object its owner, and `q` each pool the objects in
its queue with their jobs. -/
structure Shape (s : World) (own : Nat → Owner) (q : Nat → List (Nat × Job)) : Prop where
  held : ∀ a, s.count (Thread.holds a) = if own a = .held then 1 else 0
  pooled : ∀ a, s.taskPool.count a = if own a = .pooled then 1 else 0
  fresh : ∀ a, s.nextAddr ≤ a → own a = .nobody
  clean : ∀ a, own a = .pooled → (s.heap a).next = none
  fits : ∀ th ∈ s.threads, th.Fits s.heap
  queued : ∀ p, ∀ a ∈ addrs (q p), own a = .queued p
  nodup : ∀ p, (addrs (q p)).Nodup
  spells : ∀ p, Spells Task.next Task.job (fun a => some (s.heap a)) (s.pools p).taskHead (q p)
  tail : ∀ p, q p ≠ [] → (s.pools p).taskTail = (addrs (q p)).getLast?

/-- An object that belongs to no queue is in none. -/
theorem Shape.not_mem_addrs {s : World} {own : Nat → Owner} {q : Nat → List (Nat × Job)} {t : Nat}
    (hs : Shape s own q) (hown : ∀ p, own t ≠ .queued p) (p : Nat) : t ∉ addrs (q p) :=
  fun hmem => hown p (hs.queued p t hmem)

/-! ## Frames -/

/-- What a thread needs of its object is not affected by writes to other objects. -/
theorem Thread.Fits.frame {heap heap' : Nat → Task} {th : Thread} (h : th.Fits heap)
    (hsame : ∀ a, th.holds a = true → heap' a = heap a) : th.Fits heap' := by
  unfold Thread.Fits at h ⊢
  split
  · rw [hsame _ (by simp [Thread.holds])]
    exact h
  · rw [hsame _ (by simp [Thread.holds])]
    exact h
  · trivial

/-- A step that touches no object, no queue and no `sync.Pool` keeps the shape. -/
theorem Shape.quiet {s s' : World} {own : Nat → Owner} {q : Nat → List (Nat × Job)}
    (hs : Shape s own q) (hheap : s'.heap = s.heap) (hnext : s'.nextAddr = s.nextAddr)
    (htp : s'.taskPool = s.taskPool)
    (hpools : ∀ p, (s'.pools p).taskHead = (s.pools p).taskHead ∧
      (s'.pools p).taskTail = (s.pools p).taskTail)
    (hcount : ∀ a, s'.count (Thread.holds a) = s.count (Thread.holds a))
    (hfits : ∀ th ∈ s'.threads, th.Fits s.heap) : Shape s' own q where
  held := fun a => (hcount a).trans (hs.held a)
  pooled := fun a => by rw [htp, hs.pooled a]
  fresh := fun a ha => hs.fresh a (hnext ▸ ha)
  clean := fun a ha => by rw [hheap, hs.clean a ha]
  fits := fun th hth => by
    rw [hheap]
    exact hfits th hth
  queued := hs.queued
  nodup := hs.nodup
  spells := fun p => by
    rw [hheap, (hpools p).1]
    exact hs.spells p
  tail := fun p hne => by
    rw [(hpools p).2]
    exact hs.tail p hne

variable {s : World} {own : Nat → Owner} {q : Nat → List (Nat × Job)}

/-- The goroutine that holds an object is the only one that does. -/
theorem Shape.alone {th : Thread} {t : Nat} (hs : Shape (s.spawn th) own q)
    (ht : th.holds t = true) :
    own t = .held ∧ s.count (Thread.holds t) = 0 ∧ ∀ th' ∈ s.threads, th'.holds t = false := by
  have hcount := hs.held t
  rw [World.count_spawn, ht, Bool.toNat_true] at hcount
  have hown : own t = .held := by
    by_contra hne
    rw [if_neg hne] at hcount
    omega
  rw [if_pos hown] at hcount
  have hzero : s.count (Thread.holds t) = 0 := by omega
  refine ⟨hown, hzero, fun th' hth' => ?_⟩
  by_contra htrue
  have hpos := World.count_pos.mpr ⟨th', hth', Bool.not_eq_false _ ▸ htrue⟩
  omega

/-- A goroutine goes on with the objects it had. -/
theorem Shape.replace {s₁ : World} {th th' : Thread} (hs : Shape (s.spawn th) own q)
    (hth : s₁.threads = s.threads) (hheap : s₁.heap = s.heap) (hnext : s₁.nextAddr = s.nextAddr)
    (htp : s₁.taskPool = s.taskPool)
    (hpools : ∀ p, (s₁.pools p).taskHead = (s.pools p).taskHead ∧
      (s₁.pools p).taskTail = (s.pools p).taskTail)
    (hholds : ∀ a, th'.holds a = th.holds a) (hfit : th'.Fits s.heap) :
    Shape (s₁.spawn th') own q := by
  refine hs.quiet hheap hnext htp hpools ?_ ?_
  · intro a
    rw [World.count_spawn, World.count_spawn, hholds a]
    unfold World.count
    rw [hth]
  · intro th₁ hth₁
    rw [World.spawn_threads, Multiset.mem_cons, hth] at hth₁
    rcases hth₁ with rfl | hth₁
    · exact hfit
    · exact hs.fits th₁ (Multiset.mem_cons_of_mem hth₁)

theorem setPool_ends (s : World) {p : Nat} {pool : Pool}
    (hhead : pool.taskHead = (s.pools p).taskHead) (htail : pool.taskTail = (s.pools p).taskTail)
    (p' : Nat) : ((s.setPool p pool).pools p').taskHead = (s.pools p').taskHead ∧
      ((s.setPool p pool).pools p').taskTail = (s.pools p').taskTail := by
  by_cases hp : p' = p
  · subst hp
    rw [World.setPool_pools_self]
    exact ⟨hhead, htail⟩
  · rw [World.setPool_pools_of_ne s pool hp]
    exact ⟨rfl, rfl⟩

/-! ## The steps that move an object -/

section Moves

variable {s₁ : World} {p t : Nat} {job : Job}

/-! The object `t` changes hands, to the owner `o`. -/

theorem Shape.fresh_update (hs : Shape s own q) (ht : own t ≠ .nobody) (o : Owner) {a : Nat}
    (ha : s.nextAddr ≤ a) : Function.update own t o a = .nobody := by
  have hfresh := hs.fresh a ha
  rw [Function.update_of_ne, hfresh]
  rintro rfl
  exact ht hfresh

theorem Shape.pooled_update (hs : Shape s own q) (ht : own t ≠ .pooled) {o : Owner}
    (ho : o ≠ .pooled) (a : Nat) :
    s.taskPool.count a = if Function.update own t o a = .pooled then 1 else 0 := by
  refine (hs.pooled a).trans ?_
  by_cases ha : a = t
  · subst ha
    rw [Function.update_self, if_neg ht, if_neg ho]
  · rw [Function.update_of_ne ha]

theorem Shape.queued_update (hs : Shape s own q) {p' : Nat} (ht : t ∉ addrs (q p')) (o : Owner)
    {a : Nat} (ha : a ∈ addrs (q p')) : Function.update own t o a = .queued p' := by
  rw [Function.update_of_ne, hs.queued p' a ha]
  rintro rfl
  exact ht ha

/-- The owner of the one object that a thread gives up. -/
theorem Shape.held_update {th th' : Thread} {o : Owner} (hs : Shape (s.spawn th) own q)
    (honly : ∀ a, th.holds a = decide (t = a)) (hfree : ∀ a, th'.holds a = false) (ho : o ≠ .held)
    (a : Nat) :
    s.count (Thread.holds a) + (th'.holds a).toNat = if Function.update own t o a = .held then 1 else 0 := by
  obtain ⟨-, hnone, -⟩ := hs.alone (t := t) (by simp [honly])
  rw [hfree, Bool.toNat_false, Nat.add_zero]
  by_cases ha : a = t
  · rw [ha, hnone, Function.update_self, if_neg ho]
  · have hheld := hs.held a
    rw [World.count_spawn, honly, decide_eq_false (Ne.symm ha), Bool.toNat_false, Nat.add_zero] at hheld
    rw [hheld, Function.update_of_ne ha]

theorem pooled_of_update {own : Nat → Owner} {o : Owner} {a : Nat}
    (ha : Function.update own t o a = .pooled) (ho : o ≠ .pooled) : a ≠ t ∧ own a = .pooled := by
  by_cases hat : a = t
  · rw [hat, Function.update_self] at ha
    exact absurd ha ho
  · rw [Function.update_of_ne hat] at ha
    exact ⟨hat, ha⟩

theorem Shape.acquire (hs : Shape (s.spawn (.caller p job .get)) own q)
    (hth : s₁.threads = s.threads) (hpools : s₁.pools = s.pools)
    (hheap : ∀ a, a ≠ t → s₁.heap a = s.heap a) (ht : s₁.heap t = ⟨job, none⟩)
    (hown : own t = .nobody ∨ own t = .pooled)
    (htp : ∀ a, s₁.taskPool.count a = if Function.update own t .held a = .pooled then 1 else 0)
    (hnext : ∀ a, s₁.nextAddr ≤ a → s.nextAddr ≤ a ∧ a ≠ t) :
    Shape (s₁.spawn (.caller p job (.enqueue t))) (Function.update own t .held) q := by
  have hheld : ∀ a, s.count (Thread.holds a) = if own a = .held then 1 else 0 := by
    intro a
    simpa [Thread.holds] using hs.held a
  have hcount : ∀ a, s₁.count (Thread.holds a) = s.count (Thread.holds a) := by
    intro a
    unfold World.count
    rw [hth]
  have hnone : s.count (Thread.holds t) = 0 := by
    rw [hheld t, if_neg]
    rcases hown with h | h <;> rw [h] <;> simp
  have hqueue : ∀ p', t ∉ addrs (q p') := by
    apply hs.not_mem_addrs
    rcases hown with h | h <;> simp [h]
  constructor
  case held =>
    intro a
    rw [World.count_spawn, hcount]
    by_cases ha : a = t
    · subst ha
      simp [hnone, Thread.holds]
    · simp [Thread.holds, hheld a, ha, Ne.symm ha]
  case pooled => exact htp
  case fresh =>
    intro a ha
    obtain ⟨hle, hne⟩ := hnext a ha
    rw [Function.update_of_ne hne]
    exact hs.fresh a hle
  case clean =>
    intro a ha
    obtain ⟨hat, hpooled⟩ := pooled_of_update ha nofun
    rw [World.spawn_heap, hheap a hat]
    exact hs.clean a hpooled
  case fits =>
    intro th hth'
    rw [World.spawn_threads, Multiset.mem_cons, hth] at hth'
    rcases hth' with rfl | hth'
    · exact ht
    · apply (hs.fits th (Multiset.mem_cons_of_mem hth')).frame
      intro a ha
      apply hheap
      rintro rfl
      have hpos := World.count_pos.mpr ⟨th, hth', ha⟩
      omega
  case queued => exact fun p' _ ha => hs.queued_update (hqueue p') _ ha
  case nodup => exact hs.nodup
  case spells =>
    intro p'
    rw [World.spawn_pools, hpools]
    apply (hs.spells p').frame
    intro a ha
    rw [World.spawn_heap, hheap a]
    · rfl
    · rintro rfl
      exact hqueue p' ha
  case tail =>
    intro p' hne
    rw [World.spawn_pools, hpools]
    exact hs.tail p' hne

theorem Shape.release (hs : Shape (s.spawn (.worker p (.recycle t))) own q) :
    Shape ((s.recycle t).spawn (.worker p .take)) (Function.update own t .pooled) q := by
  obtain ⟨hown, hnone, halone⟩ := hs.alone (t := t) (by simp [Thread.holds])
  have hqueue : ∀ p', t ∉ addrs (q p') := hs.not_mem_addrs (by simp [hown])
  constructor
  case held =>
    intro a
    have hfree : ∀ a, (Thread.worker p .take).holds a = false := fun _ => rfl
    rw [World.count_spawn, World.count_recycle]
    exact hs.held_update (fun _ => rfl) hfree (by simp) a
  case pooled =>
    intro a
    have hpool := hs.pooled a
    rw [World.spawn_taskPool] at hpool
    rw [World.spawn_taskPool, World.recycle_taskPool]
    by_cases ha : a = t
    · subst ha
      rw [Multiset.count_cons_self, hpool, hown]
      simp
    · rw [Multiset.count_cons_of_ne ha, hpool, Function.update_of_ne ha]
  case fresh => exact fun _ ha => hs.fresh_update (by simp [hown]) _ ha
  case clean =>
    intro a ha
    by_cases hat : a = t
    · subst hat
      rw [World.spawn_heap, World.recycle_heap_self]
      rfl
    · rw [Function.update_of_ne hat] at ha
      rw [World.spawn_heap, World.recycle_heap_of_ne s hat]
      exact hs.clean a ha
  case fits =>
    intro th hth
    rw [World.spawn_threads, Multiset.mem_cons, World.recycle_threads] at hth
    rcases hth with rfl | hth
    · trivial
    · apply (hs.fits th (Multiset.mem_cons_of_mem hth)).frame
      intro a ha
      apply World.recycle_heap_of_ne
      rintro rfl
      rw [halone th hth] at ha
      cases ha
  case queued => exact fun p' _ ha => hs.queued_update (hqueue p') _ ha
  case nodup => exact hs.nodup
  case spells =>
    intro p'
    apply (hs.spells p').frame
    intro a ha
    rw [World.spawn_heap, World.spawn_heap, World.recycle_heap_of_ne]
    rintro rfl
    exact hqueue p' ha
  case tail => exact hs.tail

theorem Shape.push (hs : Shape (s.spawn (.caller p job (.enqueue t))) own q)
    (hth : s₁.threads = s.threads) (htp : s₁.taskPool = s.taskPool)
    (hnext : s₁.nextAddr = s.nextAddr) (hpools : ∀ p', p' ≠ p → s₁.pools p' = s.pools p')
    (hheap : ∀ a, a ∉ addrs (q p) → s₁.heap a = s.heap a)
    (hspells : Spells Task.next Task.job (fun a => some (s₁.heap a)) (s₁.pools p).taskHead
      (q p ++ [(t, job)]))
    (htail : (s₁.pools p).taskTail = some t) :
    Shape (s₁.spawn (.caller p job .addTaskCount)) (Function.update own t (.queued p))
      (Function.update q p (q p ++ [(t, job)])) := by
  obtain ⟨hown, hnone, halone⟩ := hs.alone (t := t) (by simp [Thread.holds])
  have hcount : ∀ a, s₁.count (Thread.holds a) = s.count (Thread.holds a) := by
    intro a
    unfold World.count
    rw [hth]
  have hqueue : ∀ p', t ∉ addrs (q p') := hs.not_mem_addrs (by simp [hown])
  have howned : ∀ a, own a ≠ .queued p → s₁.heap a = s.heap a := by
    intro a ha
    apply hheap
    intro hmem
    exact ha (hs.queued p a hmem)
  constructor
  case held =>
    intro a
    have hfree : ∀ a, (Thread.caller p job .addTaskCount).holds a = false := fun _ => rfl
    rw [World.count_spawn, hcount]
    exact hs.held_update (fun _ => rfl) hfree (by simp) a
  case pooled =>
    intro a
    rw [World.spawn_taskPool, htp]
    exact hs.pooled_update (by simp [hown]) (by simp) a
  case fresh => exact fun _ ha => hs.fresh_update (by simp [hown]) _ (hnext ▸ ha)
  case clean =>
    intro a ha
    obtain ⟨-, hpooled⟩ := pooled_of_update ha nofun
    rw [World.spawn_heap, howned a (by simp [hpooled])]
    exact hs.clean a hpooled
  case fits =>
    intro th hth'
    rw [World.spawn_threads, Multiset.mem_cons, hth] at hth'
    rcases hth' with rfl | hth'
    · trivial
    · apply (hs.fits th (Multiset.mem_cons_of_mem hth')).frame
      intro a ha
      apply howned
      intro hqa
      have hheld := hs.held a
      have hpos := World.count_pos.mpr ⟨th, hth', ha⟩
      rw [World.count_spawn, if_neg (by simp [hqa])] at hheld
      omega
  case queued =>
    intro p' a ha
    by_cases hp : p' = p
    · subst hp
      rw [Function.update_self, addrs_append, List.mem_append] at ha
      by_cases hat : a = t
      · rw [hat, Function.update_self]
      · rw [Function.update_of_ne hat]
        exact hs.queued p' a (ha.resolve_right (by simpa using hat))
    · rw [Function.update_of_ne hp] at ha
      exact hs.queued_update (hqueue p') _ ha
  case nodup =>
    intro p'
    by_cases hp : p' = p
    · subst hp
      rw [Function.update_self, addrs_append]
      refine List.nodup_append.mpr ⟨hs.nodup p', List.nodup_singleton t, ?_⟩
      rintro a ha b hb rfl
      obtain rfl : a = t := by simpa using hb
      exact hqueue p' ha
    · rw [Function.update_of_ne hp]
      exact hs.nodup p'
  case spells =>
    intro p'
    by_cases hp : p' = p
    · subst hp
      rw [Function.update_self]
      exact hspells
    · rw [Function.update_of_ne hp, World.spawn_pools, hpools p' hp]
      apply (hs.spells p').frame
      intro a ha
      rw [World.spawn_heap, howned a]
      · rfl
      · rw [hs.queued p' a ha]
        simpa using hp
  case tail =>
    intro p' hne
    by_cases hp : p' = p
    · subst hp
      rw [Function.update_self, addrs_append]
      simp [htail]
    · rw [Function.update_of_ne hp] at hne ⊢
      rw [World.spawn_pools, hpools p' hp]
      exact hs.tail p' hne

theorem Shape.pop {l : List (Nat × Job)} (hs : Shape (s.spawn (.worker p .take)) own q)
    (hq : q p = (t, job) :: l) (pool : Pool) (hhead : pool.taskHead = (s.heap t).next)
    (htail : pool.taskTail = (s.pools p).taskTail) :
    Shape ((s.setPool p pool).spawn (.worker p (.run t job))) (Function.update own t .held)
      (Function.update q p l) := by
  have hown : own t = .queued p := hs.queued p t (by simp [hq])
  have hspells := hs.spells p
  rw [hq] at hspells
  obtain ⟨-, c, hc, hjob, hl⟩ := hspells
  obtain rfl := Option.some.inj hc
  have hnd := hs.nodup p
  rw [hq, addrs_cons, List.nodup_cons] at hnd
  constructor
  case held =>
    intro a
    rw [World.count_spawn, World.count_setPool]
    have hheld := hs.held a
    rw [World.count_spawn] at hheld
    by_cases ha : a = t
    · subst ha
      simp only [hown] at hheld
      simpa [Thread.holds] using hheld
    · simpa [Thread.holds, ha, Ne.symm ha] using hheld
  case pooled => exact hs.pooled_update (by simp [hown]) (by simp)
  case fresh => exact fun _ ha => hs.fresh_update (by simp [hown]) _ ha
  case clean => exact fun a ha => hs.clean a (pooled_of_update ha nofun).2
  case fits =>
    intro th hth
    rw [World.spawn_threads, Multiset.mem_cons] at hth
    rcases hth with rfl | hth
    · exact hjob
    · exact hs.fits th (Multiset.mem_cons_of_mem hth)
  case queued =>
    intro p' a ha
    by_cases hp : p' = p
    · subst hp
      rw [Function.update_self] at ha
      rw [Function.update_of_ne]
      · exact hs.queued p' a (by simp [hq, ha])
      · rintro rfl
        exact hnd.1 ha
    · rw [Function.update_of_ne hp] at ha
      refine hs.queued_update (fun hmem => ?_) _ ha
      have hqa := hs.queued p' t hmem
      rw [hown] at hqa
      exact hp (Owner.queued.inj hqa).symm
  case nodup =>
    intro p'
    by_cases hp : p' = p
    · subst hp
      rw [Function.update_self]
      exact hnd.2
    · rw [Function.update_of_ne hp]
      exact hs.nodup p'
  case spells =>
    intro p'
    by_cases hp : p' = p
    · subst hp
      rw [Function.update_self, World.spawn_pools, World.setPool_pools_self, hhead]
      exact hl
    · rw [Function.update_of_ne hp, World.spawn_pools, World.setPool_pools_of_ne s pool hp]
      exact hs.spells p'
  case tail =>
    intro p' hne
    by_cases hp : p' = p
    · subst hp
      rw [Function.update_self] at hne ⊢
      rw [World.spawn_pools, World.setPool_pools_self, htail]
      have htail := hs.tail p' (by simp [hq])
      rw [World.spawn_pools, hq, addrs_cons] at htail
      rw [htail, List.getLast?_cons]
      cases l with
      | nil => exact absurd rfl hne
      | cons x l => simp [List.getLast?_cons]
    · rw [Function.update_of_ne hp] at hne ⊢
      rw [World.spawn_pools, World.setPool_pools_of_ne s pool hp]
      exact hs.tail p' hne

theorem Shape.owner_of_pooled (hs : Shape s own q) (ht : t ∈ s.taskPool) : own t = .pooled := by
  have hpooled := hs.pooled t
  have hpos := Multiset.count_pos.mpr ht
  by_contra hne
  rw [if_neg hne] at hpooled
  omega

/-- An object leaves the `sync.Pool`. -/
theorem Shape.count_erase (hs : Shape s own q) (ht : t ∈ s.taskPool) {o : Owner} (ho : o ≠ .pooled)
    (a : Nat) : (s.taskPool.erase t).count a = if Function.update own t o a = .pooled then 1 else 0 := by
  have hpa := hs.pooled a
  by_cases ha : a = t
  · subst ha
    rw [if_pos (hs.owner_of_pooled ht)] at hpa
    simp [Multiset.count_erase_self, hpa, ho]
  · rw [Multiset.count_erase_of_ne ha, hpa, Function.update_of_ne ha]

theorem Shape.drop (hs : Shape s own q) (ht : t ∈ s.taskPool) :
    Shape { s with taskPool := s.taskPool.erase t } (Function.update own t .nobody) q := by
  have hown := hs.owner_of_pooled ht
  constructor
  case held =>
    intro a
    refine (hs.held a).trans ?_
    by_cases ha : a = t
    · subst ha
      simp [hown]
    · rw [Function.update_of_ne ha]
  case pooled => exact hs.count_erase ht (by simp)
  case fresh => exact fun _ ha => hs.fresh_update (by simp [hown]) _ ha
  case clean => exact fun a ha => hs.clean a (pooled_of_update ha nofun).2
  case fits => exact hs.fits
  case queued => exact fun p _ ha => hs.queued_update (hs.not_mem_addrs (by simp [hown]) p) _ ha
  case nodup => exact hs.nodup
  case spells => exact hs.spells
  case tail => exact hs.tail

/-- The object enqueued by the critical section of `CtxGo` is the last of the queue. -/
theorem Shape.enqueue (hs : Shape (s.spawn (.caller p job (.enqueue t))) own q)
    (h : s.enqueue p job t = some s₁) :
    Shape (s₁.spawn (.caller p job .addTaskCount)) (Function.update own t (.queued p))
      (Function.update q p (q p ++ [(t, job)])) := by
  have hobj : s.heap t = ⟨job, none⟩ := hs.fits _ (Multiset.mem_cons_self _ _)
  have hown := (hs.alone (t := t) (by simp [Thread.holds])).1
  have hqt : t ∉ addrs (q p) := hs.not_mem_addrs (by simp [hown]) p
  have hspells := hs.spells p
  rcases enqueue_some h with ⟨hhead, rfl⟩ | ⟨head, tail, hhead, htail, rfl⟩
  · have hq : q p = [] := by
      cases hq : q p with
      | nil => rfl
      | cons x l =>
        rw [hq, World.spawn_pools, hhead] at hspells
        exact absurd hspells.1 (by simp)
    refine hs.push rfl rfl rfl ?_ ?_ ?_ ?_
    · exact fun p' hp => World.setPool_pools_of_ne s _ hp
    · exact fun a _ => rfl
    · rw [hq]
      simp [Spells, hobj]
    · simp
  · have hne : q p ≠ [] := by
      intro hq
      rw [hq, World.spawn_pools, hhead] at hspells
      cases hspells
    obtain ⟨l, ⟨a, b⟩, hl⟩ := (q p).eq_nil_or_concat.resolve_left hne
    rw [List.concat_eq_append] at hl
    have hlast := hs.tail p hne
    rw [World.spawn_pools, htail, hl, addrs_append] at hlast
    obtain rfl : tail = a := by simpa using hlast
    have hne' : t ≠ tail := by
      rintro rfl
      exact hqt (by simp [hl])
    refine hs.push rfl rfl rfl ?_ ?_ ?_ ?_
    · exact fun p' hp => World.setPool_pools_of_ne _ _ hp
    · intro a ha
      apply World.setTask_heap_of_ne
      rintro rfl
      exact ha (by simp [hl])
    · have hnd := hs.nodup p
      rw [hl] at hspells hnd
      obtain ⟨_, -, c, hc, -, hend⟩ := hspells.suffix
      obtain rfl := Option.some.inj hc
      rw [hl, List.append_assoc, World.setPool_pools_self, World.setPool_heap]
      apply hspells.insert_after hnd rfl
      case hc' => exact congrArg some (World.setTask_heap_self s tail _)
      case hcn => exact congrArg some ((World.setTask_heap_of_ne s _ hne').trans hobj)
      case hnext => rfl
      case hval => rfl
      case hnn => exact hend.symm
      case hvn => rfl
      case hsame =>
        intro x _ hx
        exact congrArg some (World.setTask_heap_of_ne s _ hx)
    · simp

end Moves

/-! ## The books of a pool -/

/-- A worker of pool `p` that has taken `job` and not finished it. -/
def Thread.runs (p : Nat) (job : Job) : Thread → Bool
  | .worker p' (.run _ job') => p' = p ∧ job' = job
  | _ => false

/-- A call that has enqueued its task and not yet counted it in `taskCount`. -/
def Thread.uncounted (p : Nat) : Thread → Bool
  | .caller p' _ .addTaskCount => p' = p
  | _ => false

/-- The history and the counter of a pool agree with the jobs `l` in its queue. -/
structure Books (s : World) (p : Nat) (l : List Job) : Prop where
  order : (s.pools p).submitted = (s.pools p).taken ++ l
  conserve : ∀ job, (s.pools p).taken.count job =
    s.count (Thread.runs p job) + (s.pools p).finished.count job
  count : (s.pools p).taskCount = wrap 32 (l.length - s.count (Thread.uncounted p))

theorem ofPool_runs (p : Nat) (job : Job) : OfPool p (Thread.runs p job) := by
  intro t ht
  unfold Thread.runs at ht
  split at ht <;> simp_all [Thread.pool]

theorem ofPool_uncounted (p : Nat) : OfPool p (Thread.uncounted p) := by
  intro t ht
  unfold Thread.uncounted at ht
  split at ht <;> simp_all [Thread.pool]

theorem Books.other {s' : World} {e : Event} {p : Nat} {l : List Job} (hb : Books s p l)
    (hm : Moves s e s') (hp : e.pool ≠ some p) : Books s' p l := by
  obtain ⟨hpool, hcount⟩ := moves_other hm hp
  constructor
  · rw [hpool]
    exact hb.order
  · intro job
    rw [hpool, hcount _ (ofPool_runs p job)]
    exact hb.conserve job
  · rw [hpool, hcount _ (ofPool_uncounted p)]
    exact hb.count

/-- The invariant of the queues. -/
structure Queues (s : World) (own : Nat → Owner) (q : Nat → List (Nat × Job)) : Prop where
  shape : Shape s own q
  books : ∀ p, Books s p ((q p).map Prod.snd)

theorem Queues.of_pool {s' : World} {e : Event} {p : Nat} {own' : Nat → Owner}
    {l : List (Nat × Job)} (hq : Queues s own q) (hm : Moves s e s') (hp : e.pool = some p)
    (hs : Shape s' own' (Function.update q p l)) (hb : Books s' p (l.map Prod.snd)) :
    ∃ own' q', Queues s' own' q' := by
  refine ⟨own', Function.update q p l, hs, fun p' => ?_⟩
  by_cases hpp : p' = p
  · subst hpp
    rw [Function.update_self]
    exact hb
  · rw [Function.update_of_ne hpp]
    apply (hq.books p').other hm
    rw [hp]
    exact fun he => hpp (Option.some.inj he).symm

theorem Queues.of_same {s' : World} {e : Event} {p : Nat} {own' : Nat → Owner}
    (hq : Queues s own q) (hm : Moves s e s') (hp : e.pool = some p) (hs : Shape s' own' q)
    (hb : Books s' p ((q p).map Prod.snd)) : ∃ own' q', Queues s' own' q' := by
  rw [← Function.update_eq_self p q] at hs
  exact hq.of_pool hm hp hs hb

/-! ## Steps that the queues do not see -/

/-- A thread that holds no object, runs no task and has counted what it enqueued. -/
def Thread.idle : Thread → Bool
  | .caller _ _ (.enqueue _) => false
  | .caller _ _ .addTaskCount => false
  | .caller _ _ _ => true
  | .worker _ .take => true
  | .worker _ _ => false

theorem idle_kinds {th : Thread} (h : th.idle = true) :
    (∀ a, th.holds a = false) ∧ (∀ p job, th.runs p job = false) ∧
      (∀ p, th.uncounted p = false) ∧ ∀ heap, th.Fits heap := by
  unfold Thread.idle at h
  split at h <;> simp_all [Thread.holds, Thread.runs, Thread.uncounted, Thread.Fits]

/-- Idle threads may come and go. -/
theorem queues_spawn_idle {th : Thread} (h : th.idle = true) :
    Queues (s.spawn th) own q ↔ Queues s own q := by
  obtain ⟨hholds, hruns, hunc, hfits⟩ := idle_kinds h
  constructor
  · rintro ⟨hs, hb⟩
    constructor
    · refine hs.quiet rfl rfl rfl (fun _ => ⟨rfl, rfl⟩) ?_ ?_
      · intro a
        simp [hholds a]
      · exact fun th' hth' => hs.fits th' (Multiset.mem_cons_of_mem hth')
    · intro p
      obtain ⟨horder, hconserve, hcount⟩ := hb p
      simp only [World.spawn_pools, World.count_spawn, hruns, hunc] at horder hconserve hcount
      exact ⟨horder, hconserve, hcount⟩
  · rintro ⟨hs, hb⟩
    constructor
    · refine hs.quiet rfl rfl rfl (fun _ => ⟨rfl, rfl⟩) ?_ ?_
      · intro a
        simp [hholds a]
      · intro th' hth'
        rcases Multiset.mem_cons.mp hth' with rfl | hth'
        · exact hfits s.heap
        · exact hs.fits th' hth'
    · intro p
      obtain ⟨horder, hconserve, hcount⟩ := hb p
      constructor
      · exact horder
      · simpa [hruns] using hconserve
      · simpa [hunc] using hcount

/-- Neither `cap` nor `workerCount` matters to the queues. -/
theorem Queues.setPool {p : Nat} (hq : Queues s own q) (cap workerCount : Int) :
    Queues (s.setPool p { s.pools p with cap := cap, workerCount := workerCount }) own q := by
  obtain ⟨hs, hb⟩ := hq
  constructor
  · exact hs.quiet rfl rfl rfl (setPool_ends s rfl rfl) (fun _ => rfl) hs.fits
  · intro p'
    obtain ⟨horder, hconserve, hcount⟩ := hb p'
    by_cases hp : p' = p
    · subst hp
      constructor
      · simpa using horder
      · simpa using hconserve
      · simpa using hcount
    · constructor
      · simpa [hp] using horder
      · simpa [hp] using hconserve
      · simpa [hp] using hcount

/-! ## Every step -/

theorem queues_get {s' : World} {p : Nat} {job : Job} {pick : Option Nat}
    (hq : Queues (s.spawn (.caller p job .get)) own q) (h : s.ctxGo p job pick .get = some s') :
    ∃ own' q', Queues s' own' q' := by
  have hm : Moves (s.spawn (.caller p job .get)) (.caller p job .get pick) s' := .caller h
  have hs := hq.shape
  obtain ⟨⟨s₁, t⟩, h₁, rfl⟩ := Option.map_eq_some_iff.mp h
  obtain ⟨hpools, hcount⟩ := getTask_frame h₁
  have hs' : Shape (s₁.spawn (.caller p job (.enqueue t))) (Function.update own t .held) q := by
    rcases getTask_some h₁ with ⟨rfl, rfl⟩ | ⟨ht, rfl⟩
    · have hown : own s.nextAddr = .nobody := hs.fresh _ le_rfl
      refine hs.acquire rfl rfl (fun a ha => World.setTask_heap_of_ne _ _ ha)
        (World.setTask_heap_self _ _ _) (Or.inl hown) ?_ ?_
      · intro a
        refine (hs.pooled a).trans ?_
        by_cases ha : a = s.nextAddr
        · subst ha
          simp [hown]
        · rw [Function.update_of_ne ha]
      · intro a ha
        simp only [World.setTask_nextAddr] at ha
        omega
    · have hown : own t = .pooled := hs.owner_of_pooled ht
      refine hs.acquire rfl rfl (fun a ha => World.setTask_heap_of_ne _ _ ha) ?_
        (Or.inr hown) (hs.count_erase ht (by simp)) ?_
      · rw [World.setTask_heap_self, show (s.heap t).next = none from hs.clean t hown]
      · intro a ha
        refine ⟨ha, ?_⟩
        rintro rfl
        have hfresh := hs.fresh a ha
        rw [hown] at hfresh
        cases hfresh
  refine hq.of_same hm rfl hs' ?_
  obtain ⟨horder, hconserve, hcnt⟩ := hq.books p
  constructor
  · simpa [hpools] using horder
  · simpa [hpools, hcount, Thread.runs] using hconserve
  · simpa [hpools, hcount, Thread.uncounted] using hcnt

theorem queues_enqueue {s' : World} {p t : Nat} {job : Job} {pick : Option Nat}
    (hq : Queues (s.spawn (.caller p job (.enqueue t))) own q)
    (h : s.ctxGo p job pick (.enqueue t) = some s') : ∃ own' q', Queues s' own' q' := by
  have hm : Moves (s.spawn (.caller p job (.enqueue t))) (.caller p job (.enqueue t) pick) s' :=
    .caller h
  obtain ⟨s₁, h₁, rfl⟩ := Option.map_eq_some_iff.mp h
  refine hq.of_pool hm rfl (hq.shape.enqueue h₁) ?_
  have hcount : ∀ f, s₁.count f = s.count f := (enqueue_frame h₁).2.2.2
  have hpool : (s₁.pools p).submitted = (s.pools p).submitted ++ [job] ∧
      (s₁.pools p).taken = (s.pools p).taken ∧ (s₁.pools p).finished = (s.pools p).finished ∧
      (s₁.pools p).taskCount = (s.pools p).taskCount := by
    rcases enqueue_some h₁ with ⟨-, rfl⟩ | ⟨_, _, -, -, rfl⟩ <;> simp
  obtain ⟨horder, hconserve, hcnt⟩ := hq.books p
  simp only [World.spawn_pools, World.count_spawn] at horder hconserve hcnt
  constructor
  · simp [hpool, horder]
  · simpa [hpool, hcount, Thread.runs] using hconserve
  · simp only [World.spawn_pools, World.count_spawn, hpool, hcount, hcnt, Thread.uncounted,
      List.map_append, List.map_cons, List.map_nil, List.length_append, List.length_cons,
      List.length_nil, Bool.toNat_false, decide_true, Bool.toNat_true]
    refine congrArg (wrap 32) ?_
    omega

theorem queues_addTaskCount {p : Nat} {job : Job}
    (hq : Queues (s.spawn (.caller p job .addTaskCount)) own q) :
    ∃ own' q', Queues ((s.setPool p { s.pools p with
      taskCount := wrap 32 ((s.pools p).taskCount + 1) }).spawn (.caller p job .loadTaskCount))
        own' q' := by
  refine hq.of_same (@Moves.caller s _ p job .addTaskCount none rfl) rfl
    (hq.shape.replace rfl rfl rfl rfl (setPool_ends s rfl rfl) (fun _ => rfl) trivial) ?_
  obtain ⟨horder, hconserve, hcnt⟩ := hq.books p
  constructor
  · simpa using horder
  · simpa [Thread.runs] using hconserve
  · simp only [World.spawn_pools, World.count_spawn, Thread.uncounted, decide_true, Bool.toNat_true]
      at hcnt
    simp only [World.spawn_pools, World.setPool_pools_self, World.count_spawn, World.count_setPool,
      Thread.uncounted, Bool.toNat_false, hcnt, wrap_add]
    refine congrArg (wrap 32) ?_
    omega

theorem queues_ctxGo {s' : World} {p : Nat} {job : Job} {pick : Option Nat} {pc : CallerPc}
    (hq : Queues (s.spawn (.caller p job pc)) own q) (h : s.ctxGo p job pick pc = some s') :
    ∃ own' q', Queues s' own' q' := by
  cases pc with
  | get => exact queues_get hq h
  | enqueue t => exact queues_enqueue hq h
  | addTaskCount =>
    cases h
    exact queues_addTaskCount hq
  | loadTaskCount | loadCap w =>
    rw [queues_spawn_idle rfl] at hq
    simp only [World.ctxGo] at h
    split_ifs at h <;> cases h <;> exact ⟨own, q, (queues_spawn_idle rfl).mpr hq⟩
  | loadWorkerCount | runWorker =>
    rw [queues_spawn_idle rfl] at hq
    cases h
    exact ⟨own, q, (queues_spawn_idle rfl).mpr hq⟩
  | checkZero =>
    rw [queues_spawn_idle rfl] at hq
    simp only [World.ctxGo] at h
    split_ifs at h <;> cases h
    · exact ⟨own, q, (queues_spawn_idle rfl).mpr hq⟩
    · exact ⟨own, q, hq⟩
  | incrWorkerCount =>
    rw [queues_spawn_idle rfl] at hq
    cases h
    exact ⟨own, q, (queues_spawn_idle rfl).mpr (hq.setPool _ _)⟩

theorem queues_workerRun {s' : World} {p : Nat} {pc : WorkerPc}
    (hq : Queues (s.spawn (.worker p pc)) own q) (h : s.workerRun p pc = some s') :
    ∃ own' q', Queues s' own' q' := by
  have hm : Moves (s.spawn (.worker p pc)) (.worker p pc) s' := .worker h
  obtain ⟨horder, hconserve, hcnt⟩ := hq.books p
  simp only [World.spawn_pools, World.count_spawn] at horder hconserve hcnt
  cases pc with
  | take =>
    simp only [World.workerRun] at h
    split at h
    · next t hhead =>
      cases h
      have hspells := hq.shape.spells p
      cases hqp : q p with
      | nil =>
        rw [hqp, World.spawn_pools, hhead] at hspells
        cases hspells
      | cons x l =>
        rw [hqp, World.spawn_pools, hhead] at hspells
        obtain ⟨hx, c, hc, hjob, -⟩ := hspells
        obtain rfl := Option.some.inj hc
        obtain ⟨t', job⟩ := x
        obtain rfl : t = t' := Option.some.inj hx
        obtain rfl : (s.heap t).job = job := hjob
        refine hq.of_pool hm rfl (hq.shape.pop hqp _ rfl rfl) ?_
        rw [hqp] at horder hcnt
        constructor
        · simp [horder]
        · intro job
          have hc := hconserve job
          by_cases he : (s.heap t).job = job
          · simp [Thread.runs, he] at hc ⊢
            omega
          · simpa [Thread.runs, he] using hc
        · simp only [List.map_cons, List.length_cons, Thread.uncounted, Bool.toNat_false] at hcnt
          simp only [World.spawn_pools, World.setPool_pools_self, World.count_spawn,
            World.count_setPool, Thread.uncounted, Bool.toNat_false, hcnt, Int.sub_eq_add_neg,
            wrap_add]
          refine congrArg (wrap 32) ?_
          omega
    · cases h
      rw [queues_spawn_idle rfl] at hq
      exact ⟨own, q, hq.setPool _ _⟩
  | run t job =>
    cases h
    have hjob : (s.heap t).job = job := hq.shape.fits _ (Multiset.mem_cons_self _ _)
    refine hq.of_same hm rfl (hq.shape.replace rfl rfl rfl rfl (setPool_ends s rfl rfl)
      (fun _ => rfl) trivial) ?_
    constructor
    · simpa using horder
    · intro job'
      have hc := hconserve job'
      by_cases he : job = job'
      · simp [Thread.runs, hjob, he] at hc ⊢
        omega
      · simpa [Thread.runs, hjob, he] using hc
    · simpa [Thread.uncounted] using hcnt
  | recycle t =>
    cases h
    refine hq.of_same hm rfl hq.shape.release ?_
    constructor
    · simpa using horder
    · simpa [Thread.runs] using hconserve
    · simpa [Thread.uncounted] using hcnt

theorem queues_step {s' : World} {e : Event} (hq : Queues s own q) (h : s.step e = some s') :
    ∃ own' q', Queues s' own' q' := by
  have hm := moves_of_step h
  cases hm with
  | call s p job => exact ⟨own, q, (queues_spawn_idle rfl).mpr hq⟩
  | caller h => exact queues_ctxGo hq h
  | worker h => exact queues_workerRun hq h
  | setCap s p cap => exact ⟨own, q, hq.setPool _ _⟩
  | @drop s t ht =>
    refine ⟨Function.update own t .nobody, q, hq.shape.drop ht, fun p => ?_⟩
    obtain ⟨horder, hconserve, hcnt⟩ := hq.books p
    exact ⟨horder, hconserve, hcnt⟩

theorem queues_initial (cap scaleThreshold : Nat → Int) :
    Queues (initial cap scaleThreshold) (fun _ => .nobody) (fun _ => []) where
  shape :=
    { held := fun a => by simp [count_initial]
      pooled := fun a => by simp [initial]
      fresh := fun _ _ => rfl
      clean := fun _ _ => rfl
      fits := fun th hth => absurd hth (Multiset.notMem_zero th)
      queued := fun p a ha => absurd ha List.not_mem_nil
      nodup := fun _ => List.nodup_nil
      spells := fun _ => rfl
      tail := fun _ hne => absurd rfl hne }
  books := fun p =>
    { order := rfl
      conserve := fun job => by
        rw [count_initial]
        rfl
      count := by
        rw [count_initial]
        rfl }

theorem queues_reachable (h : machine.Reachable s) : ∃ own q, Queues s own q := by
  apply h.invariant fun s => ∃ own q, Queues s own q
  · rintro s ⟨cap, scaleThreshold, rfl⟩
    exact ⟨_, _, queues_initial cap scaleThreshold⟩
  · rintro s e s' - ⟨own, q, hq⟩ - hs
    exact queues_step hq hs

/-- In every reachable state of a pool the links from `taskHead` spell a queue that ends at
`taskTail`. Tasks leave it in the order they entered; each submitted task is queued, running or
finished, and none is in two of these places; and `taskCount` is the length of the queue, less the
calls that have enqueued and not yet counted, as a machine integer of 32 bits. -/
theorem queue_conserves (h : machine.Reachable s) (p : Nat) :
    ∃ queue : List (Nat × Job),
      Spells Task.next Task.job (fun a => some (s.heap a)) (s.pools p).taskHead queue ∧
      (addrs queue).Nodup ∧
      (queue ≠ [] → (s.pools p).taskTail = (addrs queue).getLast?) ∧
      (s.pools p).submitted = (s.pools p).taken ++ queue.map Prod.snd ∧
      (∀ job, (s.pools p).submitted.count job = (queue.map Prod.snd).count job +
        s.count (Thread.runs p job) + (s.pools p).finished.count job) ∧
      (s.pools p).taskCount = wrap 32 (queue.length - s.count (Thread.uncounted p)) ∧
      (Fits 32 (queue.length - s.count (Thread.uncounted p)) →
        (s.pools p).taskCount = queue.length - s.count (Thread.uncounted p)) := by
  obtain ⟨own, q, hs, hb⟩ := queues_reachable h
  obtain ⟨horder, hconserve, hcount⟩ := hb p
  rw [List.length_map] at hcount
  refine ⟨q p, hs.spells p, hs.nodup p, hs.tail p, horder, fun job => ?_, hcount, fun hfits => ?_⟩
  · rw [horder, List.count_append, hconserve job]
    omega
  · rw [hcount, wrap_of_fits (by decide) hfits]

/-- Two tasks are submitted, and a worker has taken the first. -/
theorem queue_conserves_two :
    ∃ s, machine.Reachable s ∧
      (s.pools 0).submitted = [⟨none, some 7⟩, ⟨none, some 8⟩] ∧
      (s.pools 0).taken = [⟨none, some 7⟩] ∧
      ∃ queue : List (Nat × Job), queue.map Prod.snd = [⟨none, some 8⟩] ∧
        (s.pools 0).taskCount = wrap 32 (queue.length - s.count (Thread.uncounted 0)) := by
  have hrun : (machine.run (initial (fun _ => 1) fun _ => 1)
      [.call 0 ⟨none, some 7⟩, .call 0 ⟨none, some 8⟩, .caller 0 ⟨none, some 7⟩ .get none,
        .caller 0 ⟨none, some 7⟩ (.enqueue 0) none, .caller 0 ⟨none, some 8⟩ .get none,
        .caller 0 ⟨none, some 8⟩ (.enqueue 1) none, .caller 0 ⟨none, some 7⟩ .addTaskCount none,
        .caller 0 ⟨none, some 7⟩ .loadTaskCount none, .caller 0 ⟨none, some 7⟩ .loadWorkerCount none,
        .caller 0 ⟨none, some 7⟩ (.loadCap 0) none, .caller 0 ⟨none, some 7⟩ .incrWorkerCount none,
        .caller 0 ⟨none, some 7⟩ .runWorker none, .worker 0 .take]).map
      (fun s => ((s.pools 0).submitted, (s.pools 0).taken)) =
      some ([⟨none, some 7⟩, ⟨none, some 8⟩], [⟨none, some 7⟩]) := by
    decide
  obtain ⟨s, hreach, hobs⟩ := Machine.observed_of_run hrun ⟨_, _, rfl⟩
  obtain ⟨hsub, htaken⟩ := Prod.mk.inj hobs
  obtain ⟨queue, -, -, -, horder, -, hcount, -⟩ := queue_conserves hreach 0
  refine ⟨s, hreach, hsub, htaken, queue, ?_, hcount⟩
  rw [hsub, htaken] at horder
  exact (List.cons.inj horder).2.symm

end OwnX.Gopool
