import OwnX.Task.Allocator
import Mathlib.Data.List.TakeWhile

/-!
# What the allocator's functions do

One equation for each function that writes a partition, and what the loops put and publish.
-/

namespace OwnX.Task

/-- A partition after one more `batchDoneTask`. -/
def Partition.credit (p : Partition) : Partition :=
  { p with
    finBatchCount := p.finBatchCount + 1
    roundDone := p.roundDone || decide (p.batchCount ≤ p.finBatchCount + 1) }

/-- A slice within the capacity has the length that its bounds say. -/
theorem Slice.slice_of_le (s : Slice) {lo n : Nat} (h : lo + n ≤ s.capacity) :
    ∃ l, s.slice lo (lo + n) = some l ∧ l.length = n := by
  have hlen := s.length_le
  refine ⟨_, if_pos ⟨Nat.le_add_right lo n, h⟩, ?_⟩
  rw [List.length_take, List.length_drop, List.length_append, List.length_replicate]
  omega

/-- A slice that is not a panic is within the capacity. -/
theorem Slice.length_of_slice (s : Slice) {lo n : Nat} {l : List String}
    (h : s.slice lo (lo + n) = some l) : lo + n ≤ s.capacity ∧ l.length = n := by
  have hcap : lo + n ≤ s.capacity := by
    unfold Slice.slice at h
    split at h
    · next hfits => exact hfits.2
    · cases h
  obtain ⟨l', hl', hlen⟩ := s.slice_of_le hcap
  rw [hl', Option.some.injEq] at h
  exact ⟨hcap, h ▸ hlen⟩

/-- Bounds within the length do not reach the rest of the array. -/
theorem Slice.slice_of_le_length (s : Slice) {lo n : Nat} (h : lo + n ≤ s.elems.length) :
    s.slice lo (lo + n) = some ((s.elems.drop lo).take n) := by
  have hcap := s.length_le
  unfold Slice.slice
  rw [if_pos ⟨Nat.le_add_right lo n, by omega⟩, List.drop_append_of_le_length (by omega),
    Nat.add_sub_cancel_left, List.take_append_of_le_length]
  rw [List.length_drop]
  omega

namespace Allocator

variable {T : Type} {a : Allocator T} {view : View} {p : Partition}

@[simp]
theorem nodePartition_setPartition (a : Allocator T) (name other : String) (p : Partition) :
    (a.setPartition name p).nodePartition other =
      if other = name then some p else a.nodePartition other := by
  simp [setPartition, Function.update_apply]

/-! ## The end of a round -/

theorem countBatch_of_none {myName : String} (h : a.nodePartition myName = none) :
    a.countBatch myName = (a, none) := by
  simp [countBatch, h]

theorem countBatch_of_some {myName : String} (h : a.nodePartition myName = some p) :
    a.countBatch myName =
      (a.setPartition myName p.credit,
        if p.finBatchCount + 1 < p.batchCount then none else some p.credit) := by
  by_cases hlt : p.finBatchCount + 1 < p.batchCount
  · have hc : p.credit = { p with finBatchCount := p.finBatchCount + 1 } := by
      simp [Partition.credit, Int.not_le.2 hlt]
    simp [countBatch, h, hlt, hc]
  · have hc : p.credit = { p with finBatchCount := p.finBatchCount + 1, roundDone := true } := by
      simp [Partition.credit, Int.not_lt.1 hlt]
    simp [countBatch, h, hlt, hc]

theorem partitionDone_of_none (h : a.nodePartition view.myName = none) :
    a.partitionDone view = { allocator := a } := by
  simp [partitionDone, countBatch_of_none h]

theorem partitionDone_of_some (h : a.nodePartition view.myName = some p) :
    a.partitionDone view =
      { allocator := a.setPartition view.myName p.credit
        effects := if p.finBatchCount + 1 < p.batchCount then []
          else (a.setPartition view.myName p.credit).finish view p.credit } := by
  unfold partitionDone
  rw [countBatch_of_some h]
  split_ifs <;> rfl

theorem allAliveNodePartitionDone_iff :
    a.allAliveNodePartitionDone view p ↔
      ∀ name ∈ view.aliveNodeNames, ∀ q ∈ a.nodePartition name, p.nodeName = name ∨ q.roundDone := by
  simp only [allAliveNodePartitionDone, intersectionNodeNames, List.all_eq_true, List.mem_filter,
    and_imp]
  refine forall₂_congr fun name _ => ?_
  cases a.nodePartition name with
  | none => simp
  | some q => simp

/-- The test for an empty intersection makes no difference: `allAliveNodePartitionDone` holds then. -/
theorem finish_eq (a : Allocator T) (view : View) (p : Partition) :
    a.finish view p =
      if a.allAliveNodePartitionDone view p then [.roundDone p.round]
      else [.publishJob Job.syncPartitionDone
        (jobList (a.intersectionNodeNames view) (.partition p))] := by
  by_cases hnil : a.intersectionNodeNames view = []
  · simp [finish, allAliveNodePartitionDone, hnil]
  · simp [finish, List.isEmpty_iff, hnil]

theorem syncPartitionDone_of_none {pt : Partition} (h : a.nodePartition pt.nodeName = none) :
    a.syncPartitionDone (.partition pt) = { allocator := a } := by
  simp [syncPartitionDone, h]

theorem syncPartitionDone_of_some {pt : Partition} (h : a.nodePartition pt.nodeName = some p) :
    a.syncPartitionDone (.partition pt) =
      { allocator := a.setPartition pt.nodeName { p with roundDone := pt.roundDone } } := by
  simp [syncPartitionDone, h]

/-! ## Calls one after the other -/

end Allocator

namespace Outcome

variable {T : Type} {a : Allocator T} {o : Outcome T} {turns : List (Outcome T)}

theorem andThen_of_none (h : o.panic = none) (next : Outcome T) :
    o.andThen next =
      { next with effects := o.effects ++ next.effects, handed := o.handed ++ next.handed } := by
  simp [andThen, h]

theorem andThen_of_some {r : Panic} (h : o.panic = some r) (next : Outcome T) : o.andThen next = o := by
  simp [andThen, h]

theorem andThen_assoc (o next last : Outcome T) :
    (o.andThen next).andThen last = o.andThen (next.andThen last) := by
  obtain ⟨a, effects, handed, panic⟩ := o
  obtain ⟨a', effects', handed', panic'⟩ := next
  cases panic with
  | some r => rfl
  | none =>
    cases panic' with
    | some r => rfl
    | none => simp [andThen]

/-- Some calls, one after the other until one panics. -/
def seq (a : Allocator T) (turns : List (Outcome T)) : Outcome T :=
  turns.foldr andThen { allocator := a }

theorem seq_cons (a : Allocator T) (o : Outcome T) (turns : List (Outcome T)) :
    seq a (o :: turns) = o.andThen (seq a turns) := rfl

theorem seq_append (a : Allocator T) (turns later : List (Outcome T)) :
    seq a (turns ++ later) = (seq a turns).andThen (seq a later) := by
  induction turns with
  | nil => rfl
  | cons o turns ih => rw [List.cons_append, seq_cons, seq_cons, ih, andThen_assoc]

theorem allocator_seq (h : ∀ o ∈ turns, o.allocator = a) : (seq a turns).allocator = a := by
  induction turns with
  | nil => rfl
  | cons o turns ih =>
    have hlater := ih fun o' ho' => h o' (List.mem_cons_of_mem _ ho')
    rw [seq_cons]
    cases ho : o.panic with
    | some r =>
      rw [andThen_of_some ho]
      exact h o List.mem_cons_self
    | none =>
      rw [andThen_of_none ho]
      exact hlater

theorem mem_effects_seq {e : Effect T} (h : e ∈ (seq a turns).effects) : ∃ o ∈ turns, e ∈ o.effects := by
  induction turns with
  | nil => cases h
  | cons o turns ih =>
    rw [seq_cons] at h
    cases ho : o.panic with
    | some r =>
      rw [andThen_of_some ho] at h
      exact ⟨o, List.mem_cons_self, h⟩
    | none =>
      rw [andThen_of_none ho] at h
      rcases List.mem_append.1 h with h | h
      · exact ⟨o, List.mem_cons_self, h⟩
      · obtain ⟨o', ho', he⟩ := ih h
        exact ⟨o', List.mem_cons_of_mem _ ho', he⟩

theorem panic_seq_eq_none : (seq a turns).panic = none ↔ ∀ o ∈ turns, o.panic = none := by
  induction turns with
  | nil => simp [seq]
  | cons o turns ih =>
    rw [seq_cons]
    cases ho : o.panic with
    | some r => simp [andThen_of_some ho, ho]
    | none => simp [andThen_of_none ho, ho, ih]

theorem panic_seq_eq_some {r : Panic} (h : (seq a turns).panic = some r) :
    ∃ o ∈ turns, o.panic = some r := by
  induction turns with
  | nil => cases h
  | cons o turns ih =>
    rw [seq_cons] at h
    cases ho : o.panic with
    | some r' =>
      rw [andThen_of_some ho] at h
      exact ⟨o, List.mem_cons_self, h⟩
    | none =>
      rw [andThen_of_none ho] at h
      obtain ⟨o', ho', hr⟩ := ih h
      exact ⟨o', List.mem_cons_of_mem _ ho', hr⟩

theorem handed_seq_prefix (a : Allocator T) (turns : List (Outcome T)) :
    (seq a turns).handed <+: turns.flatMap handed := by
  induction turns with
  | nil => exact List.nil_prefix
  | cons o turns ih =>
    rw [seq_cons, List.flatMap_cons]
    cases ho : o.panic with
    | some r =>
      rw [andThen_of_some ho]
      exact List.prefix_append _ _
    | none =>
      rw [andThen_of_none ho]
      exact (List.prefix_append_right_inj _).2 ih

theorem handed_seq (h : ∀ o ∈ turns.dropLast, o.panic = none) :
    (seq a turns).handed = turns.flatMap handed := by
  induction turns with
  | nil => rfl
  | cons o turns ih =>
    rw [seq_cons, List.flatMap_cons]
    cases turns with
    | nil => cases ho : o.panic <;> simp [andThen, ho, seq]
    | cons o' turns =>
      rw [List.dropLast_cons_cons] at h
      rw [andThen_of_none (h o List.mem_cons_self), ih fun x hx => h x (List.mem_cons_of_mem _ hx)]

/-- Only the last call may have panicked if all of them were made. -/
theorem panic_of_handed_seq (hone : ∀ o ∈ turns, o.handed ≠ [])
    (h : (seq a turns).handed = turns.flatMap handed) : ∀ o ∈ turns.dropLast, o.panic = none := by
  induction turns with
  | nil => simp
  | cons o turns ih =>
    cases turns with
    | nil => simp
    | cons o' turns =>
      rw [seq_cons, List.flatMap_cons] at h
      have hnone : o.panic = none := by
        by_contra hsome
        obtain ⟨r, hr⟩ := Option.ne_none_iff_exists'.1 hsome
        rw [andThen_of_some hr, List.self_eq_append_right, List.flatMap_cons] at h
        exact hone o' (by simp) (List.append_eq_nil_iff.1 h).1
      rw [andThen_of_none hnone] at h
      rw [List.dropLast_cons_cons]
      intro x hx
      rcases List.mem_cons.1 hx with rfl | hx
      · exact hnone
      · exact ih (fun y hy => hone y (List.mem_cons_of_mem _ hy)) (List.append_cancel_left h) x hx

end Outcome

namespace Allocator

variable {T : Type} {a : Allocator T} {view : View} {p : Partition}

/-! ## What a round puts -/

theorem panic_put_eq_none (tasks : List (Queued T)) :
    (a.put tasks).panic = none ↔ ∀ t ∈ tasks, a.hasBucket t = true := by
  have hle := (List.takeWhile_prefix a.hasBucket (l := tasks)).length_le
  have hall : ¬ (tasks.takeWhile a.hasBucket).length < tasks.length ↔
      ∀ t ∈ tasks, a.hasBucket t = true := by
    rw [← List.takeWhile_eq_self_iff]
    constructor
    · intro h
      exact (List.takeWhile_prefix a.hasBucket).eq_of_length (by omega)
    · intro h
      rw [h]
      omega
  rw [← hall]
  show (if _ then _ else _) = none ↔ _
  split <;> simp_all

theorem panic_callFunc_eq_none (l : List String) (behind : List (Queued T)) (k : Nat)
    (f : List String → Option (List T)) :
    (a.callFunc l behind k f).panic = none ↔
      ∀ tasks, f l = some tasks → ∀ t ∈ tasks.map .built ++ behind, a.hasBucket t = true := by
  unfold callFunc
  cases f l with
  | none => simp
  | some tasks =>
    simp only [Option.some.injEq, forall_eq']
    exact panic_put_eq_none _

/-- `Put` does not cut any slice. -/
theorem panic_callFunc_ne_slice (l : List String) (behind : List (Queued T)) (k : Nat)
    (f : List String → Option (List T)) : (a.callFunc l behind k f).panic ≠ some .slice := by
  unfold callFunc
  cases f l with
  | none => simp
  | some tasks =>
    show (if _ then _ else _) ≠ some Panic.slice
    split <;> simp

theorem allocator_callFunc (l : List String) (behind : List (Queued T)) (k : Nat)
    (f : List String → Option (List T)) : (a.callFunc l behind k f).allocator = a := by
  unfold callFunc
  split <;> rfl

theorem handed_callFunc (l : List String) (behind : List (Queued T)) (k : Nat)
    (f : List String → Option (List T)) : (a.callFunc l behind k f).handed = [(k, l)] := by
  unfold callFunc
  split <;> rfl

theorem mem_callFunc {l : List String} {behind : List (Queued T)} {k : Nat}
    {f : List String → Option (List T)} {e : Effect T} (h : e ∈ (a.callFunc l behind k f).effects) :
    ∃ tasks sent, f l = some tasks ∧ e = .put (tasks.map .built ++ behind) sent := by
  unfold callFunc at h
  split at h
  · cases h
  · next tasks htasks => exact ⟨tasks, _, htasks, List.mem_singleton.1 h⟩

/-- The turns of a loop over registered functions. -/
def turns (a : Allocator T) (l : List String) (behind : List (Queued T)) (k : Nat)
    (fs : List (List String → Option (List T))) : List (Outcome T) :=
  (fs.zipIdx k).map fun x => a.callFunc l behind x.2 x.1

theorem callFuncs_eq (a : Allocator T) (l : List String) (behind : List (Queued T)) (k : Nat)
    (fs : List (List String → Option (List T))) :
    a.callFuncs l behind k fs = .seq a (a.turns l behind k fs) := by
  induction fs generalizing k with
  | nil => rfl
  | cons f fs ih =>
    rw [callFuncs, ih]
    rfl

theorem mem_turns {l : List String} {behind : List (Queued T)} {k : Nat}
    {fs : List (List String → Option (List T))} {o : Outcome T} :
    o ∈ a.turns l behind k fs ↔ ∃ f j, (f, j) ∈ fs.zipIdx k ∧ o = a.callFunc l behind j f := by
  simp [turns, eq_comm]

/-- A loop over registered functions puts what they return. -/
theorem mem_callFuncs {l : List String} {behind : List (Queued T)} {k : Nat}
    {fs : List (List String → Option (List T))} {e : Effect T}
    (h : e ∈ (a.callFuncs l behind k fs).effects) :
    ∃ f ∈ fs, ∃ tasks sent, f l = some tasks ∧ e = .put (tasks.map .built ++ behind) sent := by
  rw [callFuncs_eq] at h
  obtain ⟨o, ho, he⟩ := Outcome.mem_effects_seq h
  obtain ⟨f, j, hf, rfl⟩ := mem_turns.1 ho
  obtain ⟨tasks, sent, htasks, rfl⟩ := mem_callFunc he
  exact ⟨f, List.fst_mem_of_mem_zipIdx hf, tasks, sent, htasks, rfl⟩

/-- The turns of the loop of `roundRun`, in the order of the batches. A slice out of range is a turn of
its own. -/
def roundTurns (a : Allocator T) (view : View) (p : Partition) (index : Nat) : List (Outcome T) :=
  match view.aliveNodeIps.slice index (index + p.batchCount.toNat) with
  | none => [{ allocator := a, panic := some .slice }]
  | some l =>
    if 0 < l.length then a.turns l [.batchDone index] 0 (a.taskBuildFuncs.map fun f => f p.round) else []

theorem buildBatches_eq (a : Allocator T) (view : View) (p : Partition) (rest : List Nat) :
    a.buildBatches view p rest = .seq a (rest.flatMap (a.roundTurns view p)) := by
  induction rest with
  | nil => rfl
  | cons index rest ih =>
    rw [buildBatches, List.flatMap_cons, Outcome.seq_append, ← ih, roundTurns]
    cases view.aliveNodeIps.slice index (index + p.batchCount.toNat) with
    | none => rfl
    | some l =>
      simp only [buildBatch]
      split_ifs
      · rw [callFuncs_eq]
      · rfl

theorem roundRun_eq (hp : a.nodePartition view.myName = some p) :
    a.roundRun view = .seq a ((List.range p.batchCount.toNat).flatMap (a.roundTurns view p)) := by
  rw [roundRun, hp]
  exact buildBatches_eq a view p _

theorem allocator_roundTurns {index : Nat} {o : Outcome T} (h : o ∈ a.roundTurns view p index) :
    o.allocator = a := by
  unfold roundTurns at h
  split at h
  · rw [List.mem_singleton.1 h]
  · split at h
    · obtain ⟨f, j, -, rfl⟩ := mem_turns.1 h
      exact allocator_callFunc ..
    · cases h

/-- `roundRun` only puts the tasks of build functions, with a `batchDoneTask` of one of its batches at the
end of each list. -/
theorem mem_effects_roundRun {e : Effect T} (h : e ∈ (a.roundRun view).effects) :
    ∃ p ∈ a.nodePartition view.myName, ∃ index < p.batchCount.toNat, ∃ l,
      view.aliveNodeIps.slice index (index + p.batchCount.toNat) = some l ∧
      ∃ f ∈ a.taskBuildFuncs, ∃ tasks sent, f p.round l = some tasks ∧
        e = .put (tasks.map .built ++ [.batchDone index]) sent := by
  cases hp : a.nodePartition view.myName with
  | none => simp [roundRun, hp] at h
  | some p =>
    rw [roundRun_eq hp] at h
    obtain ⟨o, ho, he⟩ := Outcome.mem_effects_seq h
    obtain ⟨index, hindex, ho⟩ := List.mem_flatMap.1 ho
    refine ⟨p, rfl, index, List.mem_range.1 hindex, ?_⟩
    unfold roundTurns at ho
    split at ho
    · rw [List.mem_singleton.1 ho] at he
      cases he
    · next l hl =>
      split at ho
      · obtain ⟨f, j, hf, rfl⟩ := mem_turns.1 ho
        obtain ⟨tasks, sent, htasks, rfl⟩ := mem_callFunc he
        obtain ⟨g, hg, rfl⟩ := List.mem_map.1 (List.fst_mem_of_mem_zipIdx hf)
        exact ⟨l, hl, g, hg, tasks, sent, htasks, rfl⟩
      · cases ho

@[simp]
theorem allocator_roundRun (a : Allocator T) (view : View) : (a.roundRun view).allocator = a := by
  cases hp : a.nodePartition view.myName with
  | none => simp [roundRun, hp]
  | some p =>
    rw [roundRun_eq hp]
    refine Outcome.allocator_seq fun o ho => ?_
    obtain ⟨index, -, ho⟩ := List.mem_flatMap.1 ho
    exact allocator_roundTurns ho

end Allocator

/-! ## The map of a round -/

theorem foldl_addPartition_eq_some {n : Nat} {round : Int} {l : List (String × Nat)}
    {np : Partitions} {name : String} {p : Partition}
    (h : l.foldl (addPartition n round) np name = some p) :
    np name = some p ∨ ∃ i, (name, i) ∈ l ∧ p = newPartition n round i name := by
  induction l generalizing np with
  | nil => exact .inl h
  | cons x l ih =>
    rcases ih h with hx | ⟨i, hi, hp⟩
    · rw [addPartition, Function.update_apply] at hx
      split at hx
      · rename_i hname
        subst hname
        exact .inr ⟨x.2, List.mem_cons_self, (Option.some.inj hx).symm⟩
      · exact .inl hx
    · exact .inr ⟨i, List.mem_cons_of_mem _ hi, hp⟩

/-- Every entry of the map that `StartAlloc` builds is a new partition of the node it is stored for. -/
theorem roundPartitions_eq_some {names : List String} {round : Int} {name : String} {p : Partition}
    (h : roundPartitions names round name = some p) :
    ∃ i, (name, i) ∈ names.zipIdx ∧ p = newPartition names.length round i name := by
  rcases foldl_addPartition_eq_some h with hnone | hsome
  · cases hnone
  · exact hsome

end OwnX.Task
