import OwnX.Task.Rounds
import OwnX.Task.Proofs.AllocatorProofs
import OwnX.Foundations.Proofs.MachineProofs

/-!
# The steps of a round

What a `batchDoneTask`, a `SyncPartitionDone` and a new map do to the nodes, in terms of the
partitions that each node sees.
-/

namespace OwnX.Task

/-- The plan that `StartAlloc` publishes. -/
def Plan.ofStartAlloc (names : List String) (round : Int) : Plan round where
  partitions := roundPartitions names round
  nodeName_eq := fun _ _ h => by
    obtain ⟨i, -, rfl⟩ := roundPartitions_eq_some h
    rfl
  round_eq := fun _ _ h => by
    obtain ⟨i, -, rfl⟩ := roundPartitions_eq_some h
    rfl
  fresh := fun _ _ h => by
    obtain ⟨i, -, rfl⟩ := roundPartitions_eq_some h
    exact ⟨rfl, rfl⟩

/-- The partition of the `i`-th of `n` nodes when its only batch is done, as it is published. -/
def donePartition (n : Nat) (round : Int) (i : Nat) (name : String) : Partition :=
  (newPartition n round i name).credit

@[simp]
theorem Partition.reset_credit (p : Partition) : p.credit.reset = p.reset := rfl

/-- A partition without progress is its own plan. -/
theorem Plan.reset_eq {round : Int} (plan : Plan round) {name : String} {p : Partition}
    (h : plan.partitions name = some p) : p.reset = p := by
  obtain ⟨hdone, hfin⟩ := plan.fresh name p h
  cases p
  simp_all [Partition.reset]

/-- A map is that of the plan, up to progress. -/
def Plan.Fits {round : Int} (plan : Plan round) (np : Partitions) : Prop :=
  ∀ u, (np u).map Partition.reset = plan.partitions u

namespace Plan.Fits

variable {round : Int} {plan : Plan round} {np : Partitions} {u : String} {q : Partition}

theorem self (plan : Plan round) : plan.Fits plan.partitions := by
  intro u
  cases hp : plan.partitions u with
  | none => rfl
  | some p => exact congrArg some (plan.reset_eq hp)

variable (h : plan.Fits np)
include h

theorem eq_some (hq : np u = some q) : plan.partitions u = some q.reset := by
  rw [← h u, hq]
  rfl

theorem nodeName_eq (hq : np u = some q) : q.nodeName = u := plan.nodeName_eq u q.reset (h.eq_some hq)

theorem round_eq (hq : np u = some q) : q.round = round := plan.round_eq u q.reset (h.eq_some hq)

theorem exists_of_isSome (hp : (plan.partitions u).isSome) : ∃ q, np u = some q := by
  rw [← h u, Option.isSome_map] at hp
  exact Option.isSome_iff_exists.1 hp

end Plan.Fits

namespace Nodes

variable {T : Type} {names : List String} {s : Nodes T}

/-- The node `name` writes the partition of `other` in its map. -/
def write (s : Nodes T) (name other : String) (p : Partition) : Nodes T :=
  { s with allocator := Function.update s.allocator name ((s.allocator name).setPartition other p) }

@[simp]
theorem sees_write (s : Nodes T) (v other v' other' : String) (p : Partition) :
    (s.write v other p).sees v' other' =
      if v' = v ∧ other' = other then some p else s.sees v' other' := by
  by_cases hv : v' = v
  · subst hv
    simp [sees, write]
  · simp [sees, write, hv]

/-- A write that keeps the plan leaves a map of the plan. -/
theorem fits_write {round : Int} {plan : Plan round} {v other : String} {q q' : Partition}
    (h : plan.Fits (s.sees v)) (hq : s.sees v other = some q) (hreset : q'.reset = q.reset) :
    plan.Fits ((s.write v other q').sees v) := by
  intro u
  rw [sees_write]
  split
  · rename_i heq
    rw [heq.2, h.eq_some hq, Option.map_some, hreset]
  · exact h u

theorem sees_write_of_ne {v v' : String} (hv : v' ≠ v) (other : String) (p : Partition) :
    (s.write v other p).sees v' = s.sees v' := by
  funext u
  rw [sees_write, if_neg fun heq => hv heq.1]

/-- A `batchDoneTask` leaves its worker. -/
def take (s : Nodes T) (t : Marker) : Nodes T :=
  { s with tasks := s.tasks.erase t, ran := insert t s.ran }

/-- The alive nodes with a partition in the map of `name`. -/
def told (names : List String) (s : Nodes T) (name : String) : List String :=
  (names.filter fun other => (s.sees name other).isSome).dedup

/-- What a `batchDoneTask` may do. -/
inductive Runs (names : List String) (s : Nodes T) (t : Marker) : Nodes T → Prop where
  /-- The node has no partition. -/
  | missing (hown : s.own t.1 = none) : Runs names s t (s.take t)
  /-- It is not the last batch. -/
  | counted {p : Partition} (hown : s.own t.1 = some p)
      (hlt : p.finBatchCount + 1 < p.batchCount) :
      Runs names s t ((s.take t).write t.1 t.1 p.credit)
  /-- It is the last batch, and the node sees all others done. -/
  | called {p : Partition} (hown : s.own t.1 = some p)
      (hle : p.batchCount ≤ p.finBatchCount + 1)
      (hall : ∀ name ∈ names, name ≠ t.1 → ∀ q ∈ s.sees t.1 name, p.nodeName = name ∨ q.roundDone) :
      Runs names s t
        { (s.take t).write t.1 t.1 p.credit with calls := s.calls ++ [(t.1, p.round)] }
  /-- It is the last batch, and the node sees another that is not done. -/
  | published {p : Partition} (hown : s.own t.1 = some p)
      (hle : p.batchCount ≤ p.finBatchCount + 1)
      (hex : ∃ name ∈ names, name ≠ t.1 ∧ ∃ q ∈ s.sees t.1 name,
        p.nodeName ≠ name ∧ q.roundDone = false) :
      Runs names s t
        { (s.take t).write t.1 t.1 p.credit with
          messages := s.messages + Multiset.ofList ((s.told names t.1).map (·, p.credit)) }

/-! ## The effects of a call -/

@[simp]
theorem myName_view (names : List String) (name : String) (ips : Slice) :
    (view names name ips).myName = name := rfl

theorem settle_nil (s : Nodes T) (name : String) (round : Int) (a : Allocator T) :
    s.settle name round { allocator := a } =
      { s with allocator := Function.update s.allocator name a } := by
  simp [settle]

theorem settle_roundDone (s : Nodes T) (name : String) (round r : Int) (a : Allocator T) :
    s.settle name round { allocator := a, effects := [.roundDone r] } =
      { s with
        allocator := Function.update s.allocator name a
        calls := s.calls ++ [(name, r)] } := by
  simp [settle, Effect.markers, Effect.messages, Effect.calls]

theorem settle_publishJob (s : Nodes T) (name : String) (round : Int) (a : Allocator T)
    (others : List String) (pt : Partition) :
    s.settle name round
        { allocator := a
          effects := [.publishJob Job.syncPartitionDone (jobList others (.partition pt))] } =
      { s with
        allocator := Function.update s.allocator name a
        messages := s.messages + Multiset.ofList (others.dedup.map (·, pt)) } := by
  simp [settle, Effect.markers, Effect.messages, Effect.calls, jobList, List.filterMap_map]

theorem settle_puts (s : Nodes T) (name : String) (round : Int) {o : Outcome T}
    (hmessages : o.effects.flatMap Effect.messages = [])
    (hcalls : o.effects.flatMap Effect.calls = []) :
    s.settle name round o =
      { s with
        allocator := Function.update s.allocator name o.allocator
        tasks := s.tasks +
          Multiset.ofList ((o.effects.flatMap Effect.markers).map (name, round, ·)) } := by
  simp [settle, hmessages, hcalls]

/-- Of the updated map, only the entries of the others matter for `allAliveNodePartitionDone`: the
node's own one is done. -/
theorem allAliveNodePartitionDone_credit {t : Marker} {p : Partition}
    (hle : p.batchCount ≤ p.finBatchCount + 1) :
    ((s.allocator t.1).setPartition t.1 p.credit).allAliveNodePartitionDone (view names t.1) p.credit ↔
      ∀ name ∈ names, name ≠ t.1 → ∀ q ∈ s.sees t.1 name, p.nodeName = name ∨ q.roundDone := by
  have hdone : p.credit.roundDone = true := by simp [Partition.credit, hle]
  rw [Allocator.allAliveNodePartitionDone_iff]
  refine forall₂_congr fun name _ => ?_
  by_cases hname : name = t.1
  · simp [hname, hdone]
  · simp [hname, sees, Partition.credit]

/-- The intersection of the updated map is that of the map before: the node has a partition in it. -/
theorem intersectionNodeNames_credit {t : Marker} {p : Partition} (hown : s.own t.1 = some p) :
    ((s.allocator t.1).setPartition t.1 p.credit).intersectionNodeNames (view names t.1) =
      names.filter fun other => (s.sees t.1 other).isSome := by
  refine List.filter_congr fun other _ => ?_
  by_cases hother : other = t.1
  · have hsees : s.sees t.1 t.1 = some p := hown
    simp [hother, hsees]
  · simp [hother, sees]

theorem runTask_runs (names : List String) (s : Nodes T) (t : Marker) :
    Runs names s t (s.runTask names t) := by
  rw [runTask]
  cases hown : s.own t.1 with
  | none =>
    have hnone : (s.allocator t.1).nodePartition (view names t.1).myName = none := hown
    rw [Allocator.partitionDone_of_none hnone, settle_nil, Function.update_eq_self]
    exact .missing hown
  | some p =>
    have hsome : (s.allocator t.1).nodePartition (view names t.1).myName = some p := hown
    rw [Allocator.partitionDone_of_some hsome]
    by_cases hlt : p.finBatchCount + 1 < p.batchCount
    · rw [if_pos hlt, settle_nil]
      exact .counted hown hlt
    have hle := Int.not_lt.1 hlt
    rw [if_neg hlt, Allocator.finish_eq, myName_view, intersectionNodeNames_credit hown]
    split
    · rename_i hall
      rw [settle_roundDone]
      exact .called hown hle ((allAliveNodePartitionDone_credit hle).1 hall)
    · rename_i hall
      rw [settle_publishJob]
      rw [allAliveNodePartitionDone_credit hle] at hall
      push Not at hall
      exact .published hown hle (by simpa using hall)

/-- A `batchDoneTask` counts its batch in the node's own partition, and goes on after the last one. -/
theorem countTask_eq (s : Nodes T) (t : Marker) :
    s.countTask t =
      match s.own t.1 with
      | none => s.take t
      | some p =>
        { (s.take t).write t.1 t.1 p.credit with
          ending := s.ending + if p.finBatchCount + 1 < p.batchCount then 0 else {(t.1, p.credit)} } := by
  unfold countTask
  cases hown : s.own t.1 with
  | none =>
    rw [Allocator.countBatch_of_none hown]
    simp [take]
  | some p =>
    rw [Allocator.countBatch_of_some hown]
    by_cases hlt : p.finBatchCount + 1 < p.batchCount
    · simp [hlt, take, write]
    · simp [hlt, take, write]

/-- What `partitionDone` may do after the last batch. -/
inductive Concludes (names : List String) (s : Nodes T) (e : String × Partition) : Nodes T → Prop where
  /-- The node sees all others done. -/
  | called (hall : ∀ name ∈ names, ∀ q ∈ s.sees e.1 name, e.2.nodeName = name ∨ q.roundDone) :
      Concludes names s e
        { s with ending := s.ending.erase e, calls := s.calls ++ [(e.1, e.2.round)] }
  /-- The node sees another that is not done. -/
  | published : Concludes names s e
      { s with
        ending := s.ending.erase e
        messages := s.messages + Multiset.ofList ((s.told names e.1).map (·, e.2)) }

theorem conclude_concludes (names : List String) (s : Nodes T) (e : String × Partition) :
    Concludes names s e (s.conclude names e) := by
  unfold conclude
  rw [Allocator.finish_eq]
  split
  · next hall =>
    rw [settle_roundDone, Function.update_eq_self]
    exact .called (Allocator.allAliveNodePartitionDone_iff.1 hall)
  · rw [settle_publishJob, Function.update_eq_self]
    exact .published

/-- What a `SyncPartitionDone` does: it is written where the node has a partition of that name. -/
theorem deliver_eq (s : Nodes T) (m : String × Partition) :
    s.deliver m =
      match s.sees m.1 m.2.nodeName with
      | none => { s with messages := s.messages.erase m }
      | some q => { s with messages := s.messages.erase m }.write m.1 m.2.nodeName
          { q with roundDone := m.2.roundDone } := by
  rw [deliver]
  cases hsees : s.sees m.1 m.2.nodeName with
  | none =>
    rw [Allocator.syncPartitionDone_of_none hsees, settle_nil, Function.update_eq_self]
  | some q =>
    rw [Allocator.syncPartitionDone_of_some hsees, settle_nil]
    rfl

/-- A new map replaces the old one, and puts a `batchDoneTask` only for batches of the node's
partition in it. -/
theorem install_eq (names : List String) (s : Nodes T) (name : String) (round : Int)
    (np : Partitions) (ips : Slice) :
    ∃ markers : List Marker,
      (∀ t ∈ markers, t.1 = name ∧ t.2.1 = round ∧ ∃ p ∈ np name, t.2.2 < p.batchCount.toNat) ∧
      s.install names name round np ips =
        { s with
          installed := insert (name, round) s.installed
          allocator := Function.update s.allocator name { s.allocator name with nodePartition := np }
          tasks := s.tasks + Multiset.ofList markers } := by
  let a : Allocator T := { s.allocator name with nodePartition := np }
  let effects := (a.roundRun (view names name ips)).effects
  have hput : ∀ e ∈ effects, ∃ p ∈ np name, ∃ index < p.batchCount.toNat, ∃ (tasks : List T) (sent : Nat),
      e = .put (tasks.map .built ++ [.batchDone index]) sent := by
    intro e he
    obtain ⟨p, hp, index, hindex, -, -, -, -, tasks, sent, -, rfl⟩ := Allocator.mem_effects_roundRun he
    exact ⟨p, hp, index, hindex, tasks, sent, rfl⟩
  have hmarkers : ∀ index ∈ effects.flatMap Effect.markers, ∃ p ∈ np name, index < p.batchCount.toNat := by
    intro index hindex
    obtain ⟨e, he, hindex⟩ := List.mem_flatMap.1 hindex
    obtain ⟨p, hp, i, hi, tasks, sent, rfl⟩ := hput e he
    have heq : index = i := by
      obtain ⟨t, ht, hindex⟩ := List.mem_filterMap.1 hindex
      rcases List.mem_append.1 (List.mem_of_mem_take ht) with ht | ht
      · obtain ⟨t', -, rfl⟩ := List.mem_map.1 ht
        cases hindex
      · rw [List.mem_singleton.1 ht] at hindex
        exact (Option.some.inj hindex).symm
    exact ⟨p, hp, heq ▸ hi⟩
  have hmessages : effects.flatMap Effect.messages = [] := by
    refine List.flatMap_eq_nil_iff.2 fun e he => ?_
    obtain ⟨p, -, i, -, tasks, sent, rfl⟩ := hput e he
    rfl
  have hcalls : effects.flatMap Effect.calls = [] := by
    refine List.flatMap_eq_nil_iff.2 fun e he => ?_
    obtain ⟨p, -, i, -, tasks, sent, rfl⟩ := hput e he
    rfl
  refine ⟨(effects.flatMap Effect.markers).map (name, round, ·), ?_, ?_⟩
  · intro t ht
    obtain ⟨index, hindex, rfl⟩ := List.mem_map.1 ht
    exact ⟨rfl, rfl, hmarkers index hindex⟩
  · rw [install, Allocator.syncPartitions, settle_puts _ _ _ hmessages hcalls,
      Allocator.allocator_roundRun]

theorem turn_cases {e : Turn} {s' : Nodes T} (h : s.turn names e = some s') :
    (∃ t ∈ s.tasks, e = .task t ∧ s' = s.runTask names t) ∨
      ∃ m ∈ s.messages, e = .deliver m ∧ s' = s.deliver m := by
  cases e with
  | task t =>
    obtain ⟨ht, hs'⟩ := Option.ite_none_right_eq_some.1 h
    exact .inl ⟨t, ht, rfl, (Option.some.inj hs').symm⟩
  | deliver m =>
    obtain ⟨hm, hs'⟩ := Option.ite_none_right_eq_some.1 h
    exact .inr ⟨m, hm, rfl, (Option.some.inj hs').symm⟩

end Nodes

end OwnX.Task
