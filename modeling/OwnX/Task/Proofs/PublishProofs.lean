import OwnX.Task.Publish
import OwnX.Task.Proofs.AllocatorProofs
import OwnX.Nio.Proofs.HandlerProofs

/-!
# Published jobs on another node

Every registered function asserts the type of its data and returns when the assertion fails. What JSON
yields for an `interface{}` is of none of these types, so a job that comes in a frame has no effect.
-/

namespace OwnX.Task

variable {T : Type}

/-! ## The remote path -/

/-- Decoded data is of no type that a registered function asserts. -/
theorem Allocator.pushTask_untyped (a : Allocator T) (view : View) (name : String) (u : Untyped) :
    a.pushTask view ⟨name, .untyped u⟩ = { allocator := a } := by
  unfold pushTask taskRegistry
  by_cases h₁ : name = Job.syncPartition
  · simp [h₁, syncPartitions]
  by_cases h₂ : name = Job.syncPartitionDone
  · simp [h₂, Job.syncPartition, Job.syncPartitionDone, Allocator.syncPartitionDone]
  by_cases h₃ : name = Job.manualCutInLine
  · simp [h₃, Job.syncPartition, Job.syncPartitionDone, Job.manualCutInLine, cutInLine]
  · simp [h₁, h₂, h₃]

theorem Published.remote_eq (c : Nio.DefaultCodec JobInfo) (unmarshal : Unmarshal) (a : Allocator T)
    (view : View) (p : Published) : p.remote c unmarshal a view = { allocator := a } :=
  a.pushTask_untyped view _ _

/-- The frame of a job, however the connection cuts it, has the effect of the remote path on the node
that reads it. -/
theorem Published.receiveJobs_frame (c : Nio.DefaultCodec JobInfo) (ordered : Bool)
    (hinv : c.gzip = true → ∀ d, Nio.unGzip c.packages (some (Nio.gzip c.packages d)) = some d)
    (unmarshal : Unmarshal) (a : Allocator T) (view : View) (p : Published)
    (hfit : (Nio.bodyBytes c (some (.value p.job))).length + 1 < 2 ^ 32) (chunks : List Nio.Bytes)
    (hcut : chunks.flatten = Nio.encode c msgSPublishJob (some (.value p.job))) (fuel : Nat)
    (hfuel : chunks.flatten.length < fuel) :
    ∃ s, Nio.readIo c ordered fuel (chunks.map .data) = some s ∧
      a.receiveJobs view unmarshal s.delivered = p.remote c unmarshal a view := by
  obtain ⟨s, hread, hdelivered, -, -⟩ := Nio.readIo_encode c ordered hinv
    [(msgSPublishJob, some (.value p.job))] (by simpa using hfit) chunks (by simpa using hcut) fuel hfuel
  refine ⟨s, hread, ?_⟩
  rw [List.map_singleton, List.map_eq_singleton_iff] at hdelivered
  obtain ⟨m, hm, hpair⟩ := hdelivered
  obtain ⟨hflag, hdata⟩ := Prod.mk.inj hpair
  rw [hm, Allocator.receiveJobs, Allocator.receiveJobs, if_pos hflag, hdata]
  simp only [List.append_nil, Option.or_none]
  rfl

/-! ## The direct path -/

/-- A call shows nothing exactly if none of the tasks is sent that it has to put. -/
def Outcome.Shows (a : Allocator T) (o : Outcome T) (tasks : List (Queued T)) : Prop :=
  o.effects.flatMap Effect.seen = [] ↔ Published.NothingSent a tasks

namespace Allocator

variable {a : Allocator T} {view : View} {p : Partition} {next : Outcome T} {later : List (Queued T)}

theorem shows_idle (a : Allocator T) (r : Option Panic) :
    Outcome.Shows a { allocator := a, panic := r } [] := by
  simp [Outcome.Shows, Published.NothingSent]

/-- Nothing comes after a task without a bucket, and nothing is sent of an empty list. -/
theorem shows_put (h : next.Shows a later) (tasks : List (Queued T)) (handed : List (Nat × List String)) :
    ({ a.put tasks with handed }.andThen next).Shows a (tasks ++ later) := by
  cases tasks with
  | nil =>
    rw [Outcome.andThen_of_none rfl]
    simpa [Outcome.Shows, put, Effect.seen] using h
  | cons t tasks =>
    have hseen : ({ a.put (t :: tasks) with handed }.andThen next).effects.flatMap Effect.seen = [] ↔
        a.hasBucket t = false := by
      cases ht : a.hasBucket t with
      | false =>
        have hpanic : (a.put (t :: tasks)).panic = some .index := by simp [put, ht]
        rw [Outcome.andThen_of_some (o := { a.put (t :: tasks) with handed }) hpanic]
        simp [put, ht, Effect.seen]
      | true =>
        cases hpanic : (a.put (t :: tasks)).panic with
        | some r =>
          rw [Outcome.andThen_of_some (o := { a.put (t :: tasks) with handed }) hpanic]
          simp [put, ht, Effect.seen]
        | none =>
          rw [Outcome.andThen_of_none (o := { a.put (t :: tasks) with handed }) hpanic]
          simp [put, ht, Effect.seen]
    rw [Outcome.Shows, hseen]
    simp [Published.NothingSent]

theorem shows_callFuncs (h : next.Shows a later) (l : List String) (behind : List (Queued T)) (k : Nat)
    (fs : List (List String → Option (List T))) :
    ((a.callFuncs l behind k fs).andThen next).Shows a
      ((fs.flatMap fun f =>
        match f l with
        | none => []
        | some tasks => tasks.map .built ++ behind) ++ later) := by
  induction fs generalizing k with
  | nil => exact h
  | cons f fs ih =>
    rw [callFuncs, Outcome.andThen_assoc, List.flatMap_cons, List.append_assoc]
    have ih := ih (k + 1)
    unfold callFunc
    cases f l with
    | none =>
      rw [Outcome.andThen_of_none rfl]
      exact ih
    | some tasks => exact shows_put ih (tasks.map .built ++ behind) [(k, l)]

/-- The loop of `roundRun` over the batches from `k` on. A slice out of range ends it, and the slices
behind are out of range as well. -/
theorem shows_buildBatches (n k : Nat) (hk : k + n ≤ p.batchCount.toNat) :
    (a.buildBatches view p (List.range' k n)).Shows a
      ((List.range' k n).flatMap (Published.batchTasks a view p)) := by
  induction n generalizing k with
  | zero => exact shows_idle a none
  | succ n ih =>
    have ih := ih (k + 1) (by omega)
    rw [List.range'_succ, buildBatches, List.flatMap_cons]
    cases hl : view.aliveNodeIps.slice k (k + p.batchCount.toNat) with
    | none =>
      have hlater : ∀ index, k ≤ index → Published.batchTasks a view p index = [] := by
        intro index hle
        have hout : view.aliveNodeIps.slice index (index + p.batchCount.toNat) = none := by
          unfold Slice.slice at hl ⊢
          simp only [ite_eq_right_iff, reduceCtorEq, imp_false] at hl ⊢
          omega
        rw [Published.batchTasks, hout]
      have hnil : (List.range' (k + 1) n).flatMap (Published.batchTasks a view p) = [] := by
        refine List.flatMap_eq_nil_iff.2 fun index hindex => hlater index ?_
        have hrange := List.mem_range'_1.1 hindex
        omega
      rw [hlater k (Nat.le_refl k), hnil]
      exact shows_idle a _
    | some l =>
      have hpos : 0 < l.length := by
        obtain ⟨hin, rfl⟩ := Option.ite_none_right_eq_some.1 hl |>.imp_right Option.some.inj
        have hlen := view.aliveNodeIps.length_le
        simp only [List.length_take, List.length_drop, List.length_append, List.length_replicate]
        omega
      have h := shows_callFuncs ih l [.batchDone k] 0 (a.taskBuildFuncs.map fun f => f p.round)
      rw [List.flatMap_map] at h
      simp only [buildBatch, if_pos hpos, Published.batchTasks, hl]
      exact h

theorem shows_roundRun (hp : a.nodePartition view.myName = some p) :
    (a.roundRun view).Shows a ((List.range p.batchCount.toNat).flatMap (Published.batchTasks a view p)) := by
  simp only [roundRun, hp, List.range_eq_range']
  exact shows_buildBatches _ 0 (Nat.le_of_eq (Nat.zero_add _))

theorem mapM_of_isSome {α β : Type} {f : α → Option β} {l : List α}
    (h : ∀ x ∈ l, (f x).isSome) : ∃ r, l.mapM f = some r ∧ r.length = l.length := by
  induction l with
  | nil => exact ⟨[], rfl, rfl⟩
  | cons x l ih =>
    obtain ⟨y, hy⟩ := Option.isSome_iff_exists.1 (h x List.mem_cons_self)
    obtain ⟨r, hr, hlen⟩ := ih fun z hz => h z (List.mem_cons_of_mem x hz)
    exact ⟨y :: r, by simp [List.mapM_cons, hy, hr], by simp [hlen]⟩

theorem cutBatches_bounds {n i : Nat} (hi : i < (n + 1024 - 1) / 1024) :
    (i * 1024 ≤ if i = (n + 1024 - 1) / 1024 - 1 then n - 1 else i * 1024 + 1024) ∧
      (if i = (n + 1024 - 1) / 1024 - 1 then n - 1 else i * 1024 + 1024) ≤ n := by
  split <;> omega

/-- A list is cut without a slice out of range, into one batch for every 1024 addresses. -/
theorem cutBatches_eq_some (l : List String) :
    ∃ batches, cutBatches l = some batches ∧
      batches.length = (l.length + usingClusterThreshold - 1) / usingClusterThreshold := by
  suffices h : ∃ batches, cutBatches l = some batches ∧
      batches.length = (List.range ((l.length + usingClusterThreshold - 1) / usingClusterThreshold)).length by
    simpa using h
  refine mapM_of_isSome fun i hi => ?_
  have hi := List.mem_range.1 hi
  exact Option.isSome_of_eq_some (if_pos (cutBatches_bounds hi))

/-- Nothing is published only when there is no name to publish to. -/
theorem seen_publishBatches_eq_nil {names : List String} {batches : List (List String)}
    (h : batches ≠ []) :
    (a.publishBatches names batches).effects.flatMap Effect.seen = [] ↔ names = [] := by
  cases names with
  | nil => simp [publishBatches]
  | cons name names =>
    cases batches with
    | nil => exact absurd rfl h
    | cons ipList batches =>
      rw [publishBatches, Outcome.andThen_of_none rfl]
      simp [Effect.seen]

theorem allocator_publishBatches (names : List String) (batches : List (List String)) :
    (a.publishBatches names batches).allocator = a := by
  induction names generalizing batches with
  | nil => rfl
  | cons name names ih =>
    cases batches with
    | nil => rfl
    | cons ipList batches =>
      rw [publishBatches, Outcome.andThen_of_none rfl]
      exact ih batches

theorem allocator_callFuncs (l : List String) (behind : List (Queued T)) (k : Nat)
    (fs : List (List String → Option (List T))) : (a.callFuncs l behind k fs).allocator = a := by
  rw [callFuncs_eq]
  refine Outcome.allocator_seq fun o ho => ?_
  obtain ⟨f, j, -, rfl⟩ := mem_turns.1 ho
  exact allocator_callFunc ..

theorem shows_cutInLine (a : Allocator T) (view : View) {l : List String} (hl : l ≠ [])
    (hshort : l.length ≤ usingClusterThreshold) :
    (a.cutInLine view (.strings l)).allocator = a ∧ (a.cutInLine view (.strings l)).Shows a
      (a.cutInLineFuncs.flatMap fun f => ((f l).getD []).map .built) := by
  have hcall : a.cutInLine view (.strings l) = a.callFuncs l [] 0 a.cutInLineFuncs := by
    simp [cutInLine, hl, hshort]
  rw [hcall]
  refine ⟨allocator_callFuncs .., ?_⟩
  have h := shows_callFuncs (shows_idle a none) l [] 0 a.cutInLineFuncs
  have hend : ∀ o : Outcome T, (o.andThen { allocator := a }).effects = o.effects := by
    intro o
    cases ho : o.panic <;> simp [Outcome.andThen, ho]
  have htasks : ∀ f : List String → Option (List T), (match f l with
      | none => []
      | some tasks => tasks.map Queued.built ++ []) = ((f l).getD []).map Queued.built := by
    intro f
    cases f l <;> simp
  rw [List.append_nil] at h
  simpa only [Outcome.Shows, hend, htasks] using h

end Allocator

/-- The direct path has no effect for the jobs that change nothing, and for no others. -/
theorem Published.idempotent_iff (a : Allocator T) (view : View) (p : Published) :
    p.Idempotent a view ↔
      (p.direct a view).allocator = a ∧ (p.direct a view).effects.flatMap Effect.seen = [] := by
  cases p with
  | syncPartition np =>
    have hmap : { a with nodePartition := np } = a ↔ a.nodePartition = np :=
      ⟨fun h => congrArg Allocator.nodePartition h.symm, fun h => h ▸ rfl⟩
    simp only [Idempotent, direct, Allocator.syncPartitions, Allocator.allocator_roundRun, hmap]
    refine and_congr_right fun hnp => ?_
    subst hnp
    cases hp : a.nodePartition view.myName with
    | none => simp [Allocator.roundRun, hp]
    | some p =>
      simp only [Option.mem_some_iff, forall_eq']
      exact (Allocator.shows_roundRun hp).symm
  | syncPartitionDone pt =>
    cases hq : a.nodePartition pt.nodeName with
    | none => simp [Idempotent, direct, Allocator.syncPartitionDone_of_none hq, hq]
    | some q =>
      simp only [Idempotent, direct, Allocator.syncPartitionDone_of_some hq, hq, List.flatMap_nil, and_true]
      constructor
      · intro h
        have hq' : { q with roundDone := pt.roundDone } = q := by rw [← h q rfl]
        rw [hq', Allocator.setPartition, ← hq, Function.update_eq_self]
      · rintro h q' ⟨⟩
        have hentry := congrArg (fun a => a.nodePartition pt.nodeName) h
        rw [Allocator.nodePartition_setPartition, if_pos rfl, hq] at hentry
        rw [← Option.some.inj hentry]
  | manualCutInLine l =>
    by_cases hnil : l = []
    · simp [Idempotent, direct, Allocator.cutInLine, hnil]
    by_cases hshort : l.length ≤ Allocator.usingClusterThreshold
    · obtain ⟨hsame, hshows⟩ := a.shows_cutInLine view hnil hshort
      simp only [Idempotent, direct, hnil, hshort, if_true, false_or, hsame, true_and]
      exact hshows.symm
    · obtain ⟨batches, hbatches, hlen⟩ := Allocator.cutBatches_eq_some l
      have hne : batches ≠ [] := by
        rw [← List.length_pos_iff, hlen]
        simp only [Allocator.usingClusterThreshold] at hshort ⊢
        omega
      simp only [Idempotent, direct, Allocator.cutInLine, List.isEmpty_iff, hnil, hshort, if_false,
        false_or, hbatches, Allocator.allocator_publishBatches,
        Allocator.seen_publishBatches_eq_nil hne, true_and]

/-- A job has the same effect on another node as on the node itself exactly if it changes nothing. -/
theorem published_transparent_iff (c : Nio.DefaultCodec JobInfo) (unmarshal : Unmarshal)
    (a : Allocator T) (view : View) (p : Published) :
    (p.remote c unmarshal a view).SameEffect (p.direct a view) ↔ p.Idempotent a view := by
  rw [p.idempotent_iff, p.remote_eq, Outcome.SameEffect]
  exact and_congr eq_comm eq_comm

/-- The map of a round in which the node `b` has the second of two partitions. -/
def partitionsOfB : Partitions := fun name => if name = "b" then some (newPartition 2 7 1 "b") else none

/-- The JSON text of `partitionsOfB` in its `JobInfo`. -/
def syncPartitionJson : String :=
  "\x7b\"Name\":\"task_node_sync_partition\",\"Data\":\x7b\"b\":\x7b\"NodeName\":\"b\"," ++
  "\"StartIndex\":1,\"EndIndex\":1,\"SortBy\":\"created_at\",\"Round\":7,\"RoundDone\":false," ++
  "\"BatchCount\":1,\"FinBatchCount\":0,\"BatchSize\":1000\x7d\x7d\x7d"

/-- A codec without compression, for that job. -/
def syncPartitionCodec : Nio.DefaultCodec JobInfo where
  packages :=
    { marshal := fun _ => some syncPartitionJson.toUTF8.toList
      compress := id
      decompress := some }
  gzip := false

/-- What `encoding/json` makes of the text. -/
def syncPartitionDecoded : Unmarshal := fun _ =>
  ("task_node_sync_partition", .object [("b", .object [("NodeName", .string "b"),
    ("StartIndex", .number 1), ("EndIndex", .number 1), ("SortBy", .string "created_at"),
    ("Round", .number 7), ("RoundDone", .bool false), ("BatchCount", .number 1),
    ("FinBatchCount", .number 0), ("BatchSize", .number 1000)])])

/-- The node `b` never sees the map that is published to it. -/
theorem published_map_ignored :
    ((Published.syncPartition partitionsOfB).remote syncPartitionCodec syncPartitionDecoded
        ({} : Allocator Unit) ⟨"b", ["b", "a"], ⟨[], 0, Nat.le_refl 0⟩⟩).allocator.nodePartition "b" = none ∧
      ((Published.syncPartition partitionsOfB).direct
        ({} : Allocator Unit) ⟨"b", ["b", "a"], ⟨[], 0, Nat.le_refl 0⟩⟩).allocator.nodePartition "b" =
          some (newPartition 2 7 1 "b") := by
  refine ⟨?_, ?_⟩
  · rw [Published.remote_eq]
  · rw [Published.direct, Allocator.syncPartitions, Allocator.allocator_roundRun]
    rfl

end OwnX.Task
