import OwnX.Task.Dispatch
import OwnX.Task.Proofs.PartitionProofs
import OwnX.Task.Proofs.PublishProofs
import OwnX.Foundations.Proofs.MachineProofs

/-!
# Nodes that do not hear each other

No job that comes in a frame has an effect, so every node goes through states that it could reach alone.
What is known of a node alone: the maps it has are those it has cut itself, each with one batch for every
node, and no partition in them but its own is ever done.
-/

namespace OwnX.Task

variable {T : Type}

namespace Station

variable {s : Station T} {myName : String}

/-! ## The nodes of a cluster -/

/-- A call that does nothing leaves the node alone. -/
theorem settle_idle (s : Station T) (view : View) : s.settle view { allocator := s.allocator } = (s, []) := by
  simp [settle]

end Station

/-- A node takes no step when another one does, nor when a frame arrives. -/
theorem Deployment.station_of_step {c : Nio.DefaultCodec JobInfo} {unmarshal : Unmarshal}
    {d d' : Deployment T} {e : DeploymentEvent} (hs : d.step c unmarshal e = some d') (name : String) :
    d'.station name = d.station name ∨
      ∃ e', (Task.station T name).step (d.station name) e' = some (d'.station name) := by
  cases e with
  | act other e =>
    obtain ⟨r, hr, rfl⟩ := Option.map_eq_some_iff.1 hs
    by_cases hname : name = other
    · subst hname
      refine .inr ⟨e, ?_⟩
      simp [Task.station, hr, Deployment.update]
    · exact .inl (Function.update_of_ne hname _ _)
  | receive view k =>
    -- what is decoded from a frame is of none of the types that a registered function takes
    left
    simp only [Deployment.step] at hs
    split at hs
    · simp at hs
    · next other body hframe =>
      obtain ⟨-, hd'⟩ := Option.ite_none_right_eq_some.1 hs
      obtain rfl := Option.some.inj hd'
      have hidle : (d.station other).allocator.pushTask view (msg2job unmarshal body) =
          { allocator := (d.station other).allocator } :=
        (d.station other).allocator.pushTask_untyped view _ _
      simp [Deployment.update, hidle, Station.settle_idle]

/-- Every node of a cluster goes through states that it reaches on its own: whatever is published to
another node, and whenever it arrives, has no effect there. -/
theorem nodes_independent {c : Nio.DefaultCodec JobInfo} {unmarshal : Unmarshal} {d : Deployment T}
    (hr : (deployment T c unmarshal).Reachable d) (name : String) :
    (station T name).Reachable (d.station name) := by
  refine hr.project (fun d => d.station name) ?_ ?_
  · exact fun d hd => hd.1 name
  · exact fun d e d' hs => Deployment.station_of_step hs name

/-- Two nodes whose only build function makes a task of every address. -/
def twoStations : Deployment String where
  station := fun _ => { allocator := { taskBuildFuncs := [fun _ l => some l] } }

theorem init_twoStations (c : Nio.DefaultCodec JobInfo) (unmarshal : Unmarshal) :
    (deployment String c unmarshal).init twoStations := ⟨fun _ => ⟨fun _ => rfl, rfl⟩, rfl⟩

/-- The JSON text of the partition at an index, in the round 7 of two nodes. -/
def partitionJson (name index : String) : String :=
  "\"" ++ name ++ "\":\x7b\"NodeName\":\"" ++ name ++ "\",\"StartIndex\":" ++ index ++
  ",\"EndIndex\":1,\"SortBy\":\"created_at\",\"Round\":7,\"RoundDone\":false,\"BatchCount\":1," ++
  "\"FinBatchCount\":0,\"BatchSize\":1000\x7d"

/-- A codec without compression, for the job with the map of that round. -/
def roundOfTwoCodec : Nio.DefaultCodec JobInfo where
  packages :=
    { marshal := fun _ => some (("\x7b\"Name\":\"task_node_sync_partition\",\"Data\":\x7b" ++
        partitionJson "a" "0" ++ "," ++ partitionJson "b" "1" ++ "\x7d\x7d").toUTF8.toList)
      compress := id
      decompress := some }
  gzip := false

/-- What `encoding/json` makes of a partition in that text. -/
def partitionDecoded (name : String) (index : Float) : Untyped :=
  .object [("NodeName", .string name), ("StartIndex", .number index), ("EndIndex", .number 1),
    ("SortBy", .string "created_at"), ("Round", .number 7), ("RoundDone", .bool false),
    ("BatchCount", .number 1), ("FinBatchCount", .number 0), ("BatchSize", .number 1000)]

/-- What `encoding/json` makes of the text. -/
def roundOfTwoDecoded : Unmarshal := fun _ =>
  ("task_node_sync_partition", .object [("a", partitionDecoded "a" 0), ("b", partitionDecoded "b" 1)])

theorem length_pair_le (a b : String) : [a, b].length ≤ 2 := Nat.le_refl 2

/-- What a node sees of two nodes with one address each. -/
def twoAlive (myName : String) : View where
  myName := myName
  aliveNodeNames := ["a", "b"]
  aliveNodeIps := ⟨["10.0.0.1", "10.0.0.2"], 2, length_pair_le _ _⟩

/-- The node `a` starts a round for both nodes, and the map arrives at `b`. The node `a` runs its batch
and, when `b` is gone, ends the round. -/
def oneRoundOfTwo : List DeploymentEvent :=
  [.act "a" (.startAlloc (twoAlive "a") 7), .receive (twoAlive "b") 0, .act "a" (.push (twoAlive "a") 0),
   .act "a" (.batchDone 0), .act "a" (.conclude (Nodes.view ["a"] "a") 0)]

theorem nodes_independent_two :
    ∃ d, (deployment String roundOfTwoCodec roundOfTwoDecoded).Reachable d ∧
      (d.station "a").ended = [(7, ["a"])] ∧ (station String "a").Reachable (d.station "a") := by
  have hrun : ((deployment String roundOfTwoCodec roundOfTwoDecoded).run twoStations oneRoundOfTwo).map
      (fun d => (d.station "a").ended) = some [(7, ["a"])] := by decide
  obtain ⟨d, hd, hended⟩ := Machine.observed_of_run hrun (init_twoStations _ _)
  exact ⟨d, hd, hended, nodes_independent hd "a"⟩

/-! ## What a call publishes and puts -/

theorem Delivery.pushed_eq_some {x : Delivery} {job : JobInfo} :
    x.pushed = some job ↔ x = .pushTask job := by
  cases x <;> simp [Delivery.pushed]

theorem mem_publishJob_pushTask {view : View} {jobName : String} {jobs : List (String × Value)}
    {job : JobInfo} (h : Delivery.pushTask job ∈ publishJob view jobName jobs) :
    job.name = jobName ∧ (view.myName, job.data) ∈ jobs := by
  obtain ⟨entry, hentry, heq⟩ := List.mem_filterMap.1 h
  split at heq
  · next hname =>
    obtain rfl := Delivery.pushTask.inj (Option.some.inj heq)
    exact ⟨rfl, by rwa [hname]⟩
  · split at heq <;> cases heq

theorem Station.mem_pushed_settle {s : Station T} {view : View} {o : Outcome T} {job : JobInfo}
    (h : job ∈ (s.settle view o).1.pushed) :
    job ∈ s.pushed ∨ ∃ jobs, .publishJob job.name jobs ∈ o.effects ∧ (view.myName, job.data) ∈ jobs := by
  rcases List.mem_append.1 h with h | h
  · exact .inl h
  · obtain ⟨x, hx, hpushed⟩ := List.mem_filterMap.1 h
    obtain rfl := Delivery.pushed_eq_some.1 hpushed
    obtain ⟨e, he, hmem⟩ := List.mem_flatMap.1 hx
    match e, hmem with
    | .publishJob jobName jobs, hmem =>
      obtain ⟨rfl, hdata⟩ := mem_publishJob_pushTask hmem
      exact .inr ⟨jobs, he, hdata⟩

theorem Effect.mem_puts {e : Effect T} {tasks : List (Queued T)} (h : tasks ∈ e.puts) :
    ∃ sent, e = .put tasks sent := by
  match e, h with
  | .put _ sent, h => exact ⟨sent, by rw [List.mem_singleton.1 h]⟩

theorem Effect.mem_calls {e : Effect T} {round : Int} (h : round ∈ e.calls) : e = .roundDone round := by
  match e, h with
  | .roundDone _, h => rw [List.mem_singleton.1 h]

theorem mem_jobList {names : List String} {data : Value} {x : String × Value}
    (h : x ∈ jobList names data) : x.2 = data := by
  obtain ⟨name, -, rfl⟩ := List.mem_map.1 h
  rfl

namespace Allocator

variable {a : Allocator T} {view : View}

theorem mem_startAlloc {round : Int} {e : Effect T} (h : e ∈ a.startAlloc view round) :
    e = .publishJob Job.syncPartition (jobList view.aliveNodeNames
        (.partitions (roundPartitions view.aliveNodeNames round))) ∨ e = .roundDoneTimeout round := by
  unfold startAlloc at h
  dsimp only at h
  split at h
  · exact .inr (List.mem_singleton.1 h)
  · simpa using h

theorem timeouts_startAlloc (a : Allocator T) (view : View) (round : Int) :
    (a.startAlloc view round).flatMap Effect.timeouts = [round] := by
  unfold startAlloc
  dsimp only
  split <;> rfl

/-- A round with one batch: the build functions get a list with at most one address. -/
theorem mem_roundRun_one (hone : ∀ p ∈ a.nodePartition view.myName, p.batchCount = 1) {e : Effect T}
    (h : e ∈ (a.roundRun view).effects) :
    ∃ p ∈ a.nodePartition view.myName, ∃ f ∈ a.taskBuildFuncs, ∃ l ts sent, l.length ≤ 1 ∧
      f p.round l = some ts ∧ e = .put (ts.map .built ++ [.batchDone 0]) sent := by
  obtain ⟨p, hp, index, hindex, l, hl, f, hf, ts, sent, hts, rfl⟩ := mem_effects_roundRun h
  have hcount : p.batchCount.toNat = 1 := by
    rw [hone p hp]
    rfl
  have hlen := (view.aliveNodeIps.length_of_slice hl).2
  obtain rfl : index = 0 := by omega
  exact ⟨p, hp, f, hf, l, ts, sent, by omega, hts, rfl⟩

theorem mem_publishBatches {names : List String} {batches : List (List String)} {e : Effect T}
    (h : e ∈ (a.publishBatches names batches).effects) :
    ∃ name, ∃ l ∈ batches, e = .publishJob Job.manualCutInLine [(name, .strings l)] := by
  induction names generalizing batches with
  | nil => simp [publishBatches] at h
  | cons name names ih =>
    cases batches with
    | nil => simp [publishBatches] at h
    | cons l batches =>
      rw [publishBatches, Outcome.andThen_of_none rfl] at h
      rcases List.mem_cons.1 h with rfl | h
      · exact ⟨name, l, List.mem_cons_self, rfl⟩
      · obtain ⟨name', l', hl', he⟩ := ih h
        exact ⟨name', l', List.mem_cons_of_mem _ hl', he⟩

/-- Every batch is a piece of the list. -/
theorem infix_of_cutBatches {l : List String} (hl : l ≠ []) {batches : List (List String)}
    (h : cutBatches l = some batches) {b : List String} (hb : b ∈ batches) : b <:+: l := by
  rw [cutBatches_eq hl, Option.some.injEq] at h
  rw [← h] at hb
  obtain ⟨i, -, rfl⟩ := List.mem_map.1 hb
  have htake := (List.take_prefix usingClusterThreshold
    (l.dropLast.drop (i * usingClusterThreshold))).isInfix
  have hdrop := (List.drop_suffix (i * usingClusterThreshold) l.dropLast).isInfix
  exact (htake.trans hdrop).trans (List.dropLast_prefix l).isInfix

/-- `cutInLine` has the list run here, or passes pieces of it on. -/
theorem mem_cutInLine {l : List String} {e : Effect T} (h : e ∈ (a.cutInLine view (.strings l)).effects) :
    (∃ f ∈ a.cutInLineFuncs, ∃ ts sent, f l = some ts ∧ e = .put (ts.map .built) sent) ∨
      ∃ name b, b <:+: l ∧ e = .publishJob Job.manualCutInLine [(name, .strings b)] := by
  unfold cutInLine at h
  dsimp only at h
  split at h
  · simp at h
  · next hnil =>
    have hl : l ≠ [] := fun hl => hnil (by rw [hl]; rfl)
    split at h
    · obtain ⟨f, hf, ts, sent, hts, rfl⟩ := mem_callFuncs h
      exact .inl ⟨f, hf, ts, sent, hts, by rw [List.append_nil]⟩
    · split at h
      · simp at h
      · next batches hcut =>
        obtain ⟨name, b, hb, rfl⟩ := mem_publishBatches h
        exact .inr ⟨name, b, infix_of_cutBatches hl hcut hb, rfl⟩

theorem allocator_cutInLine (a : Allocator T) (view : View) (data : Value) :
    (a.cutInLine view data).allocator = a := by
  unfold cutInLine
  split
  · split
    · rfl
    · split
      · exact allocator_callFuncs ..
      · split
        · rfl
        · exact allocator_publishBatches ..
  · rfl

/-- Only `StartAlloc` starts a goroutine of `roundDoneTimeout`. -/
theorem timeouts_pushTask {job : JobInfo} {e : Effect T} (h : e ∈ (a.pushTask view job).effects) :
    e.timeouts = [] := by
  obtain ⟨name, data⟩ := job
  unfold pushTask taskRegistry at h
  split at h
  · cases h
  · next f hf =>
    split at hf
    · obtain rfl := Option.some.inj hf
      cases data with
      | partitions np =>
        obtain ⟨p, hp, index, hindex, l, hl, g, hg, ts, sent, hts, rfl⟩ := mem_effects_roundRun h
        rfl
      | partition _ | strings _ | untyped _ => cases h
    · split at hf
      · obtain rfl := Option.some.inj hf
        cases data with
        | partition pt =>
          simp only [syncPartitionDone] at h
          split at h <;> cases h
        | partitions _ | strings _ | untyped _ => cases h
      · split at hf
        · obtain rfl := Option.some.inj hf
          cases data with
          | strings l =>
            rcases mem_cutInLine h with ⟨g, hg, ts, sent, hts, rfl⟩ | ⟨name', b, hb, rfl⟩ <;> rfl
          | partitions _ | partition _ | untyped _ => cases h
        · cases hf

end Allocator

theorem isSome_foldl_addPartition {n : Nat} {round : Int} {l : List (String × Nat)} {np : Partitions}
    {name : String} (h : (np name).isSome ∨ name ∈ l.map Prod.fst) :
    (l.foldl (addPartition n round) np name).isSome := by
  induction l generalizing np with
  | nil => simpa using h
  | cons x l ih =>
    refine ih ?_
    by_cases hname : name = x.1
    · left
      rw [addPartition, hname, Function.update_self]
      rfl
    · rcases h with h | h
      · left
        rwa [addPartition, Function.update_of_ne hname]
      · exact .inr ((List.mem_cons.1 h).resolve_left hname)

/-! ## A node on its own -/

namespace Station

/-- The map is one of a round that the node has started: every alive node has one batch in it, and no
partition but the node's own may be done. -/
structure Kept (myName : String) (started : List (Int × List String)) (np : Partitions) : Prop where
  nodeName : ∀ u q, np u = some q → q.nodeName = u
  round : ∀ u q, np u = some q → ∃ names, (q.round, names) ∈ started
  batchCount : ∀ u q, np u = some q → q.batchCount = 1
  others : ∀ u q, np u = some q → u ≠ myName → q.roundDone = false
  has : ∃ x ∈ started, ∀ u ∈ x.2, (np u).isSome

/-- The value is one that the node may have published to itself. -/
def Owned (myName : String) (started : List (Int × List String)) (asked : List (List String)) :
    Value → Prop
  | .partitions np => ∃ x ∈ started, np = roundPartitions x.2 x.1
  | .partition pt => pt.nodeName = myName
  | .strings l => ∃ l' ∈ asked, l <:+: l'
  | .untyped _ => True

/-- The tasks were built for a round that the node has started, for at most one address, or for a piece
of a list that it was asked to cut in line. -/
def BuiltHere (a : Allocator T) (started : List (Int × List String)) (asked : List (List String))
    (tasks : List (Queued T)) : Prop :=
  (∃ x ∈ started, ∃ f ∈ a.taskBuildFuncs, ∃ l ts, l.length ≤ 1 ∧ f x.1 l = some ts ∧
    tasks = ts.map .built ++ [.batchDone 0]) ∨
  ∃ l' ∈ asked, ∃ f ∈ a.cutInLineFuncs, ∃ l ts, l <:+: l' ∧ f l = some ts ∧ tasks = ts.map .built

/-- A round that the node has started was ended while no other alive node had a part in the round that
was on. -/
def EndedAlone (myName : String) (started : List (Int × List String)) (x : Int × List String) : Prop :=
  (∃ names, (x.1, names) ∈ started) ∧ ∃ y ∈ started, ∀ u ∈ y.2, u ∈ x.2 → u = myName

variable {s : Station T} {myName : String} {started started' : List (Int × List String)}
  {asked asked' : List (List String)} {np : Partitions} {view : View}

theorem Kept.mono (h : Kept myName started np) (hsub : started ⊆ started') : Kept myName started' np := by
  refine ⟨h.nodeName, fun u q hq => ?_, h.batchCount, h.others, ?_⟩
  · obtain ⟨names, hnames⟩ := h.round u q hq
    exact ⟨names, hsub hnames⟩
  · obtain ⟨x, hx, hkeys⟩ := h.has
    exact ⟨x, hsub hx, hkeys⟩

theorem Owned.mono {v : Value} (h : Owned myName started asked v) (hs : started ⊆ started')
    (ha : asked ⊆ asked') : Owned myName started' asked' v := by
  cases v with
  | partitions np =>
    obtain ⟨x, hx, hnp⟩ := h
    exact ⟨x, hs hx, hnp⟩
  | partition pt => exact h
  | strings l =>
    obtain ⟨l', hl', hpart⟩ := h
    exact ⟨l', ha hl', hpart⟩
  | untyped u => trivial

theorem BuiltHere.mono {a a' : Allocator T} {tasks : List (Queued T)} (h : BuiltHere a started asked tasks)
    (hbuild : a'.taskBuildFuncs = a.taskBuildFuncs) (hcut : a'.cutInLineFuncs = a.cutInLineFuncs)
    (hs : started ⊆ started') (ha : asked ⊆ asked') : BuiltHere a' started' asked' tasks := by
  rcases h with ⟨x, hx, f, hf, h⟩ | ⟨l', hl', f, hf, h⟩
  · exact .inl ⟨x, hs hx, f, hbuild ▸ hf, h⟩
  · exact .inr ⟨l', ha hl', f, hcut ▸ hf, h⟩

theorem EndedAlone.mono {x : Int × List String} (h : EndedAlone myName started x)
    (hs : started ⊆ started') : EndedAlone myName started' x := by
  obtain ⟨⟨names, hnames⟩, y, hy, hy'⟩ := h
  exact ⟨⟨names, hs hnames⟩, y, hs hy, hy'⟩

/-- A new map. -/
theorem kept_roundPartitions {x : Int × List String} (hx : x ∈ started) :
    Kept myName started (roundPartitions x.2 x.1) := by
  have hnew : ∀ u q, roundPartitions x.2 x.1 u = some q →
      ∃ i, i < x.2.length ∧ q = newPartition x.2.length x.1 i u := by
    intro u q hq
    obtain ⟨i, hi, hq⟩ := roundPartitions_eq_some hq
    exact ⟨i, (List.getElem?_eq_some_iff.1 (List.mem_zipIdx_iff_getElem?.1 hi)).1, hq⟩
  constructor
  · intro u q hq
    obtain ⟨i, -, rfl⟩ := hnew u q hq
    rfl
  · intro u q hq
    obtain ⟨i, -, rfl⟩ := hnew u q hq
    exact ⟨x.2, hx⟩
  · intro u q hq
    obtain ⟨i, hi, rfl⟩ := hnew u q hq
    rw [newPartition_eq hi]
  · intro u q hq _
    obtain ⟨i, -, rfl⟩ := hnew u q hq
    rfl
  · refine ⟨x, hx, fun u hu => isSome_foldl_addPartition (.inr ?_)⟩
    rwa [List.zipIdx_map_fst]

/-- The node writes its own partition. -/
theorem Kept.setPartition {a : Allocator T} (h : Kept myName started a.nodePartition) {p q : Partition}
    (hp : a.nodePartition myName = some p) (hname : q.nodeName = p.nodeName) (hround : q.round = p.round)
    (hcount : q.batchCount = p.batchCount) :
    Kept myName started (a.setPartition myName q).nodePartition := by
  have hcases : ∀ u r, (a.setPartition myName q).nodePartition u = some r →
      (u = myName ∧ r = q) ∨ (u ≠ myName ∧ a.nodePartition u = some r) := by
    intro u r hr
    rw [Allocator.nodePartition_setPartition] at hr
    split at hr
    · next hu => exact .inl ⟨hu, (Option.some.inj hr).symm⟩
    · next hu => exact .inr ⟨hu, hr⟩
  constructor
  · intro u r hr
    rcases hcases u r hr with ⟨rfl, rfl⟩ | ⟨-, hr⟩
    · exact hname.trans (h.nodeName _ p hp)
    · exact h.nodeName u r hr
  · intro u r hr
    rcases hcases u r hr with ⟨rfl, rfl⟩ | ⟨-, hr⟩
    · rw [hround]
      exact h.round _ p hp
    · exact h.round u r hr
  · intro u r hr
    rcases hcases u r hr with ⟨rfl, rfl⟩ | ⟨-, hr⟩
    · exact hcount.trans (h.batchCount _ p hp)
    · exact h.batchCount u r hr
  · intro u r hr hu
    rcases hcases u r hr with ⟨rfl, -⟩ | ⟨-, hr⟩
    · exact absurd rfl hu
    · exact h.others u r hr hu
  · obtain ⟨x, hx, hkeys⟩ := h.has
    refine ⟨x, hx, fun u hu => ?_⟩
    rw [Allocator.nodePartition_setPartition]
    split
    · rfl
    · exact hkeys u hu

/-- What holds at a node at any time. -/
structure Alone (myName : String) (s : Station T) : Prop where
  kept : ((∀ u, s.allocator.nodePartition u = none) ∧ s.ending = []) ∨
    Kept myName s.started s.allocator.nodePartition
  pushed : ∀ job ∈ s.pushed, Owned myName s.started s.asked job.data
  ending : ∀ p ∈ s.ending, p.nodeName = myName ∧ ∃ names, (p.round, names) ∈ s.started
  puts : ∀ tasks ∈ s.puts, BuiltHere s.allocator s.started s.asked tasks
  ended : ∀ x ∈ s.ended, EndedAlone myName s.started x

theorem alone_init (h : s.Initial) : Alone myName s := by
  obtain ⟨hnone, hs⟩ := h
  constructor
  · exact .inl ⟨hnone, by rw [hs]⟩
  all_goals
    rw [hs]
    simp

/-- The rule for a call on the allocator. -/
theorem Alone.settle (h : Alone myName s) {o : Outcome T}
    (hkept : ((∀ u, o.allocator.nodePartition u = none) ∧ s.ending = []) ∨
      Kept myName s.started o.allocator.nodePartition)
    (hbuild : o.allocator.taskBuildFuncs = s.allocator.taskBuildFuncs)
    (hcut : o.allocator.cutInLineFuncs = s.allocator.cutInLineFuncs)
    (hpublish : ∀ name jobs, .publishJob name jobs ∈ o.effects → ∀ x ∈ jobs,
      Owned myName s.started s.asked x.2)
    (hput : ∀ tasks sent, .put tasks sent ∈ o.effects → BuiltHere s.allocator s.started s.asked tasks)
    (hcall : ∀ round, .roundDone round ∈ o.effects →
      EndedAlone myName s.started (round, view.aliveNodeNames)) :
    Alone myName (s.settle view o).1 := by
  have hsame : ∀ tasks, BuiltHere s.allocator s.started s.asked tasks →
      BuiltHere o.allocator s.started s.asked tasks :=
    fun tasks ht => ht.mono hbuild hcut (List.Subset.refl _) (List.Subset.refl _)
  constructor
  · exact hkept
  · intro job hjob
    rcases mem_pushed_settle hjob with hjob | ⟨jobs, hjobs, hmem⟩
    · exact h.pushed job hjob
    · exact hpublish _ jobs hjobs _ hmem
  · exact h.ending
  · intro tasks htasks
    rcases List.mem_append.1 htasks with htasks | htasks
    · exact hsame tasks (h.puts tasks htasks)
    · obtain ⟨e, he, hmem⟩ := List.mem_flatMap.1 htasks
      obtain ⟨sent, rfl⟩ := Effect.mem_puts hmem
      exact hsame tasks (hput tasks sent he)
  · intro x hx
    rcases List.mem_append.1 hx with hx | hx
    · exact h.ended x hx
    · obtain ⟨round, hround, rfl⟩ := List.mem_map.1 hx
      obtain ⟨e, he, hmem⟩ := List.mem_flatMap.1 hround
      rw [Effect.mem_calls hmem] at he
      exact hcall round he

/-- The history of a node grows. -/
theorem Alone.grow (h : Alone myName s) (hs : s.started ⊆ started') (ha : s.asked ⊆ asked') :
    Alone myName { s with started := started', asked := asked' } := by
  constructor
  · exact h.kept.imp_right (·.mono hs)
  · exact fun job hjob => (h.pushed job hjob).mono hs ha
  · intro p hp
    obtain ⟨hname, names, hnames⟩ := h.ending p hp
    exact ⟨hname, names, hs hnames⟩
  · exact fun tasks ht => (h.puts tasks ht).mono rfl rfl hs ha
  · exact fun x hx => (h.ended x hx).mono hs

theorem Alone.startAlloc (h : Alone myName s) (view : View) (round : Int) :
    Alone myName ({ s with started := s.started ++ [(round, view.aliveNodeNames)] }.settle view
      { allocator := s.allocator, effects := s.allocator.startAlloc view round }).1 := by
  have hgrown := h.grow (List.subset_append_left s.started [(round, view.aliveNodeNames)])
    (List.Subset.refl s.asked)
  refine hgrown.settle hgrown.kept rfl rfl ?_ ?_ ?_
  · intro name jobs hjobs x hx
    rcases Allocator.mem_startAlloc hjobs with heq | heq
    · obtain ⟨-, rfl⟩ := Effect.publishJob.inj heq
      rw [mem_jobList hx]
      exact ⟨(round, view.aliveNodeNames), by simp, rfl⟩
    · cases heq
  · intro tasks sent ht
    rcases Allocator.mem_startAlloc ht with heq | heq <;> cases heq
  · intro round' hr
    rcases Allocator.mem_startAlloc hr with heq | heq <;> cases heq

theorem Alone.callFunc (h : Alone myName s) (view : View) (nodeName : String)
    (nodeIPList : List String) :
    Alone myName ({ s with asked := s.asked ++ [nodeIPList] }.settle view
      { allocator := s.allocator
        effects := [.publishJob Job.manualCutInLine [(nodeName, .strings nodeIPList)]] }).1 := by
  have hgrown := h.grow (List.Subset.refl s.started) (List.subset_append_left s.asked [nodeIPList])
  refine hgrown.settle hgrown.kept rfl rfl ?_ ?_ ?_
  · intro name jobs hjobs x hx
    obtain ⟨-, rfl⟩ := Effect.publishJob.inj (List.mem_singleton.1 hjobs)
    rw [List.mem_singleton.1 hx]
    exact ⟨nodeIPList, by simp, List.infix_rfl⟩
  · intro tasks sent ht
    cases List.mem_singleton.1 ht
  · intro round hr
    cases List.mem_singleton.1 hr

/-- A node that has a partition has taken it over from a round it started. -/
theorem Alone.kept_of_some (h : Alone myName s) {u : String} {p : Partition}
    (hown : s.allocator.nodePartition u = some p) : Kept myName s.started s.allocator.nodePartition := by
  refine h.kept.resolve_left fun hnone => ?_
  rw [hnone.1] at hown
  cases hown

/-- The map of a round that the node has started is taken over, and the round is run. -/
theorem Alone.syncPartitions (h : Alone myName s) (view : View) {x : Int × List String}
    (hx : x ∈ s.started) :
    Alone myName (s.settle view
      (s.allocator.syncPartitions view (.partitions (roundPartitions x.2 x.1)))).1 := by
  have hkept : Kept myName s.started (roundPartitions x.2 x.1) := kept_roundPartitions hx
  have heffect : ∀ e ∈ ({ s.allocator with nodePartition := roundPartitions x.2 x.1 }.roundRun
      view).effects, ∃ tasks sent, e = .put tasks sent ∧
        BuiltHere s.allocator s.started s.asked tasks := by
    intro e he
    obtain ⟨p, hp, f, hf, l, ts, sent, hl, hts, rfl⟩ :=
      Allocator.mem_roundRun_one (fun p hp => hkept.batchCount _ p hp) he
    obtain ⟨names, hnames⟩ := hkept.round _ p hp
    exact ⟨_, _, rfl, .inl ⟨_, hnames, f, hf, l, ts, hl, hts, rfl⟩⟩
  refine h.settle (.inr ?_) ?_ ?_ ?_ ?_ ?_
  · simpa [Allocator.syncPartitions] using hkept
  · simp [Allocator.syncPartitions]
  · simp [Allocator.syncPartitions]
  · intro name jobs hjobs
    obtain ⟨tasks, sent, heq, -⟩ := heffect _ hjobs
    cases heq
  · intro tasks sent ht
    obtain ⟨tasks', sent', heq, hbuilt⟩ := heffect _ ht
    obtain ⟨rfl, rfl⟩ := Effect.put.inj heq
    exact hbuilt
  · intro round hr
    obtain ⟨tasks, sent, heq, -⟩ := heffect _ hr
    cases heq

/-- The node hears that its own partition is done. -/
theorem Alone.syncPartitionDone (h : Alone myName s) (view : View) {pt : Partition}
    (hpt : pt.nodeName = myName) :
    Alone myName (s.settle view (s.allocator.syncPartitionDone (.partition pt))).1 := by
  cases hown : s.allocator.nodePartition pt.nodeName with
  | none =>
    rw [Allocator.syncPartitionDone_of_none hown, settle_idle]
    exact h
  | some p =>
    rw [Allocator.syncPartitionDone_of_some hown]
    have hkept := h.kept_of_some hown
    rw [hpt] at hown ⊢
    exact h.settle (.inr (hkept.setPartition hown rfl rfl rfl)) rfl rfl (by simp) (by simp) (by simp)

/-- A part of a list of addresses that the node was asked for is cut in line. -/
theorem Alone.cutInLine (h : Alone myName s) (view : View) {l l' : List String} (hl' : l' ∈ s.asked)
    (hpart : l <:+: l') : Alone myName (s.settle view (s.allocator.cutInLine view (.strings l))).1 := by
  have hsame := s.allocator.allocator_cutInLine view (.strings l)
  refine h.settle ?_ ?_ ?_ ?_ ?_ ?_
  · rw [hsame]
    exact h.kept
  · rw [hsame]
  · rw [hsame]
  · intro name jobs hjobs x hx
    rcases Allocator.mem_cutInLine hjobs with ⟨f, -, ts, sent, -, heq⟩ | ⟨name', b, hb, heq⟩
    · cases heq
    · obtain ⟨-, rfl⟩ := Effect.publishJob.inj heq
      rw [List.mem_singleton.1 hx]
      exact ⟨l', hl', hb.trans hpart⟩
  · intro tasks sent ht
    rcases Allocator.mem_cutInLine ht with ⟨f, hf, ts, _, hts, heq⟩ | ⟨name', b, hb, heq⟩
    · obtain ⟨rfl, -⟩ := Effect.put.inj heq
      exact .inr ⟨l', hl', f, hf, l, ts, hpart, hts, rfl⟩
    · cases heq
  · intro round hr
    rcases Allocator.mem_cutInLine hr with ⟨f, -, ts, sent, -, heq⟩ | ⟨name', b, hb, heq⟩ <;> cases heq

/-- A goroutine of `pushTask` runs the function that is registered for a job of the node itself. -/
theorem Alone.pushTask (h : Alone myName s) (view : View) {job : JobInfo}
    (hjob : Owned myName s.started s.asked job.data) :
    Alone myName (s.settle view (s.allocator.pushTask view job)).1 := by
  have hidle : Alone myName (s.settle view { allocator := s.allocator }).1 := by
    rw [settle_idle]
    exact h
  obtain ⟨name, data⟩ := job
  unfold Allocator.pushTask Allocator.taskRegistry
  split
  · exact hidle
  · next f hf =>
    -- a value of another type than the function asserts has no effect
    split at hf
    · obtain rfl := Option.some.inj hf
      cases data with
      | partitions np =>
        obtain ⟨x, hx, rfl⟩ := hjob
        exact h.syncPartitions view hx
      | partition _ | strings _ | untyped _ => exact hidle
    · split at hf
      · obtain rfl := Option.some.inj hf
        cases data with
        | partition pt => exact h.syncPartitionDone view hjob
        | partitions _ | strings _ | untyped _ => exact hidle
      · split at hf
        · obtain rfl := Option.some.inj hf
          cases data with
          | strings l =>
            obtain ⟨l', hl', hpart⟩ := hjob
            exact h.cutInLine view hl' hpart
          | partitions _ | partition _ | untyped _ => exact hidle
        · cases hf

/-- A `batchDoneTask` writes the node's own partition. -/
theorem Alone.batchDone (h : Alone myName s) (k : Nat) :
    Alone myName { s with
      allocator := (s.allocator.countBatch myName).1
      tasks := s.tasks.eraseIdx k
      ending := s.ending ++ (s.allocator.countBatch myName).2.toList } := by
  unfold Allocator.countBatch
  cases hown : s.allocator.nodePartition myName with
  | none =>
    simp only [Option.toList_none, List.append_nil]
    exact ⟨h.kept, h.pushed, h.ending, h.puts, h.ended⟩
  | some p =>
    have hkept := h.kept_of_some hown
    dsimp only
    split
    · simp only [Option.toList_none, List.append_nil]
      exact ⟨.inr (hkept.setPartition hown rfl rfl rfl), h.pushed, h.ending, h.puts, h.ended⟩
    · refine ⟨.inr (hkept.setPartition hown rfl rfl rfl), h.pushed, ?_, h.puts, h.ended⟩
      intro q hq
      rcases List.mem_append.1 hq with hq | hq
      · exact h.ending q hq
      · obtain rfl := List.mem_singleton.1 hq
        exact ⟨hkept.nodeName _ p hown, hkept.round _ p hown⟩

/-- After the last batch: another alive node with a partition keeps the node from ending the round. -/
theorem Alone.conclude (h : Alone myName s) (view : View) {k : Nat} {p : Partition}
    (hk : s.ending[k]? = some p) :
    Alone myName ({ s with ending := s.ending.eraseIdx k }.settle view
      { allocator := s.allocator, effects := s.allocator.finish view p }).1 := by
  have hp : p ∈ s.ending := List.mem_of_getElem? hk
  obtain ⟨hname, hstarted⟩ := h.ending p hp
  have hkept : Kept myName s.started s.allocator.nodePartition := by
    refine h.kept.resolve_left fun hnone => ?_
    rw [hnone.2] at hp
    cases hp
  have hless : Alone myName { s with ending := s.ending.eraseIdx k } :=
    ⟨.inr hkept, h.pushed, fun q hq => h.ending q (List.eraseIdx_subset hq), h.puts, h.ended⟩
  refine hless.settle (.inr hkept) rfl rfl ?_ ?_ ?_
  · intro name jobs hjobs x hx
    rw [Allocator.finish_eq] at hjobs
    split at hjobs
    · cases List.mem_singleton.1 hjobs
    · obtain ⟨-, rfl⟩ := Effect.publishJob.inj (List.mem_singleton.1 hjobs)
      rw [mem_jobList hx]
      exact hname
  · intro tasks sent ht
    rw [Allocator.finish_eq] at ht
    split at ht <;> cases List.mem_singleton.1 ht
  · intro round hr
    rw [Allocator.finish_eq] at hr
    split at hr
    · next hall =>
      obtain rfl := Effect.roundDone.inj (List.mem_singleton.1 hr)
      obtain ⟨y, hy, hkeys⟩ := hkept.has
      refine ⟨hstarted, y, hy, fun u hu halive => ?_⟩
      obtain ⟨q, hq⟩ := Option.isSome_iff_exists.1 (hkeys u hu)
      rcases Allocator.allAliveNodePartitionDone_iff.1 hall u halive q hq with heq | hdone
      · exact heq.symm.trans hname
      · by_contra hne
        rw [hkept.others u q hq hne] at hdone
        cases hdone
    · cases List.mem_singleton.1 hr

theorem Alone.step {s' : Station T} {e : StationEvent} (h : Alone myName s)
    (hs : (station T myName).step s e = some s') : Alone myName s' := by
  obtain ⟨r, hstep, rfl⟩ := Option.map_eq_some_iff.1 hs
  obtain ⟨-, hstep⟩ := Option.ite_none_right_eq_some.1 hstep
  cases e with
  | startAlloc view round =>
    obtain rfl := Option.some.inj hstep
    exact h.startAlloc view round
  | callFunc view nodeName nodeIPList =>
    obtain rfl := Option.some.inj hstep
    exact h.callFunc view nodeName nodeIPList
  | push view k =>
    obtain ⟨job, hjob, rfl⟩ := Option.map_eq_some_iff.1 hstep
    have hmem : job ∈ s.pushed := List.mem_of_getElem? hjob
    have hless : Alone myName { s with pushed := s.pushed.eraseIdx k } :=
      ⟨h.kept, fun j hj => h.pushed j (List.eraseIdx_subset hj), h.ending, h.puts, h.ended⟩
    exact hless.pushTask view (h.pushed job hmem)
  | batchDone k =>
    obtain ⟨_, -, rfl⟩ := Option.map_eq_some_iff.1 hstep
    exact h.batchDone k
  | conclude view k =>
    obtain ⟨p, hp, rfl⟩ := Option.map_eq_some_iff.1 hstep
    exact h.conclude view hp
  | timeout k =>
    obtain ⟨round, -, rfl⟩ := Option.map_eq_some_iff.1 hstep
    exact ⟨h.kept, h.pushed, h.ending, h.puts, h.ended⟩

/-! ## The time of a round -/

/-- Every call of `StartAlloc` has a goroutine that waits for the end of its time, or has reported the
round. -/
def Timed (s : Station T) : Prop :=
  ∀ round, s.timedOut.count round + s.timeouts.count round = (s.started.map Prod.fst).count round

/-- The rule for a call that starts no goroutine. -/
theorem Timed.settle (h : Timed s) {o : Outcome T} (ho : ∀ e ∈ o.effects, e.timeouts = []) :
    Timed (s.settle view o).1 := by
  have hnone : o.effects.flatMap Effect.timeouts = [] := List.flatMap_eq_nil_iff.2 ho
  intro round
  show _ + (s.timeouts ++ o.effects.flatMap Effect.timeouts).count round = _
  rw [hnone, List.append_nil]
  exact h round

theorem Timed.startAlloc (h : Timed s) (view : View) (round : Int) :
    Timed ({ s with started := s.started ++ [(round, view.aliveNodeNames)] }.settle view
      { allocator := s.allocator, effects := s.allocator.startAlloc view round }).1 := by
  intro r
  have hr := h r
  show s.timedOut.count r +
    (s.timeouts ++ (s.allocator.startAlloc view round).flatMap Effect.timeouts).count r =
      ((s.started ++ [(round, view.aliveNodeNames)]).map Prod.fst).count r
  rw [s.allocator.timeouts_startAlloc, List.map_append, List.count_append, List.count_append]
  show _ = _ + [round].count r
  omega

/-- The time of a goroutine is over. -/
theorem Timed.timeout (h : Timed s) {k : Nat} {round : Int} (hk : s.timeouts[k]? = some round) :
    Timed { s with timeouts := s.timeouts.eraseIdx k, timedOut := s.timedOut ++ [round] } := by
  obtain ⟨hlt, hround⟩ := List.getElem?_eq_some_iff.1 hk
  intro r
  have hr := h r
  have hperm := (List.getElem_cons_eraseIdx_perm hlt).count_eq r
  rw [hround, List.count_cons] at hperm
  show (s.timedOut ++ [round]).count r + (s.timeouts.eraseIdx k).count r =
    (s.started.map Prod.fst).count r
  rw [List.count_append, List.count_singleton]
  omega

theorem Timed.step {s' : Station T} {e : StationEvent} (h : Timed s)
    (hs : (station T myName).step s e = some s') : Timed s' := by
  obtain ⟨r, hstep, rfl⟩ := Option.map_eq_some_iff.1 hs
  obtain ⟨-, hstep⟩ := Option.ite_none_right_eq_some.1 hstep
  cases e with
  | startAlloc view round =>
    obtain rfl := Option.some.inj hstep
    exact h.startAlloc view round
  | callFunc view nodeName nodeIPList =>
    obtain rfl := Option.some.inj hstep
    have hsame : Timed { s with asked := s.asked ++ [nodeIPList] } := h
    refine hsame.settle fun e he => ?_
    rw [List.mem_singleton.1 he]
    rfl
  | push view k =>
    obtain ⟨job, -, rfl⟩ := Option.map_eq_some_iff.1 hstep
    have hsame : Timed { s with pushed := s.pushed.eraseIdx k } := h
    exact hsame.settle fun e he => Allocator.timeouts_pushTask he
  | batchDone k =>
    obtain ⟨_, -, rfl⟩ := Option.map_eq_some_iff.1 hstep
    exact h
  | conclude view k =>
    obtain ⟨p, -, rfl⟩ := Option.map_eq_some_iff.1 hstep
    have hsame : Timed { s with ending := s.ending.eraseIdx k } := h
    refine hsame.settle fun e he => ?_
    simp only [Allocator.finish_eq] at he
    split at he
    all_goals
      rw [List.mem_singleton.1 he]
      rfl
  | timeout k =>
    obtain ⟨round, hround, rfl⟩ := Option.map_eq_some_iff.1 hstep
    exact h.timeout hround

theorem timed_init (h : s.Initial) : Timed s := by
  intro round
  rw [h.2]
  rfl

end Station

/-! ## A cluster -/

section Cluster

variable {c : Nio.DefaultCodec JobInfo} {unmarshal : Unmarshal} {d : Deployment T}

/-- An invariant of a node alone holds of every node of a cluster. -/
theorem station_invariant {Q : Station T → Prop} {name : String} (hinit : ∀ s, s.Initial → Q s)
    (hstep : ∀ s e s', Q s → (station T name).step s e = some s' → Q s')
    (hr : (deployment T c unmarshal).Reachable d) : Q (d.station name) := by
  refine hr.invariant (fun d => Q (d.station name)) ?_ ?_
  · exact fun d hd => hinit _ (hd.1 name)
  · intro d e d' _ h _ hs
    rcases Deployment.station_of_step hs name with heq | ⟨e', he'⟩
    · rwa [heq]
    · exact hstep _ e' _ h he'

theorem alone_of_reachable (hr : (deployment T c unmarshal).Reachable d) (name : String) :
    Station.Alone name (d.station name) :=
  station_invariant (fun _ => Station.alone_init) (fun _ _ _ h hs => h.step hs) hr

theorem timed_of_reachable (hr : (deployment T c unmarshal).Reachable d) (name : String) :
    (d.station name).Timed :=
  station_invariant (fun _ => Station.timed_init) (fun _ _ _ h hs => h.step hs) hr

/-- Whatever is put into the worker of a node was built there, by the functions registered there: for a
round that the node has started itself and with at most one address, or for a piece of a list that the
node itself was asked to cut in line. -/
theorem tasks_built_here (hr : (deployment T c unmarshal).Reachable d) {name : String}
    {tasks : List (Queued T)} (h : tasks ∈ (d.station name).puts) :
    Station.BuiltHere (d.station name).allocator (d.station name).started (d.station name).asked tasks :=
  (alone_of_reachable hr name).puts _ h

/-- The first address is all that a round of two nodes has tasks for. -/
theorem tasks_built_here_first :
    ∃ d, (deployment String roundOfTwoCodec roundOfTwoDecoded).Reachable d ∧
      (d.station "a").puts = [[.built "10.0.0.1", .batchDone 0]] ∧ (d.station "b").puts = [] ∧
      Station.BuiltHere (d.station "a").allocator (d.station "a").started (d.station "a").asked
        [.built "10.0.0.1", .batchDone 0] := by
  have hrun : ((deployment String roundOfTwoCodec roundOfTwoDecoded).run twoStations oneRoundOfTwo).map
      (fun d => ((d.station "a").puts, (d.station "b").puts)) =
        some ([[.built "10.0.0.1", .batchDone 0]], []) := by decide
  obtain ⟨d, hd, hputs⟩ := Machine.observed_of_run hrun (init_twoStations _ _)
  obtain ⟨ha, hb⟩ := Prod.mk.inj hputs
  refine ⟨d, hd, ha, hb, tasks_built_here hd ?_⟩
  rw [ha]
  exact List.mem_singleton_self _

end Cluster

end OwnX.Task
