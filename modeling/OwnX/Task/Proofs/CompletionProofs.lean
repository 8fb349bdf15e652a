import OwnX.Task.Proofs.RoundsProofs

/-!
# The end of one round

A node that finishes last ends the round if it knows that all others have finished. What another node
tells it may still be under way at that moment: then it publishes in its turn, and nobody looks at the
partitions again.
-/

namespace OwnX.Task.Nodes

variable {T : Type} {names : List String} {round : Int} {plan : Plan round} {s s' : Nodes T}

/-- The node `v` holds the partition of `u` for done. -/
def flag (s : Nodes T) (v u : String) : Bool := (s.sees v u).any Partition.roundDone

theorem flag_self (s : Nodes T) (u : String) : s.flag u u = s.roundDone u := rfl

theorem flag_of_sees {v u : String} {q : Partition} (h : s.sees v u = some q) :
    s.flag v u = q.roundDone := by
  simp [flag, h]

theorem sees_of_flag {v u : String} (h : s.flag v u = true) :
    ∃ q, s.sees v u = some q ∧ q.roundDone = true := by
  cases hq : s.sees v u with
  | none => simp [flag, hq] at h
  | some q => exact ⟨q, rfl, (flag_of_sees hq).symm.trans h⟩

@[simp]
theorem flag_take (s : Nodes T) (t : Marker) (v u : String) : (s.take t).flag v u = s.flag v u := rfl

@[simp]
theorem flag_write (s : Nodes T) (v other v' u : String) (p : Partition) :
    (s.write v other p).flag v' u = if v' = v ∧ u = other then p.roundDone else s.flag v' u := by
  simp only [flag, sees_write]
  split <;> simp

/-- A `batchDoneTask` leaves the partitions of other nodes as they are. -/
theorem flag_runTask_of_ne (names : List String) (s : Nodes T) (t : Marker) (v : String) {u : String}
    (hu : u ≠ t.1) : (s.runTask names t).flag v u = s.flag v u := by
  have hwrite : ∀ p : Partition, ((s.take t).write t.1 t.1 p).flag v u = s.flag v u := fun p =>
    (flag_write (s.take t) t.1 t.1 v u p).trans (if_neg fun heq => hu heq.2)
  have hruns := runTask_runs names s t
  generalize s.runTask names t = s' at hruns
  cases hruns with
  | missing => rfl
  | counted => exact hwrite _
  | called => exact hwrite _
  | published => exact hwrite _

/-- A node has called `callRoundDone` for the round. -/
def Ended (names : List String) (round : Int) (s : Nodes T) : Prop :=
  ∃ name ∈ names, (name, round) ∈ s.calls

/-- What holds in every state of a round. -/
structure InRound (names : List String) (plan : Plan round) (s : Nodes T) : Prop where
  /-- The maps are those of the plan, up to progress. -/
  shape : ∀ v, plan.Fits (s.sees v)
  member : ∀ t ∈ s.tasks, t.1 ∈ names
  /-- A message comes from a node whose partition is done, and says so. -/
  sent : ∀ m ∈ s.messages, m.2.roundDone = true ∧ m.2.nodeName ∈ names ∧
    s.flag m.2.nodeName m.2.nodeName = true
  /-- While the round has not ended, every node that is done is known to be, or is going to be. -/
  told : ∀ u ∈ names, ∀ v ∈ names, (plan.partitions v).isSome → s.flag u u →
    s.Ended names round ∨ s.flag v u ∨ ∃ m ∈ s.messages, m.1 = v ∧ m.2.nodeName = u

theorem Holding.sees_eq (h : s.Holding names plan) (v u : String) :
    s.sees v u = plan.partitions u := by
  rw [sees, h.nodePartition]

theorem Holding.flag_eq (h : s.Holding names plan) (v u : String) : s.flag v u = false := by
  cases hp : plan.partitions u with
  | none => simp [flag, h.sees_eq, hp]
  | some p => simpa [flag, h.sees_eq, hp] using (plan.fresh u p hp).1

namespace InRound

theorem init (h : s.Holding names plan) : s.InRound names plan := by
  refine ⟨fun v => ?_, fun t ht => ?_, fun m hm => ?_, fun u _ v _ _ hu => ?_⟩
  · rw [show s.sees v = plan.partitions from h.nodePartition v]
    exact .self plan
  · rw [h.tasks] at ht
    obtain ⟨name, hname, ht⟩ := List.mem_flatMap.1 (Multiset.mem_coe.1 ht)
    obtain ⟨i, -, rfl⟩ := List.mem_map.1 ht
    exact hname
  · rw [h.messages] at hm
    cases hm
  · rw [h.flag_eq] at hu
    cases hu

variable (h : s.InRound names plan)
include h

/-- A write that keeps the plan keeps the shape. -/
theorem shape_write {v other : String} {q q' : Partition} (hq : s.sees v other = some q)
    (hreset : q'.reset = q.reset) (v' : String) : plan.Fits ((s.write v other q').sees v') := by
  by_cases hv : v' = v
  · rw [hv]
    exact fits_write (h.shape v) hq hreset
  · rw [sees_write_of_ne hv]
    exact h.shape v'

/-- What a finished node told the others remains to be true when no flag is taken back. -/
theorem told_mono (hflag : ∀ v u, s.flag v u → s'.flag v u)
    (hcalls : s.calls ⊆ s'.calls) (hmessages : ∀ m ∈ s.messages, m ∈ s'.messages)
    {u v : String} (hu : u ∈ names) (hv : v ∈ names) (hp : (plan.partitions v).isSome)
    (hdone : s.flag u u) :
    s'.Ended names round ∨ s'.flag v u ∨ ∃ m ∈ s'.messages, m.1 = v ∧ m.2.nodeName = u := by
  rcases h.told u hu v hv hp hdone with ⟨name, hname, hcall⟩ | hknown | ⟨m, hm, hmu⟩
  · exact .inl ⟨name, hname, hcalls hcall⟩
  · exact .inr (.inl (hflag v u hknown))
  · exact .inr (.inr ⟨m, hmessages m hm, hmu⟩)

/-- After a `batchDoneTask` of a node with the partition `p`: new messages tell of `p`, and either its
end was known before, or the node sees to it now. -/
theorem credit {t : Marker} {p : Partition} {calls : List (String × Int)}
    {messages : Multiset (String × Partition)} (ht : t ∈ s.tasks) (hown : s.own t.1 = some p)
    (hcalls : s.calls ⊆ calls) (hmessages : ∀ m ∈ s.messages, m ∈ messages)
    (hnew : ∀ m ∈ messages, m ∈ s.messages ∨ m.2 = p.credit ∧ p.credit.roundDone)
    (htold : p.credit.roundDone → p.roundDone ∨ (t.1, round) ∈ calls ∨
      ∀ v ∈ names, (plan.partitions v).isSome → (v, p.credit) ∈ messages) :
    { (s.take t).write t.1 t.1 p.credit with calls, messages }.InRound names plan := by
  generalize hs' : { (s.take t).write t.1 t.1 p.credit with calls, messages } = s'
  have hname : p.nodeName = t.1 := (h.shape t.1).nodeName_eq hown
  have hmem := h.member t ht
  have hflag' : ∀ v u, s'.flag v u =
      if v = t.1 ∧ u = t.1 then p.credit.roundDone else s.flag v u := by
    intro v u
    rw [← hs']
    exact flag_write (s.take t) t.1 t.1 v u p.credit
  have hmono : ∀ v u, s.flag v u → s'.flag v u := by
    intro v u hvu
    rw [hflag']
    split
    · rename_i heq
      rw [heq.1, heq.2, flag_of_sees hown] at hvu
      simp [Partition.credit, hvu]
    · exact hvu
  have hm' : s'.messages = messages := hs' ▸ rfl
  have hc' : s'.calls = calls := hs' ▸ rfl
  refine ⟨fun v => ?_, fun t' ht' => ?_, fun m hm => ?_, fun u hu v hv hp hdone => ?_⟩
  · rw [← hs']
    exact h.shape_write (s := s) hown (Partition.reset_credit p) v
  · rw [← hs'] at ht'
    exact h.member t' (Multiset.mem_of_mem_erase ht')
  · rw [hm'] at hm
    rcases hnew m hm with hold | ⟨hm2, hdone⟩
    · obtain ⟨hsay, hsender, hfrom⟩ := h.sent m hold
      exact ⟨hsay, hsender, hmono _ _ hfrom⟩
    · have hfrom : m.2.nodeName = t.1 := by rw [hm2]; exact hname
      refine ⟨hm2 ▸ hdone, hfrom ▸ hmem, ?_⟩
      rw [hfrom, hflag', if_pos ⟨rfl, rfl⟩]
      exact hdone
  · -- a node other than that of the task has told before; its own end is what `htold` is about
    have hbefore : s.flag u u → _ :=
      h.told_mono hmono (hc' ▸ hcalls) (hm' ▸ hmessages) hu hv hp
    by_cases hut : u = t.1
    · subst hut
      rw [hflag', if_pos ⟨rfl, rfl⟩] at hdone
      rcases htold hdone with hp' | hcall | hsent
      · exact hbefore ((flag_of_sees hown).trans hp')
      · exact .inl ⟨t.1, hu, hc' ▸ hcall⟩
      · exact .inr (.inr ⟨(v, p.credit), hm' ▸ hsent v hv hp, rfl, hname⟩)
    · rw [hflag', if_neg fun heq => hut heq.2] at hdone
      exact hbefore hdone

theorem runTask {t : Marker} (ht : t ∈ s.tasks) : (s.runTask names t).InRound names plan := by
  have hruns := runTask_runs names s t
  generalize s.runTask names t = s' at hruns
  cases hruns with
  | missing hown =>
    exact ⟨h.shape, fun t' ht' => h.member t' (Multiset.mem_of_mem_erase ht'), h.sent, h.told⟩
  | @counted p hown hlt =>
    have hsame : p.credit.roundDone = p.roundDone := by
      simp [Partition.credit, Int.not_le.2 hlt]
    exact h.credit ht hown (List.Subset.refl _) (fun _ hm => hm) (fun _ hm => .inl hm)
      fun hdone => .inl (hsame ▸ hdone)
  | @called p hown hle hall =>
    have hround : p.round = round := (h.shape t.1).round_eq hown
    exact h.credit ht hown (List.subset_append_left _ _) (fun _ hm => hm) (fun _ hm => .inl hm)
      fun _ => .inr (.inl (by simp [hround]))
  | @published p hown hle hex =>
    have hdone : p.credit.roundDone = true := by simp [Partition.credit, hle]
    refine h.credit ht hown (List.Subset.refl _) (fun _ hm => Multiset.mem_add.2 (.inl hm))
      (fun m hm => ?_) fun _ => .inr (.inr fun v hv hp => ?_)
    · rcases Multiset.mem_add.1 hm with hold | hnew
      · exact .inl hold
      · obtain ⟨name, -, rfl⟩ := List.mem_map.1 (Multiset.mem_coe.1 hnew)
        exact .inr ⟨rfl, hdone⟩
    · obtain ⟨q, hq⟩ := (h.shape t.1).exists_of_isSome hp
      refine Multiset.mem_add.2 (.inr (Multiset.mem_coe.2 (List.mem_map.2 ⟨v, ?_, rfl⟩)))
      simp [Nodes.told, hv, hq]

/-- The plan has a partition for the sender of a message, so the message is written. -/
theorem deliver_write {m : String × Partition} (hm : m ∈ s.messages) :
    ∃ q, s.sees m.1 m.2.nodeName = some q ∧
      s.deliver m = { s with messages := s.messages.erase m }.write m.1 m.2.nodeName
        { q with roundDone := true } := by
  obtain ⟨hsay, -, hfrom⟩ := h.sent m hm
  obtain ⟨p, hp, -⟩ := sees_of_flag hfrom
  obtain ⟨q, hq⟩ := (h.shape m.1).exists_of_isSome (Option.isSome_of_eq_some ((h.shape _).eq_some hp))
  refine ⟨q, hq, ?_⟩
  rw [deliver_eq, hq, hsay]

theorem flag_deliver {m : String × Partition} (hm : m ∈ s.messages) (v u : String) :
    (s.deliver m).flag v u = if v = m.1 ∧ u = m.2.nodeName then true else s.flag v u := by
  obtain ⟨q, -, heq⟩ := h.deliver_write hm
  rw [heq]
  exact flag_write _ _ _ _ _ _

theorem deliver {m : String × Partition} (hm : m ∈ s.messages) :
    (s.deliver m).InRound names plan := by
  obtain ⟨hsay, hsender, hfrom⟩ := h.sent m hm
  obtain ⟨q, hq, heq⟩ := h.deliver_write hm
  have hmono : ∀ v u, s.flag v u → (s.deliver m).flag v u := by
    intro v u hvu
    rw [h.flag_deliver hm]
    split
    · rfl
    · exact hvu
  -- a message of a node to itself tells it what it knows
  have hself : ∀ u, (s.deliver m).flag u u → s.flag u u := by
    intro u hu
    rw [h.flag_deliver hm] at hu
    split at hu
    · rename_i hum
      exact hum.2 ▸ hfrom
    · exact hu
  have hmessages : (s.deliver m).messages = s.messages.erase m := by rw [heq]; rfl
  refine ⟨fun v => ?_, fun t ht => ?_, fun m' hm' => ?_, fun u hu v hv hp hdone => ?_⟩
  · have hreset : { q with roundDone := true }.reset = q.reset := rfl
    rw [heq]
    exact h.shape_write (s := s) hq hreset v
  · rw [heq] at ht
    exact h.member t ht
  · rw [hmessages] at hm'
    obtain ⟨hsay', hsender', hfrom'⟩ := h.sent m' (Multiset.mem_of_mem_erase hm')
    exact ⟨hsay', hsender', hmono _ _ hfrom'⟩
  · rcases h.told u hu v hv hp (hself u hdone) with ⟨name, hname, hcall⟩ | hknown | ⟨m', hm', hv', hu'⟩
    · exact .inl ⟨name, hname, by rw [heq]; exact hcall⟩
    · exact .inr (.inl (hmono v u hknown))
    · by_cases hmm : m' = m
      · subst hmm
        refine .inr (.inl ?_)
        rw [h.flag_deliver hm, if_pos ⟨hv'.symm, hu'.symm⟩]
      · exact .inr (.inr ⟨m', hmessages ▸ (Multiset.mem_erase_of_ne hmm).2 hm', hv', hu'⟩)

omit h in
theorem reachable {ok : Nodes T → Turn → Prop} (hr : (oneRound T names plan).ReachableWhen ok s) :
    s.InRound names plan := by
  refine hr.invariant _ (fun _ => init) fun s e s' _ h _ hstep => ?_
  rcases turn_cases hstep with ⟨t, ht, -, rfl⟩ | ⟨m, hm, -, rfl⟩
  · exact h.runTask ht
  · exact h.deliver hm

end InRound

/-! ## A round that ends -/

/-- A round has ended, or a node is still at work. -/
def Attended (names : List String) (round : Int) (s : Nodes T) : Prop :=
  s.Ended names round ∨ ∃ name ∈ names, s.flag name name = false

/-- A node that finishes while no message comes to it knows of all others that have finished. -/
theorem Attended.runTask (h : s.InRound names plan) {t : Marker} (ht : t ∈ s.tasks)
    (hok : s.InformedLast names (.task t)) (hatt : s.Attended names round) :
    (s.runTask names t).Attended names round := by
  have hruns := runTask_runs names s t
  generalize s.runTask names t = s' at hruns
  cases hruns with
  | missing hown => exact hatt
  | @counted p hown hlt =>
    have hsame : p.credit.roundDone = p.roundDone := by
      simp [Partition.credit, Int.not_le.2 hlt]
    rcases hatt with hended | ⟨name, hname, hflag⟩
    · exact .inl hended
    refine .inr ⟨name, hname, ?_⟩
    rw [flag_write]
    split
    · rename_i heq
      rw [hsame, ← flag_of_sees hown, ← heq.1]
      exact hflag
    · exact hflag
  | @called p hown hle hall =>
    have hround : p.round = round := (h.shape t.1).round_eq hown
    exact .inl ⟨t.1, h.member t ht, by simp [hround]⟩
  | @published p hown hle hex =>
    obtain ⟨other, hother, hne, q, hq, hname, hqdone⟩ := hex
    rcases hatt with hended | -
    · exact .inl hended
    by_cases hall : ∀ name ∈ names, name ≠ t.1 → s.roundDone name
    · have hfinishes : s.finishes t.1 := by simp [finishes, hown, hle]
      have hplan := Option.isSome_of_eq_some ((h.shape t.1).eq_some hown)
      rcases h.told other hother t.1 (h.member t ht) hplan (hall other hother hne)
        with hended | hknown | ⟨m, hm, hm1, -⟩
      · exact .inl hended
      · rw [flag_of_sees hq, hqdone] at hknown
        cases hknown
      · exact absurd hm1 (hok hfinishes hall m hm)
    · push Not at hall
      obtain ⟨name, hname, hnt, hflag⟩ := hall
      refine .inr ⟨name, hname, ?_⟩
      refine (flag_write (s.take t) t.1 t.1 name name p.credit).trans ?_
      rw [if_neg fun heq => hnt heq.1, flag_take, flag_self]
      simpa using hflag

theorem Attended.deliver (h : s.InRound names plan) {m : String × Partition} (hm : m ∈ s.messages)
    (hatt : s.Attended names round) : (s.deliver m).Attended names round := by
  obtain ⟨-, -, hfrom⟩ := h.sent m hm
  obtain ⟨q, -, heq⟩ := h.deliver_write hm
  rcases hatt with ⟨name, hname, hcall⟩ | ⟨name, hname, hflag⟩
  · exact .inl ⟨name, hname, by rw [heq]; exact hcall⟩
  · refine .inr ⟨name, hname, ?_⟩
    rw [h.flag_deliver hm]
    split
    · rename_i hnm
      rw [← hnm.2, hflag] at hfrom
      cases hfrom
    · exact hflag

theorem attended_reachable (hne : names ≠ [])
    (hr : (oneRound T names plan).ReachableWhen (fun s e => s.InformedLast names e) s) :
    s.Attended names round := by
  refine hr.invariant _ (fun s hinit => ?_) fun s e s' hr hatt hok hstep => ?_
  · obtain ⟨name, hname⟩ := List.exists_mem_of_ne_nil names hne
    exact .inr ⟨name, hname, hinit.flag_eq name name⟩
  · have h := InRound.reachable hr
    rcases turn_cases hstep with ⟨t, ht, rfl, rfl⟩ | ⟨m, hm, rfl, rfl⟩
    · exact hatt.runTask h ht hok
    · exact hatt.deliver h hm

/-- In every run in which no node is the last to finish with a `SyncPartitionDone` still coming to it,
the round has ended once every node's own partition is done. -/
theorem round_completes (hne : names ≠ [])
    (hr : (oneRound T names plan).ReachableWhen (fun s e => s.InformedLast names e) s)
    (hdone : ∀ name ∈ names, s.roundDone name) : ∃ name ∈ names, (name, round) ∈ s.calls := by
  rcases attended_reachable hne hr with hended | ⟨name, hname, hflag⟩
  · exact hended
  · rw [flag_self, hdone name hname] at hflag
    cases hflag

/-- The nodes of a round, with build functions that are never called. -/
def holding (T : Type) (names : List String) {round : Int} (plan : Plan round) : Nodes T where
  allocator := fun _ => { nodePartition := plan.partitions }
  tasks := Multiset.ofList (roundMarkers names plan)

theorem holding_holding (names : List String) (plan : Plan round) :
    (holding T names plan).Holding names plan := ⟨fun _ => rfl, rfl, rfl, rfl⟩

/-- The second of two nodes learns of the first before it finishes. -/
theorem round_completes_informed :
    ∃ s : Nodes Unit, (∀ name ∈ ["a", "b"], s.roundDone name) ∧
      ∃ name ∈ ["a", "b"], (name, (7 : Int)) ∈ s.calls := by
  have hrun : (((oneRound Unit ["a", "b"] (.ofStartAlloc ["a", "b"] 7)).restrict
      (fun s e => s.InformedLast ["a", "b"] e)).run (holding Unit ["a", "b"] (.ofStartAlloc ["a", "b"] 7))
        [.task ("a", 7, 0), .deliver ("b", donePartition 2 7 0 "a"),
          .task ("b", 7, 0)]).map (fun s => ["a", "b"].map s.roundDone) = some [true, true] := by
    decide
  obtain ⟨s, hr, hs⟩ := Machine.observedWhen_of_run hrun (holding_holding _ _)
  have hdone : ∀ name ∈ ["a", "b"], s.roundDone name := by simpa using hs
  exact ⟨s, hdone, round_completes (by simp) hr hdone⟩

/-- Two nodes finish before either hears of the other: all is done and delivered, and no node has
called `callRoundDone`. -/
theorem crossing_completions :
    ∃ s : Nodes Unit, (oneRound Unit ["a", "b"] (.ofStartAlloc ["a", "b"] 7)).Reachable s ∧
      (∀ name ∈ ["a", "b"], s.roundDone name) ∧ s.messages = 0 ∧ s.calls = [] := by
  have hrun : ((oneRound Unit ["a", "b"] (.ofStartAlloc ["a", "b"] 7)).run
      (holding Unit ["a", "b"] (.ofStartAlloc ["a", "b"] 7))
      [.task ("a", 7, 0), .task ("b", 7, 0),
        .deliver ("a", donePartition 2 7 0 "a"), .deliver ("b", donePartition 2 7 0 "a"),
        .deliver ("a", donePartition 2 7 1 "b"),
        .deliver ("b", donePartition 2 7 1 "b")]).map
        (fun s => (["a", "b"].map s.roundDone, s.messages, s.calls)) =
      some ([true, true], 0, []) := by
    decide
  obtain ⟨s, hr, hs⟩ := Machine.observed_of_run hrun (holding_holding _ _)
  simp only [Prod.mk.injEq] at hs
  exact ⟨s, hr, by simpa using hs.1, hs.2⟩

end OwnX.Task.Nodes
