import OwnX.Cluster.Proofs.MemberProofs

/-!
# Proofs: what moves the leadership of a member

A message of a term that is over should not move the leadership of a member. Three of the message
handlers do not compare the term of the message; here is exactly when it matters.
-/

set_option linter.dupNamespace false

namespace OwnX.Cluster

namespace Standing

variable {s : Standing} {m : NodeMsg}

/-! ## Messages of an earlier term -/

theorem lead_ne (id : String) (h : s.nodeLeader ≠ some id) : (s.lead id).nodeLeader ≠ s.nodeLeader :=
  fun he => h he.symm

/-- A term that is over is recorded: nothing is raised to the own term. -/
theorem term_record_stale (hs : s.Coherent) {ids : List String} {t : Int} (ht : t < s.own)
    (id : String) : (s.record ids t).term id = (s.record ids t).own ↔ s.term id = s.own := by
  have hle := hs.terms id
  rw [own_record, max_eq_left ht.le]
  show (if _ then max (s.term id) t else s.term id) = s.own ↔ _
  split_ifs
  · rcases le_total (s.term id) t with hc | hc
    · rw [max_eq_right hc]
      omega
    · rw [max_eq_left hc]
  · exact Iff.rfl

theorem coherent_record_stale (hs : s.Coherent) {t : Int} (ht : t < s.own) (ids : List String) :
    (s.record ids t).Coherent := hs.record fun _ _ => Or.inl ht.le

/-- The answer of an earlier term to `msgSAskLeader`: the leader it names is signed if it is online
and the member has heard of it in the own term. -/
theorem hearAnswer_askLeader (hs : s.Coherent) (ht : m.term < s.own) (nodesAlive : List String) :
    ((s.hearAnswer nodesAlive .rAskLeader m).status = s.status ∧
      (s.hearAnswer nodesAlive .rAskLeader m).nodeLeader = s.nodeLeader) ↔
    (m.leaderId ≠ "" → m.leaderId ∈ nodesAlive → m.leaderId ∈ s.nodesAll →
      s.term m.leaderId = s.own → s.nodeLeader = some m.leaderId) := by
  have hrec := coherent_record_stale hs ht [m.nodeId, m.leaderId]
  unfold hearAnswer
  rw [if_neg (fun h => (not_lt_of_gt ht) h.2)]
  simp only [record_nodesAll]
  by_cases hnamed : m.leaderId ≠ "" ∧ m.leaderId ∈ nodesAlive ∧ m.leaderId ∈ s.nodesAll
  · rw [if_pos hnamed, hrec.sign_eq]
    simp only [term_record_stale hs ht, record_nodeLeader]
    by_cases hsign : s.term m.leaderId = s.own ∧ s.nodeLeader ≠ some m.leaderId
    · rw [if_pos hsign]
      constructor
      · rintro ⟨-, he⟩
        exact absurd he (lead_ne _ hsign.2)
      · intro h
        exact absurd (h hnamed.1 hnamed.2.1 hnamed.2.2 hsign.1) hsign.2
    · rw [if_neg hsign]
      refine ⟨fun _ _ _ _ hterm => ?_, fun _ => ⟨rfl, rfl⟩⟩
      by_contra hne
      exact hsign ⟨hterm, hne⟩
  · rw [if_neg hnamed]
    exact ⟨fun _ h₁ h₂ h₃ => absurd ⟨h₁, h₂, h₃⟩ hnamed, fun _ => ⟨rfl, rfl⟩⟩

/-- The refusal `msgRLeader` of an earlier term: a leader steps down. -/
theorem hearAnswer_leader (ht : m.term < s.own) (nodesAlive : List String) :
    ((s.hearAnswer nodesAlive .rLeader m).status = s.status ∧
      (s.hearAnswer nodesAlive .rLeader m).nodeLeader = s.nodeLeader) ↔
    (m.success = some false → s.nodeLeader ≠ some s.nodeMy) := by
  unfold hearAnswer
  rw [if_neg (fun h => (not_lt_of_gt ht) h.2)]
  simp only [record_nodeLeader, record_nodeMy]
  by_cases hrefuse : m.success = some false ∧ s.nodeLeader = some s.nodeMy
  · rw [if_pos hrefuse]
    constructor
    · rintro ⟨-, he⟩
      cases he.trans hrefuse.2
    · intro h
      exact absurd hrefuse.2 (h hrefuse.1)
  · rw [if_neg hrefuse]
    exact ⟨fun _ h₁ h₂ => hrefuse ⟨h₁, h₂⟩, fun _ => ⟨rfl, rfl⟩⟩

theorem hearVote_iff : (s.hearVote.status = s.status ∧ s.hearVote.nodeLeader = s.nodeLeader) ↔
    s.status ≠ .leader := by
  unfold hearVote
  split_ifs with hl
  · rw [hl]
    simp [release]
  · simp [hl]

end Standing

/-- A message of this kind does not reach a handler that acts on it without comparing its term. -/
def Cluster.ComparesTerm (c : Cluster) (request : Bool) (flag : Flag) (m : NodeMsg) : Prop :=
  match request, flag with
  | true, .sGetVote => c.status ≠ .leader
  | false, .rAskLeader =>
    m.leaderId ≠ "" → m.leaderId ∈ c.nodesAlive → m.leaderId ∈ c.nodesAll →
      (c.nodes m.leaderId).term = c.getMyTerm → c.nodeLeader = some m.leaderId
  | false, .rLeader => m.success = some false → c.nodeLeader ≠ some c.nodeMy
  | _, _ => True

open Cluster

variable {conf : Conf} {my : String} {c : Cluster}

/-- A message of an earlier term leaves the status and the leader alone exactly if it is not a vote
request to a leader, not the refusal of one, and not an answer that names an online node of the own
term which is not the leader. -/
theorem stale_message_iff (h : (member conf my).Reachable c) {m : NodeMsg} (ht : m.term < c.getMyTerm)
    (env : Env) (request : Bool) (flag : Flag) :
    ((c.receive env request flag m).status = c.status ∧
      (c.receive env request flag m).nodeLeader = c.nodeLeader) ↔
    c.ComparesTerm request flag m := by
  have hcoh := coherent_reachable h
  have ht : m.term < c.standing.own := ht
  have hst : (c.receive env request flag m).status = (c.standing.hear c.nodesAlive request flag m).status :=
    congrArg Standing.status (standing_receive c env request flag m)
  have hlead : (c.receive env request flag m).nodeLeader =
      (c.standing.hear c.nodesAlive request flag m).nodeLeader :=
    congrArg Standing.nodeLeader (standing_receive c env request flag m)
  rw [hst, hlead]
  cases request with
  | true =>
    cases flag with
    | sGetVote => exact Standing.hearVote_iff
    | sBroadcastLeader =>
      have hsame : c.standing.hear c.nodesAlive true .sBroadcastLeader m = c.standing := if_pos ht
      rw [hsame]
      exact ⟨fun _ => trivial, fun _ => ⟨rfl, rfl⟩⟩
    | _ => exact ⟨fun _ => trivial, fun _ => ⟨rfl, rfl⟩⟩
  | false =>
    have hans : ∀ flag, c.standing.hear c.nodesAlive false flag m =
      c.standing.hearAnswer c.nodesAlive flag m := fun _ => rfl
    rw [hans]
    cases flag with
    | rAskLeader => exact Standing.hearAnswer_askLeader hcoh ht _
    | rLeader => exact Standing.hearAnswer_leader ht _
    | _ =>
      unfold Standing.hearAnswer
      rw [if_neg (fun h => (not_lt_of_gt ht) h.2)]
      exact ⟨fun _ => trivial, fun _ => ⟨rfl, rfl⟩⟩

/-- The node `a:1` wins the first term with the vote of `b:1`. -/
def elected : List Input :=
  [does 0 .startUp, does 0 (.connect "b:1"), does 0 .assignConnector, does 0 (.fight .start),
    does 0 (.fight (.askLeader 1)), does 0 (.fight (.settle 1)),
    answered .rGetVote { nodeId := "b:1", term := 1, success := some true },
    does 0 (.fight (.getVote 1)),
    answered .rLeader { nodeId := "b:1", term := 1, success := some true },
    does 0 (.fight (.confirm 1))]

/-- The request for a vote in the term `0`. -/
def oldRequest : NodeMsg := { nodeId := "b:1", term := 0 }

/-- The leader of term `1` steps down on a vote request of term `0`, which it refuses. -/
theorem stale_request_deposes :
    ∃ c env, (member twoNodes "a:1").Reachable c ∧ oldRequest.term < c.getMyTerm ∧
      c.status = .leader ∧ (c.receive env true .sGetVote oldRequest).status = .follower ∧
      (c.receive env true .sGetVote oldRequest).nodeLeader = none := by
  have hrun : ((member twoNodes "a:1").run (create twoNodes "a:1" 0) elected).map
      (fun c => (c.getMyTerm, c.status)) = some (1, .leader) := by
    decide
  obtain ⟨c, hr, he⟩ := Machine.observed_of_run hrun ⟨0, rfl⟩
  obtain ⟨hmy, hst⟩ := Prod.mk.inj he
  have hstand := standing_receive c ⟨0, "", fun _ => true⟩ true .sGetVote oldRequest
  have hrel : c.standing.hearVote = c.standing.release := if_pos hst
  have hstand : (c.receive ⟨0, "", fun _ => true⟩ true .sGetVote oldRequest).standing =
    c.standing.release := hstand.trans hrel
  refine ⟨c, ⟨0, "", fun _ => true⟩, hr, ?_, hst, congrArg Standing.status hstand,
    congrArg Standing.nodeLeader hstand⟩
  rw [hmy]
  decide

/-- The same leader has a broadcast of term `0`, and stays. -/
theorem stale_message_iff_broadcast :
    ∃ c env, (member twoNodes "a:1").Reachable c ∧ oldRequest.term < c.getMyTerm ∧
      (c.receive env true .sBroadcastLeader oldRequest).status = c.status ∧
      (c.receive env true .sBroadcastLeader oldRequest).nodeLeader = c.nodeLeader := by
  have hrun : ((member twoNodes "a:1").run (create twoNodes "a:1" 0) elected).map
      getMyTerm = some 1 := by
    decide
  obtain ⟨c, hr, hmy⟩ := Machine.observed_of_run hrun ⟨0, rfl⟩
  have ht : oldRequest.term < c.getMyTerm := by
    rw [hmy]
    decide
  exact ⟨c, ⟨0, "", fun _ => true⟩, hr, ht,
    (stale_message_iff hr ht ⟨0, "", fun _ => true⟩ true .sBroadcastLeader).mpr trivial⟩

end OwnX.Cluster
