import Mathlib.Data.Finset.Dedup
import Mathlib.Data.Finset.Order
import OwnX.Cluster.Proofs.CampaignProofs

/-!
# Proofs: a cluster can always elect a leader again

No run takes a cluster into a state from which there is no way out: a member that has no leader and is in
touch with a majority can still become the leader, in a term that no one has voted in yet.
-/

set_option linter.dupNamespace false

namespace OwnX.Cluster

/-- The request for votes of the node `v`. -/
def voteRequest (v : String) (u : Int) (uuid : String) : NodeMsg where
  nodeId := v
  term := u
  reqId := uuid

/-- The broadcast of the new leader `v`. -/
def announcement (v : String) (u : Int) (uuid : String) : NodeMsg where
  nodeId := v
  term := u
  leaderId := v
  reqId := uuid
  flag := "1"

namespace Cluster

variable {c c₀ : Cluster} {env : Env} {b t u : Int} {m : NodeMsg}

/-! ## What the others answer -/

/-- A member grants a vote that it has not given yet, in its own term or a later one. -/
theorem onGetVote_grants (env : Env) (hfree : c.getMyNode.getVoteToNode m.term = "")
    (hterm : c.getMyTerm ≤ m.term) :
    (c.onGetVote env m).2 = [(.rGetVote,
      { nodeId := c.nodeMy, term := m.term, reqId := m.reqId, success := some true })] := by
  have hgrant : (c.getMyNode.voteToNode m.term m.nodeId).2 = true := by
    rw [voteToNode_eq, if_pos ⟨hfree, hterm⟩]
  unfold onGetVote
  simp only
  split_ifs
  · show [(Flag.rGetVote, (⟨c.nodeMy, m.term, "", m.reqId,
      some (c.getMyNode.voteToNode m.term m.nodeId).2, ""⟩ : NodeMsg))] = _
    rw [hgrant]
  · rw [hgrant]

theorem getMyTerm_onGetVote (env : Env) : (c.onGetVote env m).1.getMyTerm = c.getMyTerm := by
  have hstands : (c.onGetVote env m).1.standing = c.standing.hearVote := standing_onGetVote m
  have hown : c.standing.hearVote.own = c.standing.own := by
    unfold Standing.hearVote
    split_ifs
    · rfl
    · rfl
  exact (congrArg Standing.own hstands).trans hown

/-- A member confirms a leader that is announced in its own term or a later one. -/
theorem onBroadcastLeader_confirms (h : c.standing.Coherent) (env : Env)
    (hid : m.leaderId ∈ c.nodesAll) (hterm : c.getMyTerm ≤ m.term) (hflag : m.flag = "1") :
    (.rLeader, { nodeId := c.nodeMy, term := m.term, reqId := m.reqId, success := some true }) ∈
      (c.onBroadcastLeader env m).2 := by
  have hcoh : (c.enterTerm env m).standing.Coherent := by
    rw [standing_enterTerm]
    exact h.enter m
  obtain ⟨hown, hleader⟩ := h.term_enter hid hterm
  rw [← standing_enterTerm c env] at hown hleader
  have hsigns : ((c.enterTerm env m).signLeader m.leaderId).2 = true :=
    signLeader_accepts hcoh (hleader.trans hown.symm)
  have henter : SameVotes c (c.enterTerm env m) := sameVotes_enterTerm m
  have hanswer : ∀ c₁ : Cluster, c₁.registry = (c.enterTerm env m).registry →
      c₁.answerLeader m true =
        (.rLeader, { nodeId := c.nodeMy, term := m.term, reqId := m.reqId, success := some true }) := by
    intro c₁ hreg
    have hmy : c₁.nodeMy = c.nodeMy := (congrArg Prod.fst hreg).trans henter.my
    have hterm₁ : c₁.getMyTerm = m.term := by
      unfold getMyTerm
      rw [getMyNode_of_registry hreg]
      exact hown
    unfold answerLeader
    rw [hmy, hterm₁]
  unfold onBroadcastLeader
  rw [if_neg (not_lt.mpr hterm)]
  simp only
  split_ifs with hsame hall
  · rw [hanswer _ rfl]
    exact List.mem_cons_of_mem _ (List.mem_singleton_self _)
  · rw [hsigns, hanswer _ (registry_signLeader _)]
    exact List.mem_cons_of_mem _ (List.mem_singleton_self _)
  · exact absurd (henter.all ▸ hid) hall

/-! ## What the answers do to the member -/

namespace Seeks

/-- The standing of a member that has no leader only takes note of an answer. -/
theorem standing_answer (h : Seeks c₀ b u c) (env : Env) {flag : Flag}
    (hflag : flag = .rGetVote ∨ flag = .rLeader) (hsucc : m.success = some true) :
    (c.nodeReceived env flag m).standing = c.standing.record [m.nodeId, m.leaderId] m.term := by
  have hnone : c.standing.nodeLeader = none := h.leader
  rw [standing_nodeReceived]
  unfold Standing.hearAnswer
  rw [hnone]
  simp only [Option.isSome_none, Bool.false_eq_true, false_and, if_false]
  rcases hflag with rfl | rfl
  · rfl
  · simp only [hsucc]
    exact if_neg (by simp)

/-- An answer in the own term leaves the member without a leader. -/
theorem answer (h : Seeks c₀ b u c) {flag : Flag} (hflag : flag = .rGetVote ∨ flag = .rLeader)
    (hsucc : m.success = some true) (hterm : m.term = u)
    (hvotes : (c.nodeReceived env flag m).VotesUpTo b) :
    Seeks c₀ b u (c.nodeReceived env flag m) := by
  have hstands := h.standing_answer env hflag hsucc
  have hlinks : (c.nodeReceived env flag m).links = c.links :=
    congrArg Workings.links (workings_nodeReceived c env flag m)
  have hkeeps : c.Keeps (c.nodeReceived env flag m) := keeps_nodeReceived flag m
  refine ⟨?_, ?_, ?_, ?_, hvotes⟩
  · rw [← h.setting]
    unfold Cluster.setting
    rw [hlinks, hkeeps.holding, hkeeps.closeOnce]
    have hmy : (c.nodeReceived env flag m).nodeMy = c.nodeMy := congrArg Standing.nodeMy hstands
    have hall : (c.nodeReceived env flag m).nodesAll = c.nodesAll := congrArg Standing.nodesAll hstands
    rw [hmy, hall]
  · have hown : (c.nodeReceived env flag m).getMyTerm = max c.getMyTerm m.term :=
      (congrArg Standing.own hstands).trans (Standing.own_record _ _)
    rw [hown, h.term, hterm, max_self]
  · exact (congrArg Standing.nodeLeader hstands).trans h.leader
  · have hst : (c.nodeReceived env flag m).status = c.status := congrArg Standing.status hstands
    rw [hst]
    exact h.status

end Seeks

/-- A granted vote is counted. -/
theorem getMyNode_nodeReceived_vote (env : Env) (hleader : c.nodeLeader = none)
    (hsucc : m.success = some true) :
    (c.nodeReceived env .rGetVote m).getMyNode.voteNode = c.getMyNode.voteNode ∧
      ∀ t, (c.nodeReceived env .rGetVote m).getMyNode.getVoteCount t =
        c.getMyNode.getVoteCount t + if t = m.term then 1 else 0 := by
  have hrec : SameVotes c (c.recordMsg env m) := sameVotes_recordMsg m
  have hmy : (c.nodeReceived env .rGetVote m).getMyNode =
      (c.recordMsg env m).getMyNode.addVoteCount m.term := by
    unfold nodeReceived
    rw [hleader]
    simp only [Option.isSome_none, Bool.false_eq_true, false_and, if_false]
    unfold onGetVoteReply
    simp only
    rw [if_pos hsucc, getMyNode_of_registry (registry_deliver m), getMyNode_setNode, if_pos rfl]
  rw [hmy]
  refine ⟨hrec.node, fun t => ?_⟩
  rw [getVoteCount_addVoteCount]
  unfold Node.getVoteCount
  rw [hrec.count]

theorem fights_nodeReceived {flag : Flag} {f : Fight} (env : Env) (hf : f ∈ c.fights) (hne : f ≠ .start) :
    f ∈ (c.nodeReceived env flag m).fights := by
  have hinv : (c.nodeReceived env flag m).invocations = c.invocations :=
    congrArg Workings.invocations (workings_nodeReceived c env flag m)
  have hmem : f ∈ (c.nodeReceived env flag m).invocations := by
    rw [hinv]
    exact mem_invocations.mpr ⟨hf, hne⟩
  exact (mem_invocations.mp hmem).1

namespace Seeks

theorem votes_answer (h : Seeks c₀ b u c) (hu : u ≤ b) (hsucc : m.success = some true)
    (hterm : m.term = u) : Seeks c₀ b u (c.nodeReceived env .rGetVote m) := by
  obtain ⟨hnode, hcount⟩ := getMyNode_nodeReceived_vote env h.leader hsucc
  refine h.answer (Or.inl rfl) hsucc hterm fun t ht => ?_
  obtain ⟨h₁, h₂⟩ := h.votes t ht
  refine ⟨?_, ?_⟩
  · unfold Node.getVoteToNode
    rw [hnode]
    exact h₁
  · rw [hcount, if_neg (by omega), add_zero]
    exact h₂

/-- A confirmation is among the answers that the member waits for. -/
theorem confirms_answer (h : Seeks c₀ b u c) (env : Env) (hsucc : m.success = some true)
    (hterm : m.term = u) {w : Wait} (hw : c.sendAndWaitChan = some w) (hdone : w.done = false) :
    Seeks c₀ b u (c.nodeReceived env .rLeader m) ∧
      (c.nodeReceived env .rLeader m).returnWait.2 = w.nodeMsgList ++ [m] := by
  have hrec : SameVotes c (c.recordMsg env m) := sameVotes_recordMsg m
  have hchan : (c.recordMsg env m).sendAndWaitChan = some w := (wait_recordMsg m).trans hw
  have heq : c.nodeReceived env .rLeader m = (c.recordMsg env m).deliver m := by
    unfold nodeReceived
    rw [h.leader]
    simp only [Option.isSome_none, Bool.false_eq_true, false_and, if_false]
    unfold onLeaderReply
    simp only [hsucc]
    rw [if_neg (by simp)]
  refine ⟨h.answer (Or.inr rfl) hsucc hterm (h.votes.of_getMyNode ?_ ?_), ?_⟩
  · rw [heq, getMyNode_of_registry (registry_deliver m), hrec.count]
  · rw [heq, getMyNode_of_registry (registry_deliver m), hrec.node]
  · rw [heq]
    unfold deliver
    rw [hchan]
    simp only [hdone, Bool.false_eq_true, if_false]
    rfl

/-! ## What the member sends -/

theorem setting_eq (h : Seeks c₀ b u c) :
    c.nodeMy = c₀.nodeMy ∧ c.nodesAll = c₀.nodesAll ∧ c.links = c₀.links := by
  have hset := h.setting
  simp only [Cluster.setting, Prod.mk.injEq] at hset
  exact ⟨hset.1, hset.2.1, hset.2.2.1⟩

/-- A message goes to every node that the member has a connector of and can write to. -/
theorem mem_sendAndWait (h : Seeks c₀ b u c) {w : String} (hw : w ∈ c₀.connected)
    (hok : env.writeOk w = true) (flag : Flag) (data : NodeMsg) :
    (w, flag, { data with reqId := env.uuid }) ∈ (c.sendAndWait env flag data).2 := by
  obtain ⟨hmy, hall, hlinks⟩ := h.setting_eq
  have hconn : (c.nodes w).nodeConnector = (c₀.nodes w).nodeConnector :=
    congrFun (congrArg Links.nodeConnector hlinks) w
  obtain ⟨hmem, hok'⟩ := List.mem_filter.1 hw
  unfold Cluster.sendAndWait
  simp only
  refine List.mem_map.2 ⟨w, List.mem_filter.2 ⟨hall ▸ hmem, ?_⟩, rfl⟩
  rw [hmy, hconn, hok, Bool.and_true]
  exact hok'

/-- A member that enters the vote loop asks for votes. -/
theorem becomeCandidate_asks (h : Seeks c₀ b u c) (hmaj : c₀.hasMajority = true) (env : Env) :
    ∃ c' out, c.becomeCandidate env u = (c'.goFight (.getVote u), out) ∧ Seeks c₀ b u c' ∧
      ∀ w ∈ c₀.connected, env.writeOk w = true →
        (w, .sGetVote, voteRequest c₀.nodeMy u env.uuid) ∈ out := by
  have hcand : Seeks c₀ b u (if c.status = .follower then c.setStatus .candidate else c) := h.candidate
  have hst : (if c.status = .follower then c.setStatus .candidate else c).status = .candidate := by
    split_ifs with hfollow
    · rfl
    · exact h.status.resolve_right hfollow
  unfold becomeCandidate
  rw [h.leader, if_neg (by simp), if_neg h.ne_closed]
  simp only
  generalize (if c.status = .follower then c.setStatus .candidate else c) = c₁ at hcand hst
  have hclear := hcand.clear
  have hst₂ : (c₁.setNode c₁.nodeMy c₁.getMyNode.clear).status = .candidate := hst
  generalize c₁.setNode c₁.nodeMy c₁.getMyNode.clear = c₂ at hclear hst₂
  unfold voteLoop
  rw [hclear.leader, hst₂, hclear.term, hclear.majority hmaj, hclear.setting_eq.1]
  simp only [Option.isSome_none, Bool.false_eq_true, if_false, if_true, ne_eq, not_true_eq_false,
    lt_irrefl]
  exact ⟨_, _, rfl, hclear.sendAndWait _ _, fun w hw hok => hclear.mem_sendAndWait hw hok _ _⟩

/-- The vote of the member for itself. -/
theorem getVoteCount_voteForMyself (h : Seeks c₀ b u c) (hfree : c.getMyNode.getVoteToNode u = "") :
    (c.voteForMyself u).getMyNode.getVoteCount u = c.getMyNode.getVoteCount u + 1 := by
  have hgrant : c.getMyNode.voteToNode u c.nodeMy =
      ({ c.getMyNode with voteNode := c.getMyNode.voteNode.insert u c.nodeMy }, true) := by
    rw [voteToNode_eq, if_pos ⟨hfree, h.term.le⟩]
  unfold Cluster.voteForMyself
  simp only
  rw [hgrant, if_pos rfl, getMyNode_setNode, if_pos rfl, getVoteCount_addVoteCount, if_pos rfl]
  rfl

/-- The votes of more than half of the nodes win the election. -/
theorem wonVote (h : Seeks c₀ b u c) (hcoh : c.standing.Coherent)
    (hcount : ((c₀.nodesAll.length / 2 : Nat) : Int) < c.getMyNode.getVoteCount u) :
    c.wonVote u = true := by
  unfold Cluster.wonVote
  rw [Bool.and_eq_true, Bool.and_eq_true, decide_eq_true_iff, decide_eq_true_iff]
  refine ⟨⟨?_, ?_⟩, h.term.le⟩
  · unfold getAllNodeNames
    rw [List.length_map, h.setting_eq.2.1]
    exact hcount
  · rw [List.all_eq_true]
    intro id _
    rw [Bool.or_eq_true, decide_eq_true_iff, decide_eq_true_iff]
    have hid : (c.nodes id).term ≤ c.getMyTerm := hcoh.terms id
    exact Or.inr (hid.trans h.term.le)

/-- A member with enough votes broadcasts itself. -/
theorem countVotes_wins (h : Seeks c₀ b u c) (hu : u ≤ b) (hcoh : c.standing.Coherent)
    (hfree : c.getMyNode.getVoteToNode u = "")
    (hcount : ((c₀.nodesAll.length / 2 : Nat) : Int) < c.getMyNode.getVoteCount u + 1) (env : Env) :
    ∃ c' w out, c.countVotes env u = (c'.goFight (.confirm u), out) ∧ Seeks c₀ b u c' ∧
      c'.sendAndWaitChan = some w ∧ w.done = false ∧ w.nodeMsgList = [] ∧
      ∀ x ∈ c₀.connected, env.writeOk x = true →
        (x, .sBroadcastLeader, announcement c₀.nodeMy u env.uuid) ∈ out := by
  have hwait : Seeks c₀ b u c.returnWait.1 := h.setWait none
  have hself : Seeks c₀ b u (c.returnWait.1.voteForMyself u) := hwait.voteForMyself hu
  have hcoh₁ : (c.returnWait.1.voteForMyself u).standing.Coherent := by
    rw [standing_voteForMyself, standing_returnWait]
    exact hcoh
  have hwon : (c.returnWait.1.voteForMyself u).wonVote u = true := by
    refine hself.wonVote hcoh₁ ?_
    rw [hwait.getVoteCount_voteForMyself hfree]
    exact hcount
  unfold countVotes
  simp only
  rw [if_pos hwon, hself.setting_eq.1]
  exact ⟨_, _, _, rfl, hself.sendAndWait _ _, rfl, rfl, rfl,
    fun x hx hok => hself.mem_sendAndWait hx hok _ _⟩

end Seeks

end Cluster

/-! ## The members together -/

/-- No one but the member `v` takes a step of its own, and that is a turn of its heartbeat or a stretch of
an election. A message is delivered over an open connection, to a member that has been started and has
not been closed. -/
def Undisturbed (v : String) (s : Network) : Event → Prop
  | .act id env a => id = v ∧ OwnStep (s.members v) (.act env a)
  | .receive _ p => (s.members p.dst).Running ∧
      (if p.request then (s.members p.src).links.isOpen p.dst
        else (s.members p.dst).links.isOpen p.src) = true

section

open Cluster

variable {conf : Conf} {s : Network} {v w : String} {env : Env} {c c₀ : Cluster} {u : Int}
  {P : Network → Prop}

theorem members_setMember_self : (s.setMember v c).members v = c := if_pos rfl

theorem members_setMember_of_ne (h : w ≠ v) : (s.setMember v c).members w = s.members w := if_neg h

/-- The member goes on with an election. -/
theorem canReach_stretch (hv : v ∈ conf.ids) {f : Fight} {out : Out} (hf : f ∈ (s.members v).fights)
    (hgo : ((s.members v).setFights ((s.members v).fights.erase f)).fightElection env f = (c, out))
    (h : ∀ s' : Network, s'.members v = c → (∀ x, x ≠ v → s'.members x = s.members x) →
      (∀ m ∈ out, ⟨v, m.1, true, m.2.1, m.2.2⟩ ∈ s'.packets) →
      (network conf).CanReach (Undisturbed v) s' P) :
    (network conf).CanReach (Undisturbed v) s P := by
  have hs : (network conf).step s (.act v env (.fight f)) =
      some ((s.setMember v c).send (Network.requests v out)) := by
    show Network.step conf.ids s (.act v env (.fight f)) = _
    rw [Network.step, if_pos hv, act, runFight, if_pos hf, hgo]
    rfl
  have hok : Undisturbed v s (.act v env (.fight f)) := ⟨rfl, trivial⟩
  refine .next hok hs (h _ members_setMember_self (fun x hx => members_setMember_of_ne hx) ?_)
  intro m hm
  exact Multiset.mem_add.2 (Or.inr (Multiset.mem_coe.2 (List.mem_map_of_mem hm)))

/-- A request is handled, and answered. -/
theorem canReach_request {p : Packet} (env : Env) (hp : p ∈ s.packets) (hreq : p.request = true)
    (hrun : (s.members p.dst).Running) (hopen : (s.members p.src).links.isOpen p.dst = true)
    (h : ∀ s' : Network, s'.members p.dst = ((s.members p.dst).acceptorReceived env p.flag p.msg).1 →
      (∀ x, x ≠ p.dst → s'.members x = s.members x) → (∀ q ∈ s.packets, q ≠ p → q ∈ s'.packets) →
      (∀ r ∈ ((s.members p.dst).acceptorReceived env p.flag p.msg).2,
        ⟨p.dst, p.src, false, r.1, r.2⟩ ∈ s'.packets) →
      (network conf).CanReach (Undisturbed v) s' P) :
    (network conf).CanReach (Undisturbed v) s P := by
  have hs : (network conf).step s (.receive env p) =
      some (Network.handle { s with packets := s.packets.erase p } env p) := if_pos hp
  have hok : Undisturbed v s (.receive env p) := by
    refine ⟨hrun, ?_⟩
    rw [if_pos hreq]
    exact hopen
  refine .next hok hs (h _ ?_ ?_ ?_ ?_)
  all_goals
    unfold Network.handle
    rw [if_pos hreq]
  · exact members_setMember_self
  · exact fun x hx => members_setMember_of_ne hx
  · intro q hq hne
    exact Multiset.mem_add.2 (Or.inl ((Multiset.mem_erase_of_ne hne).2 hq))
  · intro r hr
    exact Multiset.mem_add.2 (Or.inr (Multiset.mem_coe.2 (List.mem_map_of_mem hr)))

/-- An answer is handled. -/
theorem canReach_answer {p : Packet} (env : Env) (hp : p ∈ s.packets) (hreq : p.request = false)
    (hrun : (s.members p.dst).Running) (hopen : (s.members p.dst).links.isOpen p.src = true)
    (h : ∀ s' : Network, s'.members p.dst = (s.members p.dst).nodeReceived env p.flag p.msg →
      (∀ x, x ≠ p.dst → s'.members x = s.members x) → (∀ q ∈ s.packets, q ≠ p → q ∈ s'.packets) →
      (network conf).CanReach (Undisturbed v) s' P) :
    (network conf).CanReach (Undisturbed v) s P := by
  have hs : (network conf).step s (.receive env p) =
      some (Network.handle { s with packets := s.packets.erase p } env p) := if_pos hp
  have hno : ¬ p.request = true := by
    rw [hreq]
    exact Bool.false_ne_true
  have hok : Undisturbed v s (.receive env p) := by
    refine ⟨hrun, ?_⟩
    rw [if_neg hno]
    exact hopen
  refine .next hok hs (h _ ?_ ?_ ?_)
  all_goals
    unfold Network.handle
    rw [if_neg hno]
  · exact members_setMember_self
  · exact fun x hx => members_setMember_of_ne hx
  · exact fun q hq hne => (Multiset.mem_erase_of_ne hne).2 hq

/-- What a member can do alone, it can do in the cluster while the others rest. -/
theorem canReach_member (hv : v ∈ conf.ids) {Q : Cluster → Prop}
    (h : (member conf v).CanReach OwnStep (s.members v) Q) :
    (network conf).CanReach (Undisturbed v) s fun s' =>
      Q (s'.members v) ∧ ∀ w, w ≠ v → s'.members w = s.members w := by
  let R : Cluster → Network → Prop := fun c s' =>
    s'.members v = c ∧ ∀ w, w ≠ v → s'.members w = s.members w
  have hlift : (network conf).CanReach (Undisturbed v) s fun s' => ∃ c, R c s' ∧ Q c := by
    refine h.lift R ?_ ⟨rfl, fun _ _ => rfl⟩
    rintro c (⟨env, a⟩ | ⟨env, request, flag, m⟩) c' s' ⟨rfl, hrest⟩ hown hs
    · obtain ⟨⟨c₁, out⟩, hact, rfl⟩ := Option.map_eq_some_iff.1 hs
      refine ⟨.act v env a, (s'.setMember v c₁).send (Network.requests v out), ⟨rfl, hown⟩, ?_,
        members_setMember_self, fun w hw => (members_setMember_of_ne hw).trans (hrest w hw)⟩
      show Network.step conf.ids s' (.act v env a) = _
      rw [Network.step, if_pos hv, hact]
      rfl
    · exact hown.elim
  refine hlift.mono fun s' hs' => ?_
  obtain ⟨c, ⟨rfl, hrest⟩, hQ⟩ := hs'
  exact ⟨hQ, hrest⟩

/-! ## The votes -/

/-- The member `v` has asked the `voters` for their votes in the term `u`. Those of `ws` have not been
counted yet, and no one of them has voted in this term. -/
structure Polling (c₀ : Cluster) (v : String) (voters ws : List String) (u : Int) (s : Network) :
    Prop where
  seeks : Seeks c₀ u u (s.members v)
  place : .getVote u ∈ (s.members v).fights
  free : (s.members v).getMyNode.getVoteToNode u = ""
  count : (s.members v).getMyNode.getVoteCount u + ws.length = voters.length
  running : ∀ w ∈ voters, (s.members w).Running ∧ (s.members w).getMyTerm ≤ u
  asked : ∀ w ∈ ws, ⟨v, w, true, .sGetVote, voteRequest v u ""⟩ ∈ s.packets ∧
    (s.members w).getMyNode.getVoteToNode u = ""

/-- The surroundings of a step whose messages are all written. -/
def heard : Env where
  now := 0
  uuid := ""
  writeOk := fun _ => true

/-- A member that enters the vote loop, in a term that no one has voted in yet, asks the voters. -/
theorem canAsk {voters : List String} {t : Int} (hv : v ∈ conf.ids) (hmy : c₀.nodeMy = v)
    (hmaj : c₀.hasMajority = true) (hseeks : Seeks c₀ t (t + 1) (s.members v))
    (hplace : .settle (t + 1) ∈ (s.members v).fights) (hne : ∀ w ∈ voters, w ≠ v)
    (hconn : ∀ w ∈ voters, w ∈ c₀.connected)
    (hfree : ∀ w ∈ voters, (s.members w).Running ∧ (s.members w).getMyTerm ≤ t + 1 ∧
      (s.members w).getMyNode.getVoteToNode (t + 1) = "") :
    (network conf).CanReach (Undisturbed v) s (Polling c₀ v voters voters (t + 1)) := by
  have hrest := hseeks.setFights ((s.members v).fights.erase (.settle (t + 1)))
  obtain ⟨c₁, out, hasks, hseeks₁, hout⟩ := hrest.becomeCandidate_asks hmaj heard
  have hown := hseeks₁.votes (t + 1) (by omega)
  refine canReach_stretch hv hplace hasks fun s₁ hv₁ hrest₁ hsent => .here ?_
  refine ⟨?_, ?_, ?_, ?_, ?_, ?_⟩
  · rw [hv₁]
    exact (hseeks₁.goFight _).mono (by omega)
  · rw [hv₁]
    exact List.mem_append_right _ (List.mem_singleton_self _)
  · rw [hv₁]
    exact hown.1
  · rw [hv₁]
    show c₁.getMyNode.getVoteCount (t + 1) + _ = _
    rw [hown.2, Int.zero_add]
  · intro w hw
    rw [hrest₁ w (hne w hw)]
    exact ⟨(hfree w hw).1, (hfree w hw).2.1⟩
  · intro w hw
    have hp := hsent _ (hout w (hconn w hw) rfl)
    rw [hmy] at hp
    rw [hrest₁ w (hne w hw)]
    exact ⟨hp, (hfree w hw).2.2⟩

theorem running_of_setting {b : Int} (h : Seeks c₀ b u c) (hrun : c₀.Running) : c.Running := by
  have hset := h.setting
  simp only [Cluster.setting, Prod.mk.injEq] at hset
  exact ⟨hset.2.2.2.1.trans hrun.1, hset.2.2.2.2.trans hrun.2⟩

/-- One of the voters votes, and its vote is counted. -/
theorem Polling.next {voters ws : List String} (hr : (network conf).Reachable s)
    (h : Polling c₀ v voters (w :: ws) u s) (hnd : (w :: ws).Nodup) (hne : ∀ x ∈ voters, x ≠ v)
    (hsub : ∀ x ∈ w :: ws, x ∈ voters) (hrun : c₀.Running) (hopen : c₀.links.isOpen w = true) :
    (network conf).CanReach (Undisturbed v) s (Polling c₀ v voters ws u) := by
  have hw : w ∈ voters := hsub w List.mem_cons_self
  have hwv : w ≠ v := hne w hw
  have hws : ∀ x ∈ ws, x ≠ w := fun x hx he => (List.nodup_cons.1 hnd).1 (he ▸ hx)
  obtain ⟨hp, hvote⟩ := h.asked w List.mem_cons_self
  obtain ⟨hwrun, hwterm⟩ := h.running w hw
  have hwmy : (s.members w).nodeMy = w := (attended_reachable (member_reachable hr w)).my
  have hlinks : (s.members v).links.isOpen w = true := by
    rw [h.seeks.setting_eq.2.2]
    exact hopen
  have hvrun : (s.members v).Running := running_of_setting h.seeks hrun
  -- the request arrives at `w`
  refine canReach_request unheard hp rfl hwrun hlinks fun s₁ hw₁ hrest₁ hkeep₁ hanswer => ?_
  have hv₁ : s₁.members v = s.members v := hrest₁ v hwv.symm
  have hgrant : ((s.members w).acceptorReceived unheard .sGetVote (voteRequest v u "")).2 =
      [(.rGetVote, { nodeId := (s.members w).nodeMy, term := u, reqId := "", success := some true })] :=
    onGetVote_grants (m := voteRequest v u "") unheard hvote hwterm
  have hq := hanswer (.rGetVote, { nodeId := w, term := u, reqId := "", success := some true }) (by
    rw [hgrant, hwmy]
    exact List.mem_singleton_self _)
  have hkeeps : (s.members w).Keeps (s₁.members w) := by
    rw [hw₁]
    exact keeps_acceptorReceived _ _
  -- its answer arrives at `v`
  refine canReach_answer unheard hq rfl (by rw [hv₁]; exact hvrun) (by rw [hv₁]; exact hlinks) ?_
  intro s₂ hv₂ hrest₂ hkeep₂
  have hv₂' : s₂.members v = (s.members v).nodeReceived unheard .rGetVote
      { nodeId := w, term := u, reqId := "", success := some true } := by
    rw [← hv₁]
    exact hv₂
  obtain ⟨hnode, hcount⟩ := getMyNode_nodeReceived_vote
    (m := { nodeId := w, term := u, reqId := "", success := some true }) unheard h.seeks.leader rfl
  refine .here ⟨?_, ?_, ?_, ?_, ?_, ?_⟩
  · rw [hv₂']
    exact h.seeks.votes_answer le_rfl rfl rfl
  · rw [hv₂']
    exact fights_nodeReceived unheard h.place nofun
  · rw [hv₂']
    unfold Node.getVoteToNode
    rw [hnode]
    exact h.free
  · have hlen := h.count
    rw [hv₂', hcount, if_pos rfl]
    rw [List.length_cons] at hlen
    push_cast at hlen ⊢
    omega
  · intro x hx
    have hxv := hne x hx
    rw [hrest₂ x hxv]
    by_cases hxw : x = w
    · subst hxw
      refine ⟨⟨hkeeps.holding.trans hwrun.1, hkeeps.closeOnce.trans hwrun.2⟩, ?_⟩
      rw [hw₁]
      exact (getMyTerm_onGetVote (m := voteRequest v u "") unheard).le.trans hwterm
    · rw [hrest₁ x hxw]
      exact h.running x hx
  · intro x hx
    have hxv : x ≠ v := hne x (hsub x (List.mem_cons_of_mem _ hx))
    have hxw : x ≠ w := hws x hx
    obtain ⟨hpx, hxvote⟩ := h.asked x (List.mem_cons_of_mem _ hx)
    refine ⟨hkeep₂ _ (hkeep₁ _ hpx ?_) ?_, ?_⟩
    · exact fun he => hxw (congrArg Packet.dst he)
    · exact fun he => Bool.false_ne_true (congrArg Packet.request he).symm
    · rw [hrest₂ x hxv, hrest₁ x hxw]
      exact hxvote

/-- All the voters vote. -/
theorem Polling.canCount {voters ws : List String} (hr : (network conf).Reachable s)
    (h : Polling c₀ v voters ws u s) (hnd : ws.Nodup) (hne : ∀ x ∈ voters, x ≠ v)
    (hsub : ∀ x ∈ ws, x ∈ voters) (hrun : c₀.Running) (hopen : ∀ x ∈ voters, c₀.links.isOpen x = true) :
    (network conf).CanReach (Undisturbed v) s (Polling c₀ v voters [] u) := by
  induction ws generalizing s with
  | nil => exact .here h
  | cons w ws ih =>
    have hw : w ∈ voters := hsub w List.mem_cons_self
    refine (h.next hr hnd hne hsub hrun (hopen w hw)).bind fun s' hs' h' => ?_
    refine ih (Machine.reachable_startIn hr hs') h' (List.nodup_cons.1 hnd).2 ?_
    exact fun x hx => hsub x (List.mem_cons_of_mem _ hx)

/-- A member with the votes of more than half of the nodes can become the leader: it takes one more node
that confirms it. -/
theorem Polling.canLead {voters : List String} (hnd : conf.ids.Nodup) (hr : (network conf).Reachable s)
    (hv : v ∈ conf.ids) (h : Polling c₀ v voters [] u s) (hmy : c₀.nodeMy = v) (hrun : c₀.Running)
    (hcount : c₀.nodesAll.length / 2 < voters.length + 1) (hw : w ∈ voters) (hconn : w ∈ c₀.connected)
    (hopen : c₀.links.isOpen w = true) (hwv : w ≠ v) :
    (network conf).CanReach (Undisturbed v) s fun s' => (s'.members v).isLeader = true := by
  -- the votes are counted
  have hrest := h.seeks.setFights ((s.members v).fights.erase (.getVote u))
  have hvotes : ((c₀.nodesAll.length / 2 : Nat) : Int) < (s.members v).getMyNode.getVoteCount u + 1 := by
    have hall := h.count
    rw [List.length_nil] at hall
    omega
  have hcoh : (s.members v).standing.Coherent := coherent_reachable (member_reachable hr v)
  obtain ⟨c₁, wait, out, hwins, hseeks₁, hchan, hdone, hnil, hout⟩ :=
    hrest.countVotes_wins le_rfl hcoh h.free hvotes heard
  refine canReach_stretch hv h.place hwins fun s₁ hv₁ hrest₁ hsent => ?_
  have hw₁ : s₁.members w = s.members w := hrest₁ w hwv
  have hlinks₁ : (s₁.members v).links.isOpen w = true := by
    rw [hv₁, (hseeks₁.goFight (.confirm u)).setting_eq.2.2]
    exact hopen
  have hvrun₁ : (s₁.members v).Running := by
    rw [hv₁]
    exact running_of_setting (hseeks₁.goFight (.confirm u)) hrun
  have hp := hsent _ (hout w hconn rfl)
  rw [hmy] at hp
  obtain ⟨hwrun, hwterm⟩ := h.running w hw
  -- the broadcast arrives at `w`
  refine canReach_request unheard hp rfl (by rw [hw₁]; exact hwrun) hlinks₁ ?_
  intro s₂ _ hrest₂ _ hanswer
  have hv₂ : s₂.members v = c₁.goFight (.confirm u) := (hrest₂ v hwv.symm).trans hv₁
  have hwr := member_reachable hr w
  have hq := hanswer _ (by
    rw [hw₁]
    refine onBroadcastLeader_confirms (m := announcement v u "") (coherent_reachable hwr) unheard ?_
      hwterm rfl
    rw [nodesAll_of_reachable hnd hwr]
    exact hv)
  rw [(attended_reachable hwr).my] at hq
  -- its confirmation arrives at `v`
  refine canReach_answer unheard hq rfl ?_ ?_ fun s₃ hv₃ _ _ => ?_
  · rw [hv₂, ← hv₁]
    exact hvrun₁
  · rw [hv₂, ← hv₁]
    exact hlinks₁
  rw [hv₂] at hv₃
  obtain ⟨hseeks₃, hreplies⟩ := (hseeks₁.goFight (.confirm u)).confirms_answer
    (m := { nodeId := w, term := u, reqId := "", success := some true }) unheard rfl rfl hchan hdone
  have hplace : .confirm u ∈ (s₃.members v).fights := by
    rw [hv₃]
    exact fights_nodeReceived unheard (List.mem_append_right _ (List.mem_singleton_self _)) nofun
  -- the member signs itself
  have hsigns : ((s₃.members v).setFights ((s₃.members v).fights.erase (.confirm u))).fightElection
      unheard (.confirm u) =
      (((s₃.members v).setFights ((s₃.members v).fights.erase (.confirm u))).confirmLeader, []) := rfl
  refine canReach_stretch hv hplace hsigns fun s₄ hv₄ _ _ => .here ?_
  rw [hv₄, hv₃]
  refine (hseeks₃.setFights _).isLeader_confirmLeader ((congrArg confirmed hreplies).trans ?_)
  rw [hnil]
  rfl

/-! ## The way back -/

/-- A member has voted, and counted votes, only for the terms in its tables. -/
theorem votesUpTo_of_keys {b : Int}
    (h : ∀ k ∈ c.getMyNode.voteNode.keys ++ c.getMyNode.voteCount.keys, k ≤ b) : c.VotesUpTo b := by
  have hnone : ∀ {β : Int → Type} {m : AList β} {t : Int}, b < t → (∀ k ∈ m.keys, k ≤ b) →
      m.lookup t = none := by
    intro β m t ht hm
    refine AList.lookup_eq_none.2 fun hmem => ?_
    have hle := hm t (AList.mem_keys.1 hmem)
    omega
  intro t ht
  unfold Node.getVoteToNode Node.getVoteCount
  rw [hnone ht fun k hk => h k (List.mem_append_left _ hk),
    hnone ht fun k hk => h k (List.mem_append_right _ hk)]
  exact ⟨rfl, rfl⟩

/-- The votes that a member knows of are for finitely many terms. -/
theorem exists_votesUpTo (c : Cluster) : ∃ b, c.VotesUpTo b := by
  obtain ⟨b, hb⟩ := (c.getMyNode.voteNode.keys ++ c.getMyNode.voteCount.keys).toFinset.exists_le
  exact ⟨b, votesUpTo_of_keys fun k hk => hb k (List.mem_toFinset.2 hk)⟩

/-- From some term on, no one of the members has voted. -/
theorem exists_late_term {s : Network} {ids : List String} {b : Int}
    (h : ∀ w ∈ ids, (s.members w).getMyTerm ≤ b ∧ (s.members w).VotesUpTo b) :
    ∃ T ≤ b, ∀ w ∈ ids, (s.members w).getMyTerm ≤ T ∧ (s.members w).VotesUpTo T := by
  choose u hu using fun w => exists_votesUpTo (s.members w)
  obtain ⟨T, hT⟩ := (ids.map fun w => max (u w) (s.members w).getMyTerm).toFinset.exists_le
  refine ⟨min T b, min_le_right T b, fun w hw => ?_⟩
  have hle := hT _ (List.mem_toFinset.2 (List.mem_map_of_mem hw))
  obtain ⟨hterm, hvotes⟩ := h w hw
  refine ⟨by omega, ?_⟩
  rcases min_choice T b with he | he
  · rw [he]
    exact (hu w).mono (by omega)
  · rw [he]
    exact hvotes

end

/-- The member `v` has no leader, sees a majority, and is in touch with the `voters`: it keeps an open
connection to each of them, they have been started and not been closed, and with its own vote their votes
are those of more than half of the nodes. No one of them is in the last term, or has voted in it. -/
structure Network.InTouch (s : Network) (v : String) (voters : List String) : Prop where
  running : (s.members v).Running
  leaderless : (s.members v).nodeLeader = none
  majority : (s.members v).hasMajority = true
  nodup : voters.Nodup
  reached : ∀ w ∈ voters, w ∈ (s.members v).connected ∧ (s.members v).links.isOpen w = true ∧
    (s.members w).Running
  enough : (s.members v).nodesAll.length / 2 < voters.length + 1
  early : ∀ w ∈ v :: voters, (s.members w).getMyTerm ≤ 2 ^ 63 - 2 ∧
    (s.members w).VotesUpTo (2 ^ 63 - 2)

open Cluster

/-- In a cluster of more than one node no run leads to a state in which a member that has no leader and is
in touch with a majority could not become the leader: it can, by steps of its own and by messages over
open connections. -/
theorem leader_electable {conf : Conf} (hnd : conf.ids.Nodup) (hmany : 1 < conf.ids.length) {s : Network}
    (hr : (network conf).Reachable s) {v : String} (hv : v ∈ conf.ids) {voters : List String}
    (h : s.InTouch v voters) :
    (network conf).CanReach (Undisturbed v) s fun s' => (s'.members v).isLeader = true := by
  have hmr := member_reachable hr v
  have hmy : (s.members v).nodeMy = v := (attended_reachable hmr).my
  have hne : ∀ x ∈ voters, x ≠ v := by
    intro x hx he
    have hconn := (List.mem_filter.1 (h.reached x hx).1).2
    rw [hmy, he] at hconn
    simp at hconn
  obtain ⟨T, hlast, hT⟩ := exists_late_term h.early
  obtain ⟨hterm, hvotes⟩ := hT v List.mem_cons_self
  have hcampaign := canCampaign hmr h.running h.leaderless h.majority hvotes hterm (by omega)
  refine (canReach_member hv hcampaign).bind fun s₁ hs₁ h₁ => ?_
  obtain ⟨hlead | ⟨hseeks, hplace⟩, hrest⟩ := h₁
  · exact .here hlead
  have hr₁ := Machine.reachable_startIn hr hs₁
  have hopen : ∀ x ∈ voters, (s.members v).links.isOpen x = true := fun x hx => (h.reached x hx).2.1
  have hasked := canAsk hv hmy h.majority hseeks hplace hne (fun w hw => (h.reached w hw).1) (by
    intro w hw
    obtain ⟨hterm, hvotes⟩ := hT w (List.mem_cons_of_mem v hw)
    rw [hrest w (hne w hw)]
    exact ⟨(h.reached w hw).2.2, by omega, (hvotes _ (by omega)).1⟩)
  refine hasked.bind fun s₂ hs₂ h₂ => ?_
  have hr₂ := Machine.reachable_startIn hr₁ hs₂
  refine (h₂.canCount hr₂ h.nodup hne (fun x hx => hx) h.running hopen).bind fun s₃ hs₃ h₃ => ?_
  have hr₃ := Machine.reachable_startIn hr₂ hs₃
  -- there is a voter to confirm the leader
  obtain ⟨w, hw⟩ : ∃ w, w ∈ voters := by
    have hall := nodesAll_of_reachable hnd hmr
    have hlen := h.enough
    rw [hall] at hlen
    exact List.exists_mem_of_length_pos (by omega)
  exact h₃.canLead hnd hr₃ hv hmy h.running h.enough hw (h.reached w hw).1 (hopen w hw) (hne w hw)

/-- Both nodes vote for themselves in the first term. The node `a:1` can become the leader all the same. -/
theorem leader_electable_split :
    ∃ s, (network twoNodes).Reachable s ∧ (s.members "a:1").getMyNode.getVoteToNode 1 = "a:1" ∧
      (s.members "b:1").getMyNode.getVoteToNode 1 = "b:1" ∧
      (network twoNodes).CanReach (Undisturbed "a:1") s fun s' =>
        (s'.members "a:1").isLeader = true := by
  have hrun : ((network twoNodes).run (Network.initial twoNodes 0)
      (starts twoNodes.ids ++ connects "a:1" "b:1" ++ connects "b:1" "a:1" ++
        campaigns "a:1" 1 "u1" ++ campaigns "b:1" 1 "u2" ++
        [acts "a:1" "" (.fight (.getVote 1)), acts "b:1" "" (.fight (.getVote 1))])).map (fun s =>
      (["a:1", "b:1"].map fun id => ((s.members id).getMyNode.getVoteToNode 1, decide (
          ((s.members id).holding = true ∧ (s.members id).closeOnce = false) ∧
          (s.members id).getMyTerm = 1 ∧ ∀ k ∈ (s.members id).getMyNode.voteNode.keys ++
            (s.members id).getMyNode.voteCount.keys, k ≤ 1)),
        (s.members "a:1").connected, decide ((s.members "a:1").nodeLeader = none ∧
          (s.members "a:1").hasMajority = true ∧ (s.members "a:1").links.isOpen "b:1" = true ∧
          (s.members "a:1").nodesAll.length / 2 < 2))) =
      some ([("a:1", true), ("b:1", true)], ["b:1"], true) := by
    decide
  obtain ⟨s, hr, he⟩ := Machine.observed_of_run hrun ⟨0, rfl⟩
  simp only [List.map_cons, List.map_nil, List.cons.injEq, Prod.mk.injEq, and_true,
    decide_eq_true_eq] at he
  obtain ⟨⟨⟨ha, hrun_a, hterm_a, hkeys_a⟩, hb, hrun_b, hterm_b, hkeys_b⟩, hconn, hleader, hmaj, hopen,
    henough⟩ := he
  have htouch : s.InTouch "a:1" ["b:1"] := by
    refine ⟨hrun_a, hleader, hmaj, List.nodup_singleton _, ?_, henough, ?_⟩
    · intro w hw
      obtain rfl := List.mem_singleton.1 hw
      exact ⟨by simp [hconn], hopen, hrun_b⟩
    · intro w hw
      rcases List.mem_cons.1 hw with rfl | hw
      · exact ⟨by rw [hterm_a]; decide, (votesUpTo_of_keys hkeys_a).mono (by decide)⟩
      · obtain rfl := List.mem_singleton.1 hw
        exact ⟨by rw [hterm_b]; decide, (votesUpTo_of_keys hkeys_b).mono (by decide)⟩
  exact ⟨s, hr, ha, hb, leader_electable (by decide) (by decide) hr (by decide) htouch⟩

end OwnX.Cluster
