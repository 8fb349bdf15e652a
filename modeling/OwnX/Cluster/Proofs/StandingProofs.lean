import OwnX.Cluster.Standing
import OwnX.Cluster.Proofs.ContactProofs

/-!
# Proofs: the standing of a member

Each function of a member acts on the standing alone, or leaves it as it is. A coherent standing stays
coherent under every one of these actions, whatever the messages say.
-/

set_option linter.dupNamespace false

namespace OwnX.Cluster

namespace Standing

/-- What the standing of a member may become in a step of its own that signs no one. -/
inductive Quiet (s : Standing) : Standing → Prop where
  | keep : Quiet s s
  | release (h : s.status ≠ .closed) : Quiet s s.release
  | contest (h : s.nodeLeader = none) : Quiet s (s.record [] (wrap 64 (s.own + 1)))
  | campaign (h : s.nodeLeader = none) (hst : s.status = .follower) : Quiet s (s.become .candidate)
  | start (h : s.status = .init) : Quiet s (s.become .follower)
  | close : Quiet s (s.become .closed)

theorem Quiet.moves {s s' : Standing} (h : s.Quiet s') : s.Moves s' := by
  cases h with
  | keep => exact .keep
  | release => exact .release
  | contest h => exact .contest h
  | campaign h hst => exact .campaign h hst
  | start h => exact .start h
  | close => exact .close

/-- A broadcast that is not stale: another leader of an earlier term is given up, and the term is
recorded. -/
def enter (s : Standing) (m : NodeMsg) : Standing :=
  (if s.own < m.term ∧ s.nodeLeader.isSome ∧ s.nodeLeader ≠ some m.leaderId then s.release
    else s).record [m.nodeId, m.leaderId] m.term

theorem hearLeader_eq (s : Standing) (m : NodeMsg) :
    s.hearLeader m =
      if m.term < s.own then s
      else if (s.enter m).nodeLeader = some m.leaderId ∧ (s.enter m).term m.leaderId = m.term then
        s.enter m
      else if m.leaderId ∈ (s.enter m).nodesAll then (s.enter m).sign m.leaderId
      else s.enter m := rfl

end Standing

namespace Cluster

variable {c c' : Cluster} {env : Env}

/-! ## The functions of a member on its standing -/

@[simp] theorem standing_goFight (f : Fight) : (c.goFight f).standing = c.standing := rfl
@[simp] theorem standing_returnWait : c.returnWait.1.standing = c.standing := rfl

@[simp] theorem standing_sendAndWait (flag : Flag) (data : NodeMsg) :
    (c.sendAndWait env flag data).1.standing = c.standing := rfl

@[simp] theorem standing_setAlive (ids : List String) : (c.setAlive ids).standing = c.standing := rfl

/-- A write that leaves the term of the record. -/
theorem standing_setNode {id : String} {n : Node} (h : n.term = (c.nodes id).term) :
    (c.setNode id n).standing = c.standing := by
  have hterm : (fun i => ((c.setNode id n).nodes i).term) = fun i => (c.nodes i).term := by
    funext i
    rw [setNode_nodes]
    split_ifs with hi
    · rw [hi, h]
    · rfl
  show Standing.mk _ _ _ _ (fun i => ((c.setNode id n).nodes i).term) = _
  rw [hterm]
  rfl

@[simp] theorem standing_deliver (m : NodeMsg) : (c.deliver m).standing = c.standing := by
  unfold deliver
  split
  · rfl
  · split_ifs <;> rfl

@[simp] theorem standing_finishFight (b : Bool) : (c.finishFight b).standing = c.standing := by
  unfold finishFight
  split_ifs <;> rfl

@[simp] theorem standing_closeConnector (id : String) :
    (c.closeConnector id).standing = c.standing := by
  unfold closeConnector
  split <;> rfl

@[simp] theorem standing_dropConnector (id : String) :
    (c.dropConnector id).standing = c.standing := by
  have hreg : (c.closeConnector id).registry = c.registry := registry_closeConnector id
  simp only [registry, Prod.mk.injEq] at hreg
  unfold dropConnector
  rw [standing_setNode, standing_closeConnector]
  rw [hreg.2.2]

@[simp] theorem standing_waitOnline (t : Int) : (c.waitOnline env t).1.standing = c.standing := by
  unfold waitOnline
  split_ifs <;> simp

@[simp] theorem standing_voteLoop (t : Int) : (c.voteLoop env t).1.standing = c.standing := by
  unfold voteLoop
  split_ifs <;> simp

@[simp] theorem standing_voteForMyself (t : Int) : (c.voteForMyself t).standing = c.standing := by
  have hterm := term_voteToNode c.getMyNode t c.nodeMy
  apply standing_setNode
  split_ifs
  · exact hterm
  · exact hterm

@[simp] theorem standing_countVotes (t : Int) : (c.countVotes env t).1.standing = c.standing := by
  unfold countVotes
  simp only
  split_ifs <;> simp

@[simp] theorem standing_releaseLeader (now : Int) :
    (c.releaseLeader now).standing = c.standing.release := rfl

@[simp] theorem standing_signLeader (id : String) :
    (c.signLeader id).1.standing = c.standing.sign id := by
  have hterm : ∀ n, c.standing.term n = (c.nodes n).term := fun _ => rfl
  have hown : c.standing.own = c.getMyTerm := rfl
  have hleader : c.standing.nodeLeader = c.nodeLeader := rfl
  simp only [signLeader, Standing.sign, hterm, hown, hleader]
  by_cases hlt : (c.nodes id).term < c.getMyTerm
  · simp only [hlt, if_true]
  · simp only [hlt, if_false]
    cases c.nodeLeader with
    | none => rfl
    | some l =>
      simp only
      split_ifs <;> rfl

/-- A recorded message raises the own term, and the terms of the nodes it names. -/
theorem standing_recordMsg (c : Cluster) (env : Env) (m : NodeMsg) :
    (c.recordMsg env m).standing = c.standing.record [m.nodeId, m.leaderId] m.term := by
  obtain ⟨nodes, he, hterm⟩ := recordMsg_terms c env m
  rw [he]
  show Standing.mk _ _ _ _ (fun i => (nodes i).term) = Standing.mk _ _ _ _ _
  congr 1
  funext i
  rw [hterm]
  simp [standing]

/-! ## The messages -/

theorem standing_onGetVote (m : NodeMsg) :
    (c.onGetVote env m).1.standing = c.standing.hearVote := by
  have hvote : ∀ c : Cluster, (c.setNode c.nodeMy
      (c.getMyNode.voteToNode m.term m.nodeId).1).standing = c.standing :=
    fun c => standing_setNode (term_voteToNode c.getMyNode m.term m.nodeId)
  unfold onGetVote Standing.hearVote
  simp only [hvote]
  show _ = if c.status = .leader then _ else _
  by_cases hl : c.status = .leader
  · simp [isLeader, hl]
  · simp [isLeader, hl]

theorem standing_enterTerm (c : Cluster) (env : Env) (m : NodeMsg) :
    (c.enterTerm env m).standing = c.standing.enter m := by
  unfold enterTerm Standing.enter
  rw [standing_recordMsg]
  congr 1
  show (if c.getMyTerm < m.term ∧ c.nodeLeader.isSome ∧ c.nodeLeader ≠ some m.leaderId then
    c.releaseLeader env.now else c).standing = if c.getMyTerm < m.term ∧ c.nodeLeader.isSome ∧
      c.nodeLeader ≠ some m.leaderId then _ else _
  split_ifs <;> rfl

theorem standing_onBroadcastLeader (m : NodeMsg) :
    (c.onBroadcastLeader env m).1.standing = c.standing.hearLeader m := by
  rw [Standing.hearLeader_eq, ← standing_enterTerm c env m]
  unfold onBroadcastLeader
  simp only
  show _ = if m.term < c.getMyTerm then _ else
    if (c.enterTerm env m).nodeLeader = some m.leaderId ∧
        ((c.enterTerm env m).nodes m.leaderId).term = m.term then _
    else if m.leaderId ∈ (c.enterTerm env m).nodesAll then _ else _
  split_ifs
  · rfl
  · rfl
  · rfl
  · exact standing_signLeader m.leaderId
  · rfl

theorem standing_nodeReceived (flag : Flag) (m : NodeMsg) :
    (c.nodeReceived env flag m).standing = c.standing.hearAnswer c.nodesAlive flag m := by
  obtain ⟨nodes, he, -⟩ := recordMsg_terms c env m
  have halive : (c.recordMsg env m).nodesAlive = c.nodesAlive := by rw [he]
  unfold nodeReceived Standing.hearAnswer
  simp only [← standing_recordMsg c env]
  by_cases hnew : c.nodeLeader.isSome ∧ c.getMyTerm < m.term
  · rw [if_pos hnew, if_pos (show c.standing.nodeLeader.isSome ∧ c.standing.own < m.term from hnew)]
    rfl
  · rw [if_neg hnew,
      if_neg (show ¬ (c.standing.nodeLeader.isSome ∧ c.standing.own < m.term) from hnew)]
    generalize c.recordMsg env m = c₁ at halive
    cases flag with
    | rAskLeader =>
      unfold onAskLeaderReply
      rw [halive]
      by_cases hid : m.leaderId = ""
      · simp [hid]
      · by_cases hal : m.leaderId ∈ c.nodesAlive
        · by_cases hall : m.leaderId ∈ c₁.nodesAll
          · simp [hid, hal, hall]
          · simp [hid, hal, hall]
        · simp [hid, hal]
    | rGetVote =>
      unfold onGetVoteReply
      simp only [standing_deliver]
      split_ifs
      · exact standing_setNode rfl
      · rfl
    | rLeader =>
      unfold onLeaderReply
      simp only [standing_deliver, standing_nodeLeader, standing_nodeMy]
      split_ifs <;> rfl
    | _ => rfl

/-- A message does to the standing what it says, and nothing else of the member matters for it than
which nodes are online. -/
theorem standing_receive (c : Cluster) (env : Env) (request : Bool) (flag : Flag) (m : NodeMsg) :
    (c.receive env request flag m).standing = c.standing.hear c.nodesAlive request flag m := by
  unfold receive Standing.hear
  split_ifs
  · cases flag with
    | sGetVote => exact standing_onGetVote m
    | sBroadcastLeader => exact standing_onBroadcastLeader m
    | _ => rfl
  · exact standing_nodeReceived flag m

/-! ## The steps of its own -/

theorem standing_close : c.close.standing = if c.closeOnce then c.standing
    else c.standing.become .closed := by
  unfold close
  split_ifs
  · rfl
  · refine List.foldlRecOn (motive := fun c' => standing c' = c.standing.become .closed) _ _ rfl ?_
    intro c' hc id _
    rw [standing_dropConnector, hc]

theorem standing_heartbeatLeader : (c.heartbeatLeader env).1.standing = c.standing := by
  unfold heartbeatLeader
  refine List.foldlRecOn (motive := fun c' => standing c' = c.standing) _ _ rfl ?_
  intro c' hc id _
  rw [standing_closeConnector, hc]

theorem standing_prune (h : c'.registry = c.registry) :
    (c'.setNode c.nodeMy c.getMyNode.prune).standing = c'.standing := by
  simp only [registry, Prod.mk.injEq] at h
  apply standing_setNode
  rw [h.2.2]
  rfl

theorem standing_setMyTerm (t : Int) :
    (c.setNode c.nodeMy (c.getMyNode.setTerm t).1).standing = c.standing.record [] t := by
  show Standing.mk _ _ _ _ (fun i => ((c.setNode c.nodeMy _).nodes i).term) =
    Standing.mk _ _ _ _ _
  congr 1
  funext i
  rw [setNode_nodes]
  simp only [standing, List.not_mem_nil, and_false, or_false]
  split_ifs with hi
  · rw [hi]
    exact (setTerm_votes c.getMyNode t).2.2
  · rfl

theorem quiet_startFight : c.standing.Quiet (c.startFight env).1.standing := by
  unfold startFight
  split_ifs with hst hl hf
  · exact .keep
  · exact .keep
  · exact .keep
  · have hnone : c.nodeLeader = none := by simpa using hl
    simp only
    split_ifs
    · rw [standing_waitOnline, standing_setMyTerm]
      exact .contest hnone
    · rw [standing_finishFight]
      exact .keep

theorem quiet_becomeCandidate (t : Int) :
    c.standing.Quiet (c.becomeCandidate env t).1.standing := by
  unfold becomeCandidate
  split_ifs with hl hst hfollow
  · rw [standing_finishFight]
    exact .keep
  · rw [standing_finishFight]
    exact .keep
  · rw [standing_voteLoop, standing_setNode]
    · exact .campaign (by simpa using hl) hfollow
    · rfl
  · rw [standing_voteLoop, standing_setNode]
    · exact .keep
    · rfl

theorem quiet_onSessionClosed (id : String) :
    c.standing.Quiet (c.onSessionClosed env id).standing := by
  unfold onSessionClosed
  simp only
  generalize hc : (c.setNode id _).setAlive _ = c₁
  have hset : c₁.standing = c.standing := by
    rw [← hc, standing_setAlive, standing_setNode]
    rfl
  rw [← hset]
  split_ifs with hl hclosed hm hclosed
  · exact .keep
  · exact .release hclosed
  · exact .keep
  · exact .keep
  · exact .keep
  · exact .release hclosed

theorem quiet_heartbeatFollower (hready : c.isReady = true) :
    c.standing.Quiet (c.heartbeatFollower env).standing := by
  have hopen : c.status ≠ .closed := by
    intro hclosed
    simp [isReady, hclosed] at hready
  unfold heartbeatFollower
  split
  · split_ifs
    · rw [standing_closeConnector]
      exact .keep
    · exact .release hopen
    · exact .keep
  · split_ifs
    · exact .release hopen
    · exact .keep

/-- The steps by which a member signs itself: a start in the single model, and the end of an election
that is confirmed. -/
def Signs (c : Cluster) : Action → Prop
  | .startUp => c.model = .single
  | .fight (.confirm _) => confirmed c.returnWait.2 = true
  | _ => False

theorem stands_startUp :
    c.Signs .startUp ∧ c.startUp.standing = c.standing.sign c.nodeMy ∨
      ¬ c.Signs .startUp ∧ c.standing.Quiet c.startUp.standing := by
  unfold startUp
  split
  case h_1 hm => exact Or.inl ⟨hm, standing_signLeader c.nodeMy⟩
  case h_2 hm =>
    have hno : ¬ c.Signs .startUp := fun hs => by cases hm.symm.trans hs
    split_ifs with hst
    · exact Or.inr ⟨hno, .keep⟩
    · exact Or.inr ⟨hno, .start (not_not.mp hst)⟩

theorem stands_confirmLeader (t : Int) :
    c.Signs (.fight (.confirm t)) ∧ c.confirmLeader.standing = c.standing.sign c.nodeMy ∨
      ¬ c.Signs (.fight (.confirm t)) ∧ c.standing.Quiet c.confirmLeader.standing := by
  unfold confirmLeader
  simp only
  split_ifs with hconf
  · rw [standing_finishFight, standing_signLeader]
    exact Or.inl ⟨hconf, rfl⟩
  · rw [standing_finishFight]
    exact Or.inr ⟨hconf, .keep⟩

/-- What a step of its own does to the standing of a member: it signs the member, or is quiet. -/
theorem Acts.stands {a : Action} {out : Out} (h : Acts env c a c' out) :
    c.Signs a ∧ c'.standing = c.standing.sign c.nodeMy ∨
      ¬ c.Signs a ∧ c.standing.Quiet c'.standing := by
  cases h with
  | startUp => exact stands_startUp
  | close =>
    refine Or.inr ⟨id, ?_⟩
    rw [standing_close]
    split_ifs
    · exact .keep
    · exact .close
  | connect h =>
    simp only [Cluster.connect, Option.ite_none_right_eq_some, Option.some.injEq] at h
    obtain ⟨-, rfl⟩ := h
    exact Or.inr ⟨id, .keep⟩
  | assignConnector h =>
    obtain ⟨r, -, rfl⟩ := Option.map_eq_some_iff.mp h
    refine Or.inr ⟨id, ?_⟩
    rw [standing_setNode]
    · exact .keep
    · rfl
  | readFail => exact Or.inr ⟨id, .keep⟩
  | readStop => exact Or.inr ⟨id, .keep⟩
  | callback i pending =>
    exact Or.inr ⟨id, quiet_onSessionClosed (c := c.setConns c.conns pending) i⟩
  | leads hready hl =>
    refine Or.inr ⟨id, ?_⟩
    rw [standing_prune registry_heartbeatLeader, standing_heartbeatLeader]
    exact .keep
  | follows hready hl =>
    refine Or.inr ⟨id, ?_⟩
    rw [standing_prune registry_heartbeatFollower]
    exact quiet_heartbeatFollower hready
  | idle => exact Or.inr ⟨id, .keep⟩
  | @fight f _ =>
    cases f with
    | start => exact Or.inr ⟨id, quiet_startFight (c := c.setFights (c.fights.erase .start))⟩
    | online t =>
      refine Or.inr ⟨id, ?_⟩
      rw [fightElection, standing_waitOnline]
      exact .keep
    | askLeader t => exact Or.inr ⟨id, .keep⟩
    | settle t =>
      exact Or.inr ⟨id, quiet_becomeCandidate (c := c.setFights (c.fights.erase (.settle t))) t⟩
    | vote t =>
      refine Or.inr ⟨id, ?_⟩
      rw [fightElection, standing_voteLoop]
      exact .keep
    | getVote t =>
      refine Or.inr ⟨id, ?_⟩
      rw [fightElection, standing_countVotes]
      exact .keep
    | confirm t => exact stands_confirmLeader (c := c.setFights (c.fights.erase (.confirm t))) t

/-- A step of a member moves its standing. -/
theorem Acts.moves {a : Action} {out : Out} (h : Acts env c a c' out) :
    c.standing.Moves c'.standing := by
  rcases h.stands with ⟨-, he⟩ | ⟨-, hquiet⟩
  · rw [he]
    exact .signSelf
  · exact hquiet.moves

end Cluster

/-! ## Coherence -/

namespace Standing

variable {s s' : Standing}

@[simp] theorem own_record (ids : List String) (t : Int) : (s.record ids t).own = max s.own t :=
  if_pos (Or.inl rfl)

/-- A coherent member signs a node exactly if the node is of its own term. -/
theorem Coherent.sign_eq (h : s.Coherent) (id : String) :
    s.sign id = if s.term id = s.own ∧ s.nodeLeader ≠ some id then s.lead id else s := by
  have hle := h.terms id
  unfold sign
  by_cases hlt : s.term id < s.own
  · simp [hlt, hlt.ne]
  · have heq : s.term id = s.own := le_antisymm hle (not_lt.mp hlt)
    simp only [heq, lt_irrefl, if_false, true_and]
    cases hl : s.nodeLeader with
    | none => simp
    | some l =>
      have hterm := h.leader l hl
      by_cases he : l = id
      · simp [he]
      · simp [hterm, he]

theorem own_enter (s : Standing) (m : NodeMsg) : (s.enter m).own = max s.own m.term := by
  unfold enter
  rw [own_record]
  split_ifs <;> rfl

/-- A known node of a recorded message is of the own term if the message is, or if it was before. -/
theorem term_record_eq (hs : s.Coherent) {ids : List String} {t : Int} {id : String}
    (hid : id ∈ s.nodesAll) (hmem : id ∈ ids) :
    (s.record ids t).term id = (s.record ids t).own ↔ s.own ≤ t ∨ s.term id = s.own := by
  have hle := hs.terms id
  rw [own_record]
  show (if id = s.nodeMy ∨ id ∈ s.nodesAll ∧ id ∈ ids then max (s.term id) t else _) = _ ↔ _
  rw [if_pos (Or.inr ⟨hid, hmem⟩)]
  rcases le_total s.own t with ht | ht
  · rw [max_eq_right (hle.trans ht), max_eq_right ht]
    simp [ht]
  · rw [max_eq_left ht]
    rcases le_total (s.term id) t with hc | hc
    · rw [max_eq_right hc]
      omega
    · rw [max_eq_left hc]
      omega

namespace Coherent

theorem release (h : s.Coherent) : s.release.Coherent where
  terms := h.terms
  leader := fun l hl => by cases hl
  known := fun l hl => by cases hl
  leads := fun hst => by cases hst
  self := fun hl => by cases hl
  open_ := fun _ => rfl

theorem sign (h : s.Coherent) {id : String} (hid : id = s.nodeMy ∨ id ∈ s.nodesAll) :
    (s.sign id).Coherent := by
  rw [h.sign_eq]
  split_ifs with hs
  · constructor
    case terms => exact h.terms
    case leader =>
      intro l hl
      cases hl
      exact hs.1
    case known =>
      intro l hl
      cases hl
      exact hid
    case leads =>
      intro hst
      simp only [lead] at hst ⊢
      split_ifs at hst with hmy
      rw [hmy]
    case self =>
      intro hl
      simp only [lead, Option.some.injEq] at hl ⊢
      rw [if_pos hl.symm]
      exact Or.inl rfl
    case open_ =>
      intro hst
      simp only [lead] at hst
      split_ifs at hst <;> simp at hst
  · exact h

/-- A term is recorded. It is recorded for the leader too, if it is new. -/
theorem record (h : s.Coherent) {ids : List String} {t : Int}
    (hl : ∀ l, s.nodeLeader = some l → t ≤ s.own ∨ l ∈ ids) : (s.record ids t).Coherent := by
  constructor
  case terms =>
    intro i
    have hi := h.terms i
    rw [own_record]
    show (if _ then _ else _) ≤ _
    split_ifs
    · exact max_le (hi.trans (le_max_left _ _)) (le_max_right _ _)
    · exact hi.trans (le_max_left _ _)
  case leader =>
    intro l hlead
    have hterm := h.leader l hlead
    rw [own_record]
    show (if l = s.nodeMy ∨ l ∈ s.nodesAll ∧ l ∈ ids then _ else _) = _
    rcases hl l hlead with hle | hmem
    · split_ifs <;> omega
    · have hraised : l = s.nodeMy ∨ l ∈ s.nodesAll ∧ l ∈ ids :=
        (h.known l hlead).imp_right fun hall => ⟨hall, hmem⟩
      rw [if_pos hraised, hterm]
  case known => exact h.known
  case leads => exact h.leads
  case self => exact h.self
  case open_ => exact h.open_

theorem hearVote (h : s.Coherent) : s.hearVote.Coherent := by
  unfold Standing.hearVote
  split_ifs
  · exact h.release
  · exact h

/-- A leader that is kept is the one the message announces, or its term is the own one. -/
theorem enter (h : s.Coherent) (m : NodeMsg) : (s.enter m).Coherent := by
  unfold Standing.enter
  split_ifs with hnew
  · exact h.release.record fun l hl => by cases hl
  · refine h.record fun l hl => ?_
    by_cases hle : m.term ≤ s.own
    · exact Or.inl hle
    · have hsame : s.nodeLeader = some m.leaderId := by
        by_contra hne
        exact hnew ⟨not_le.mp hle, by simp [hl], hne⟩
      have heq : l = m.leaderId := Option.some.inj (hl.symm.trans hsame)
      exact Or.inr (by simp [heq])

/-- A message that does not make the member give up its leader is recorded. -/
theorem note (h : s.Coherent) {t : Int} (hold : ¬ (s.nodeLeader.isSome ∧ s.own < t))
    (ids : List String) : (s.record ids t).Coherent := by
  refine h.record fun l hl => Or.inl ?_
  by_contra hlt
  exact hold ⟨by simp [hl], not_le.mp hlt⟩

theorem hearLeader (h : s.Coherent) (m : NodeMsg) : (s.hearLeader m).Coherent := by
  have henter := h.enter m
  rw [hearLeader_eq]
  split_ifs with hlt hsame hall
  · exact h
  · exact henter
  · exact henter.sign (Or.inr hall)
  · exact henter

theorem hearAnswer (h : s.Coherent) (nodesAlive : List String) (flag : Flag) (m : NodeMsg) :
    (s.hearAnswer nodesAlive flag m).Coherent := by
  unfold Standing.hearAnswer
  by_cases hnew : s.nodeLeader.isSome ∧ s.own < m.term
  · rw [if_pos hnew]
    exact h.release
  · rw [if_neg hnew]
    have hrec := h.note hnew [m.nodeId, m.leaderId]
    cases flag with
    | rAskLeader =>
      simp only
      split_ifs with hid
      · exact hrec.sign (Or.inr hid.2.2)
      · exact hrec
    | rLeader =>
      simp only
      split_ifs
      · exact hrec.release
      · exact hrec
    | _ => exact hrec

theorem hear (h : s.Coherent) (nodesAlive : List String) (request : Bool) (flag : Flag)
    (m : NodeMsg) : (s.hear nodesAlive request flag m).Coherent := by
  unfold Standing.hear
  split_ifs
  · cases flag with
    | sGetVote => exact h.hearVote
    | sBroadcastLeader => exact h.hearLeader m
    | _ => exact h
  · exact h.hearAnswer nodesAlive flag m

theorem moves (h : s.Coherent) (hm : s.Moves s') : s'.Coherent := by
  cases hm with
  | keep => exact h
  | release => exact h.release
  | signSelf => exact h.sign (Or.inl rfl)
  | contest hnone =>
    apply h.record
    intro l hl
    cases hnone.symm.trans hl
  | campaign hnone hst =>
    refine ⟨h.terms, h.leader, h.known, fun hl => (by cases hl), fun hl => ?_, fun _ => hnone⟩
    cases hnone.symm.trans hl
  | start hst =>
    have hnone : s.nodeLeader = none := h.open_ (Or.inr hst)
    refine ⟨h.terms, h.leader, h.known, fun hl => (by cases hl), fun hl => ?_, fun _ => hnone⟩
    cases hnone.symm.trans hl
  | close =>
    refine ⟨h.terms, h.leader, h.known, fun hl => (by cases hl), fun _ => Or.inr rfl, ?_⟩
    rintro (hst | hst)
    · cases hst
    · cases hst

end Coherent

end Standing

end OwnX.Cluster
