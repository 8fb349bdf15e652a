import OwnX.Cluster.Proofs.ChannelProofs
import OwnX.Cluster.Proofs.LeadershipProofs
import OwnX.Cluster.Proofs.SilenceProofs

/-!
# Proofs: a started member keeps itself in elections

As long as a member is not closed its heartbeat runs, and the heartbeat sees to it that a member without
a leader, or with one that is silent, is in an election again.
-/

set_option linter.dupNamespace false

namespace OwnX.Cluster

namespace Cluster

variable {c c' c'' : Cluster} {env : Env} {conf : Conf} {my : String}

/-! ## What keeps a member running -/

/-- A step neither starts the member nor closes it. -/
structure Keeps (c c' : Cluster) : Prop where
  closeOnce : c'.closeOnce = c.closeOnce
  holding : c'.holding = c.holding
  beating : c'.beating = c.beating
  status : c'.status = c.status ∨ c'.status ≠ .closed ∧ c'.status ≠ .init

namespace Keeps

theorem refl (c : Cluster) : c.Keeps c := ⟨rfl, rfl, rfl, Or.inl rfl⟩

theorem trans (h : c.Keeps c') (h' : c'.Keeps c'') : c.Keeps c'' where
  closeOnce := h'.closeOnce.trans h.closeOnce
  holding := h'.holding.trans h.holding
  beating := h'.beating.trans h.beating
  status := by
    rcases h'.status with he | hne
    · rw [he]
      exact h.status
    · exact Or.inr hne

end Keeps

theorem keeps_releaseLeader (now : Int) : c.Keeps (c.releaseLeader now) :=
  ⟨rfl, rfl, rfl, Or.inr ⟨nofun, nofun⟩⟩

theorem keeps_toNextTerm (now : Int) : c.Keeps (c.toNextTerm now) :=
  ⟨rfl, rfl, rfl, Or.inr ⟨nofun, nofun⟩⟩

theorem keeps_signLeader (id : String) : c.Keeps (c.signLeader id).1 := by
  rcases signLeader_cases c id with ⟨h, -⟩ | ⟨h, -⟩ | ⟨h, -⟩
  · rw [h]
    exact .refl c
  · rw [h]
    exact .refl c
  · rw [h]
    refine ⟨rfl, rfl, rfl, Or.inr ?_⟩
    rw [setLeader_status]
    split_ifs
    · exact ⟨nofun, nofun⟩
    · exact ⟨nofun, nofun⟩

theorem keeps_closeConnector (id : String) : c.Keeps (c.closeConnector id) := by
  unfold closeConnector
  split <;> exact ⟨rfl, rfl, rfl, Or.inl rfl⟩

theorem keeps_dropConnector (id : String) : c.Keeps (c.dropConnector id) :=
  (keeps_closeConnector id).trans ⟨rfl, rfl, rfl, Or.inl rfl⟩

/-! ## Elections -/

theorem keeps_finishFight (b : Bool) : c.Keeps (c.finishFight b) := by
  unfold finishFight
  simp only
  split_ifs <;> exact ⟨rfl, rfl, rfl, Or.inl rfl⟩

theorem keeps_waitOnline (t : Int) : c.Keeps (c.waitOnline env t).1 := by
  unfold waitOnline
  split_ifs
  · exact keeps_finishFight false
  · exact ⟨rfl, rfl, rfl, Or.inl rfl⟩
  · exact ⟨rfl, rfl, rfl, Or.inl rfl⟩

theorem keeps_startFight : c.Keeps (c.startFight env).1 := by
  unfold startFight
  split_ifs
  · exact .refl c
  · exact .refl c
  · exact .refl c
  · have hflag : c.Keeps (c.setFighting true) := ⟨rfl, rfl, rfl, Or.inl rfl⟩
    simp only
    split_ifs
    · refine hflag.trans (Keeps.trans ?_ (keeps_waitOnline _))
      exact ⟨rfl, rfl, rfl, Or.inl rfl⟩
    · exact hflag.trans (keeps_finishFight true)

theorem keeps_voteLoop (t : Int) : c.Keeps (c.voteLoop env t).1 := by
  unfold voteLoop
  split_ifs
  · exact keeps_finishFight false
  · exact keeps_finishFight true
  · exact keeps_finishFight true
  · exact ⟨rfl, rfl, rfl, Or.inl rfl⟩
  · exact ⟨rfl, rfl, rfl, Or.inl rfl⟩

theorem keeps_becomeCandidate (t : Int) : c.Keeps (c.becomeCandidate env t).1 := by
  unfold becomeCandidate
  split_ifs
  · exact keeps_finishFight false
  · exact keeps_finishFight false
  · have hset : c.Keeps (c.setStatus .candidate) := ⟨rfl, rfl, rfl, Or.inr ⟨nofun, nofun⟩⟩
    refine hset.trans (Keeps.trans ?_ (keeps_voteLoop t))
    exact ⟨rfl, rfl, rfl, Or.inl rfl⟩
  · refine Keeps.trans ?_ (keeps_voteLoop t)
    exact ⟨rfl, rfl, rfl, Or.inl rfl⟩

theorem keeps_countVotes (t : Int) : c.Keeps (c.countVotes env t).1 := by
  have hself : c.Keeps (c.returnWait.1.voteForMyself t) := ⟨rfl, rfl, rfl, Or.inl rfl⟩
  unfold countVotes
  simp only
  split_ifs
  · exact hself.trans ⟨rfl, rfl, rfl, Or.inl rfl⟩
  · exact hself.trans (keeps_finishFight true)

theorem keeps_confirmLeader : c.Keeps c.confirmLeader := by
  have hwait : c.Keeps c.returnWait.1 := ⟨rfl, rfl, rfl, Or.inl rfl⟩
  unfold confirmLeader
  simp only
  split_ifs
  · exact hwait.trans ((keeps_signLeader _).trans (keeps_finishFight _))
  · exact hwait.trans (keeps_finishFight _)

theorem keeps_fightElection (f : Fight) : c.Keeps (c.fightElection env f).1 := by
  cases f with
  | start => exact keeps_startFight
  | online t => exact keeps_waitOnline t
  | askLeader t => exact ⟨rfl, rfl, rfl, Or.inl rfl⟩
  | settle t => exact keeps_becomeCandidate t
  | vote t => exact keeps_voteLoop t
  | getVote t => exact keeps_countVotes t
  | confirm t => exact keeps_confirmLeader

/-! ## Connections and heartbeats -/

theorem keeps_onSessionClosed (id : String) : c.Keeps (c.onSessionClosed env id) := by
  unfold onSessionClosed
  simp only
  generalize hc : (c.setNode id _).setAlive _ = c₁
  have hset : c.Keeps c₁ := by
    rw [← hc]
    exact ⟨rfl, rfl, rfl, Or.inl rfl⟩
  have hnext : c.Keeps (c₁.toNextTerm env.now) := hset.trans (keeps_toNextTerm _)
  split_ifs
  · exact hset
  · exact hnext
  · exact hset
  · exact hset
  · exact hset
  · exact hnext

theorem keeps_heartbeatLeader : c.Keeps (c.heartbeatLeader env).1 :=
  List.foldlRecOn (motive := c.Keeps) _ _ (.refl c) fun _ hc id _ => hc.trans (keeps_closeConnector id)

theorem keeps_heartbeatFollower : c.Keeps (c.heartbeatFollower env) := by
  unfold heartbeatFollower
  split
  · split_ifs
    · exact keeps_closeConnector _
    · exact keeps_toNextTerm _
    · exact .refl c
  · split_ifs
    · exact keeps_toNextTerm _
    · exact .refl c

/-- The heartbeat goes on as long as the member is not closed. -/
theorem keeps_heartbeat {out : Out} (hopen : c.status ≠ .closed)
    (h : c.heartbeat env = some (c', out)) : c.Keeps c' := by
  simp only [heartbeat, Option.ite_none_right_eq_some] at h
  obtain ⟨-, h⟩ := h
  have hnot : ¬ c.isClose = true := by simpa [isClose] using hopen
  by_cases hready : c.isReady = true
  · rw [if_pos hready, Option.some.injEq] at h
    obtain ⟨rfl, -⟩ := Prod.mk.inj h
    split_ifs
    · exact keeps_heartbeatLeader.trans ⟨rfl, rfl, rfl, Or.inl rfl⟩
    · exact keeps_heartbeatFollower.trans ⟨rfl, rfl, rfl, Or.inl rfl⟩
  · rw [if_neg hready, if_neg hnot] at h
    cases h
    exact .refl c

/-! ## Messages -/

theorem keeps_cacheNode (id : String) (t : Int) : c.Keeps (c.cacheNode env id t) := by
  unfold cacheNode
  split_ifs <;> exact ⟨rfl, rfl, rfl, Or.inl rfl⟩

theorem keeps_recordMsg (m : NodeMsg) : c.Keeps (c.recordMsg env m) := by
  have hmy : c.Keeps (c.setNode c.nodeMy (c.getMyNode.setTerm m.term).1) := ⟨rfl, rfl, rfl, Or.inl rfl⟩
  exact hmy.trans ((keeps_cacheNode _ _).trans (keeps_cacheNode _ _))

theorem keeps_deliver (m : NodeMsg) : c.Keeps (c.deliver m) := by
  unfold deliver
  split
  · exact .refl c
  · split_ifs <;> exact ⟨rfl, rfl, rfl, Or.inl rfl⟩

theorem keeps_enterTerm (m : NodeMsg) : c.Keeps (c.enterTerm env m) := by
  unfold enterTerm
  simp only
  split_ifs
  · exact (keeps_releaseLeader _).trans (keeps_recordMsg m)
  · exact keeps_recordMsg m

theorem keeps_acceptorReceived (flag : Flag) (m : NodeMsg) :
    c.Keeps (c.acceptorReceived env flag m).1 := by
  cases flag with
  | sGetVote =>
    unfold acceptorReceived onGetVote
    simp only
    split_ifs
    · exact (keeps_releaseLeader env.now).trans ⟨rfl, rfl, rfl, Or.inl rfl⟩
    · exact ⟨rfl, rfl, rfl, Or.inl rfl⟩
  | sBroadcastLeader =>
    show c.Keeps (c.onBroadcastLeader env m).1
    rcases (onBroadcastLeader_cases c env m).1 with ⟨-, h⟩ | ⟨-, ⟨h, -⟩ | ⟨h, -⟩⟩
    · rw [h]
      exact .refl c
    · rw [h]
      exact keeps_enterTerm m
    · rw [h]
      exact (keeps_enterTerm m).trans (keeps_signLeader _)
  | _ => exact .refl c

theorem keeps_nodeReceived (flag : Flag) (m : NodeMsg) : c.Keeps (c.nodeReceived env flag m) := by
  have hrec : c.Keeps (c.recordMsg env m) := keeps_recordMsg m
  unfold nodeReceived
  split_ifs
  · exact keeps_releaseLeader _
  · refine hrec.trans ?_
    generalize c.recordMsg env m = c₁
    cases flag with
    | rAskLeader =>
      show c₁.Keeps (c₁.onAskLeaderReply m)
      unfold onAskLeaderReply
      simp only
      split_ifs
      · exact .refl c₁
      · exact (keeps_signLeader _).trans (keeps_deliver m)
      · exact keeps_deliver m
    | rGetVote =>
      show c₁.Keeps (c₁.onGetVoteReply m)
      unfold onGetVoteReply
      simp only
      split_ifs
      · refine Keeps.trans ?_ (keeps_deliver m)
        exact ⟨rfl, rfl, rfl, Or.inl rfl⟩
      · exact keeps_deliver m
    | rLeader =>
      show c₁.Keeps (c₁.onLeaderReply env m)
      unfold onLeaderReply
      simp only
      split_ifs
      · exact (keeps_releaseLeader _).trans (keeps_deliver m)
      · exact keeps_deliver m
    | _ => exact .refl c₁

/-! ## The heartbeat of a started member -/

/-- A member that has been started is past `init`, and its heartbeat runs until it is closed. -/
structure Upkeep (c : Cluster) : Prop where
  open_ : c.closeOnce = false → c.status ≠ .closed
  started : c.holding = true → c.status ≠ .init
  beats : c.holding = true → c.closeOnce = false → c.beating = true

namespace Upkeep

theorem keeps (h : c.Upkeep) (hk : c.Keeps c') : c'.Upkeep where
  open_ := by
    intro hclose
    rcases hk.status with he | hne
    · rw [he]
      exact h.open_ (hk.closeOnce ▸ hclose)
    · exact hne.1
  started := by
    intro hhold
    rcases hk.status with he | hne
    · rw [he]
      exact h.started (hk.holding ▸ hhold)
    · exact hne.2
  beats := by
    intro hhold hclose
    rw [hk.beating]
    exact h.beats (hk.holding ▸ hhold) (hk.closeOnce ▸ hclose)

theorem startUp (h : c.Upkeep) : c.startUp.Upkeep := by
  unfold Cluster.startUp
  split
  · exact h.keeps (keeps_signLeader _)
  · split_ifs
    · exact h
    · exact ⟨fun _ => nofun, fun _ => nofun, fun _ _ => rfl⟩

theorem close (h : c.Upkeep) : c.close.Upkeep := by
  unfold Cluster.close
  split_ifs
  · exact h
  · have hclosed : ({ c with closeOnce := true }.setStatus .closed).Upkeep :=
      ⟨fun hclose => (by cases hclose), fun _ => nofun, fun _ hclose => (by cases hclose)⟩
    exact List.foldlRecOn (motive := Upkeep) _ _ hclosed fun _ hc id _ => hc.keeps (keeps_dropConnector id)

/-- The heartbeat ends only when the member is closed. -/
theorem heartbeat {out : Out} (h : c.Upkeep) (hb : c.heartbeat env = some (c', out)) : c'.Upkeep := by
  by_cases hclosed : c.status = .closed
  · have hready : ¬ c.isReady = true := by simp [isReady, hclosed]
    have hclose : c.isClose = true := by simp [isClose, hclosed]
    have honce : c.closeOnce = true := by
      cases ho : c.closeOnce with
      | true => rfl
      | false => exact absurd hclosed (h.open_ ho)
    simp only [Cluster.heartbeat, Option.ite_none_right_eq_some, if_neg hready, if_pos hclose] at hb
    obtain ⟨-, hb⟩ := hb
    cases hb
    refine ⟨h.open_, h.started, fun _ ho => ?_⟩
    cases honce.symm.trans ho
  · exact h.keeps (keeps_heartbeat hclosed hb)

theorem act {a : Action} {out : Out} (h : c.Upkeep) (ha : c.act env a = some (c', out)) : c'.Upkeep := by
  by_cases hbeat : a = .heartbeat
  · subst hbeat
    exact h.heartbeat ha
  · cases acts_of_act ha with
    | startUp => exact h.startUp
    | close => exact h.close
    | connect hc =>
      simp only [Cluster.connect, Option.ite_none_right_eq_some, Option.some.injEq] at hc
      obtain ⟨-, rfl⟩ := hc
      exact h.keeps ⟨rfl, rfl, rfl, Or.inl rfl⟩
    | assignConnector hc =>
      obtain ⟨r, -, rfl⟩ := Option.map_eq_some_iff.mp hc
      exact h.keeps ⟨rfl, rfl, rfl, Or.inl rfl⟩
    | readFail => exact h.keeps ⟨rfl, rfl, rfl, Or.inl rfl⟩
    | readStop => exact h.keeps ⟨rfl, rfl, rfl, Or.inl rfl⟩
    | callback id pending =>
      refine h.keeps (Keeps.trans ?_ (keeps_onSessionClosed id))
      exact ⟨rfl, rfl, rfl, Or.inl rfl⟩
    | leads | follows | idle => exact absurd rfl hbeat
    | fight =>
      refine h.keeps (Keeps.trans ?_ (keeps_fightElection _))
      exact ⟨rfl, rfl, rfl, Or.inl rfl⟩

end Upkeep

theorem upkeep_create (conf : Conf) (my : String) (now : Int) : (create conf my now).Upkeep := by
  have hstatus : (create conf my now).status = .init := (fresh_create conf my now).status
  have hload : ∀ (nodes : List NodeConf) (c : Cluster), c.holding = false →
      (c.loadAllNodes nodes).holding = false := by
    intro nodes
    induction nodes with
    | nil => exact fun c hc => hc
    | cons n nodes ih => exact fun c hc => ih _ hc
  have hhold : (create conf my now).holding = false := hload _ _ rfl
  refine ⟨fun _ => ?_, fun hh => ?_, fun hh => ?_⟩
  · rw [hstatus]
    exact nofun
  · cases hhold.symm.trans hh
  · cases hhold.symm.trans hh

theorem upkeep_reachable (h : (member conf my).Reachable c) : c.Upkeep := by
  refine Machine.ReachableWhen.invariant Upkeep ?_ ?_ h
  · rintro c ⟨now, rfl⟩
    exact upkeep_create conf my now
  · intro c i c' _ hup _ hs
    cases i with
    | act env a =>
      obtain ⟨⟨c₁, out⟩, hact, rfl⟩ := Option.map_eq_some_iff.mp hs
      exact hup.act hact
    | receive env request flag m =>
      cases hs
      unfold receive
      split_ifs
      · exact hup.keeps (keeps_acceptorReceived flag m)
      · exact hup.keeps (keeps_nodeReceived flag m)

/-! ## The next election -/

/-- It is time for an election: there has been no leader for more than six seconds, nor another election
begun, or nothing has been heard of the leader, which is not the member itself, for longer than
`NodeTimeout`. -/
def Overdue (c : Cluster) (heard : String → Option Int) (env : Env) : Prop :=
  match c.nodeLeader with
  | none => 6 < env.now - c.lostLeaderTime
  | some l => l ≠ c.nodeMy ∧ ∃ t, heard l = some t ∧ c.nodeTimeout < env.now - t

/-- An invocation of `fightElection` has been started that will enter the term. -/
def Restarted (c : Cluster) (term : Int) : Prop :=
  .start ∈ c.fights ∧ ∀ env, ∃ c' out, c.act env (.fight .start) = some (c', out) ∧
    c'.getMyTerm = term ∧ term ∈ c'.contests

/-- An invocation that has been started passes the flag, if there is no leader and nobody holds it. -/
theorem restarted_of_start (hstart : .start ∈ c.fights) (hfree : c.fighting = false)
    (hstatus : c.status = .follower) (hleader : c.nodeLeader = none) (hown : 0 ≤ c.getMyTerm)
    (hlast : c.getMyTerm < 2 ^ 63 - 1) : c.Restarted (c.getMyTerm + 1) := by
  refine ⟨hstart, fun env => ?_⟩
  have hact : c.act env (.fight .start) = some ((c.setFights (c.fights.erase .start)).startFight env) :=
    if_pos hstart
  generalize hc : c.setFights (c.fights.erase .start) = c₁ at hact
  have hpass : c₁.passesFlag (.act env (.fight .start)) = true := by
    rw [← hc]
    show (!(c.status = .closed || c.status = .leader) && c.nodeLeader.isNone && !c.fighting) = true
    simp [hstatus, hleader, hfree]
  have hterm : c₁.getMyTerm = c.getMyTerm := by
    rw [← hc]
    rfl
  have hnext : c₁.nextTerm = c.getMyTerm + 1 := by
    rw [nextTerm_of_lt (hterm ▸ hown) (hterm ▸ hlast), hterm]
  refine ⟨(c₁.startFight env).1, (c₁.startFight env).2, hact, ?_, ?_⟩
  · rw [getMyTerm_startFight hpass, hnext]
    exact max_eq_right (by omega)
  · rw [← hnext]
    exact contests_startFight env hpass (by omega)

/-- No invocation is past the flag, and none holds it. -/
theorem fighting_of_contests (hr : (member conf my).Reachable c) (h : c.contests = []) :
    c.fighting = false := by
  obtain ⟨t, ht⟩ := (attended_reachable hr).held
  unfold HeldBy at ht
  cases hf : c.fighting with
  | false => rfl
  | true =>
    rw [h, hf] at ht
    cases ht

/-- `OnSessionClosed` of the connection to the leader gives the leader up. -/
theorem restarted_callback {l : String} (hpending : l ∈ c.pendingClosed) (hleader : c.nodeLeader = some l)
    (hopen : c.status ≠ .closed) (hfree : c.fighting = false) (hown : 0 ≤ c.getMyTerm)
    (hlast : c.getMyTerm < 2 ^ 63 - 1) (env : Env) :
    ∃ c', c.runCallback env l = some c' ∧ c'.Restarted (c.getMyTerm + 1) := by
  refine ⟨_, if_pos hpending, ?_⟩
  unfold onSessionClosed
  simp only
  generalize hc : ((c.setConns _ _).setNode l _).setAlive _ = c₁
  have hleader₁ : c₁.nodeLeader = some l := by
    rw [← hc]
    exact hleader
  have hopen₁ : c₁.status ≠ .closed := by
    rw [← hc]
    exact hopen
  have hfree₁ : c₁.fighting = false := by
    rw [← hc]
    exact hfree
  have hterm : c₁.getMyTerm = c.getMyTerm := by
    rw [← hc]
    show (if c.nodeMy = l then { c.nodes l with nodeConnector := none } else c.nodes c.nodeMy).term = _
    split_ifs with hmy
    · rw [← hmy]
      rfl
    · rfl
  rw [if_pos hleader₁, if_neg hopen₁, ← hterm]
  have hstart : .start ∈ (c₁.toNextTerm env.now).fights :=
    List.mem_append_right _ (List.mem_singleton_self _)
  exact restarted_of_start hstart hfree₁ rfl rfl (hterm ▸ hown) (hterm ▸ hlast)

/-! ### The tick of a follower -/

/-- A member that has been waiting too long gives its leader up, or closes the connection to it. -/
theorem heartbeatFollower_overdue {heard : String → Option Int} (hheard : c.HeardOf heard)
    (hdue : c.Overdue heard env) :
    c.heartbeatFollower env = c.toNextTerm env.now ∨
      ∃ l conns pending, c.nodeLeader = some l ∧ c.heartbeatFollower env = c.setConns conns pending ∧
        l ∈ pending := by
  unfold Overdue at hdue
  unfold heartbeatFollower
  cases hl : c.nodeLeader with
  | none =>
    rw [hl] at hdue
    exact Or.inl (if_pos hdue)
  | some l =>
    rw [hl] at hdue
    obtain ⟨hne, t, ht, hlate⟩ := hdue
    have hout : (c.nodes l).isTimeOut env.now c.nodeTimeout = true := by
      unfold Node.isTimeOut
      rw [hheard l hne, ht]
      exact decide_eq_true hlate
    simp only
    rw [if_pos hout]
    cases hconn : (c.nodes l).nodeConnector with
    | none => exact Or.inl rfl
    | some k =>
      have hclose : c.closeConnector l = c.setConns
          (c.conns.modify k fun conn => { conn with closed := true }) (c.pendingClosed ++ [l]) := by
        unfold closeConnector
        rw [hconn]
      rw [if_pos Option.isSome_some, hclose]
      exact Or.inr ⟨l, _, _, rfl, rfl, List.mem_append_right _ (List.mem_singleton_self _)⟩

/-- A leader of which nothing has been heard since the connection to it never times out. -/
theorem heartbeatFollower_unheard {heard : String → Option Int} (hheard : c.HeardOf heard) {l : String}
    (hl : c.nodeLeader = some l) (hne : l ≠ c.nodeMy) (hnone : heard l = none) :
    c.heartbeatFollower env = c := by
  have hout : (c.nodes l).isTimeOut env.now c.nodeTimeout = false := by
    unfold Node.isTimeOut
    rw [hheard l hne, hnone]
  unfold heartbeatFollower
  rw [hl]
  simp only [hout, Bool.false_eq_true, if_false]

/-- The heartbeat of a member that has been started, is not closed, does not lead and fights no election. -/
theorem heartbeat_follows (hr : (member conf my).Reachable c) (hstarted : c.holding = true)
    (hopen : c.closeOnce = false) (hfree : c.fighting = false) (hfollow : c.nodeLeader ≠ some c.nodeMy) :
    c.heartbeat env = some ((c.heartbeatFollower env).setNode c.nodeMy c.getMyNode.prune, []) := by
  have hup := upkeep_reachable hr
  have hready : c.isReady = true := by
    have hinit := hup.started hstarted
    have hnot := hup.open_ hopen
    unfold isReady
    cases hst : c.status with
    | init => exact absurd hst hinit
    | closed => exact absurd hst hnot
    | _ => simp [hfree]
  have hlead : c.isLeader = false := by
    -- a leader has signed itself
    unfold isLeader
    rw [decide_eq_false_iff_not]
    exact fun hst => hfollow ((coherent_reachable hr).leads hst)
  have hmy : (c.heartbeatFollower env).getMyNode = c.getMyNode :=
    getMyNode_of_registry registry_heartbeatFollower
  unfold heartbeat
  rw [if_pos (hup.beats hstarted hopen), if_pos hready, hlead]
  simp only [Bool.false_eq_true, if_false, hmy]

end Cluster

open Cluster

/-- A member that has been started and not been closed, while no election is under way. It does not get
stuck without a leader, nor with one that has fallen silent: the next turn of the heartbeat starts an
election that enters a new term, at once or as soon as the connection to the leader, which it closes, is
seen to be closed. But a leader of which nothing has been heard since the connection to it was made is
followed for ever, however long it is silent. -/
theorem election_restarts {conf : Conf} {my : String} {c : Cluster} {heard : String → Option Int}
    {env : Env} (hr : (memberHeard conf my).Reachable (c, heard)) (hstarted : c.holding = true)
    (hopen : c.closeOnce = false) (hidle : c.contests = []) :
    (c.getMyTerm < 2 ^ 63 - 1 → c.Overdue heard env →
      ∃ c', c.heartbeat env = some (c', []) ∧
        (c'.Restarted (c.getMyTerm + 1) ∨ ∃ l ∈ c'.pendingClosed, ∀ env', ∃ c'',
          c'.runCallback env' l = some c'' ∧ c''.Restarted (c.getMyTerm + 1))) ∧
    ∀ l, c.nodeLeader = some l → l ≠ c.nodeMy → heard l = none →
      ∃ c', c.heartbeat env = some (c', []) ∧ c'.nodeLeader = some l ∧ c'.fights = c.fights ∧
        c'.pendingClosed = c.pendingClosed := by
  obtain ⟨hmember, hheard⟩ := heardOf_reachable hr
  have hfree := fighting_of_contests hmember hidle
  have hown := getMyTerm_nonneg hmember
  have hnot : c.status ≠ .closed := (upkeep_reachable hmember).open_ hopen
  -- the pruning at the end of the tick leaves the own term alone
  have hterm : ∀ c₁ : Cluster, c₁.registry = c.registry →
      (c₁.setNode c.nodeMy c.getMyNode.prune).getMyTerm = c.getMyTerm := by
    intro c₁ hc₁
    unfold getMyTerm
    rw [getMyNode_setNode, if_pos (nodeMy_of_registry hc₁)]
    rfl
  constructor
  · intro hlast hdue
    have hfollow : c.nodeLeader ≠ some c.nodeMy := by
      intro hl
      unfold Overdue at hdue
      rw [hl] at hdue
      exact hdue.1 rfl
    refine ⟨_, heartbeat_follows hmember hstarted hopen hfree hfollow, ?_⟩
    rcases heartbeatFollower_overdue hheard hdue with he | ⟨l, conns, pending, hl, he, hpending⟩
    · rw [he]
      have hsame := hterm (c.toNextTerm env.now) rfl
      rw [← hsame]
      refine Or.inl (restarted_of_start ?_ hfree rfl rfl (hsame ▸ hown) (hsame ▸ hlast))
      exact List.mem_append_right _ (List.mem_singleton_self _)
    · rw [he]
      have hsame := hterm (c.setConns conns pending) rfl
      rw [← hsame]
      exact Or.inr ⟨l, hpending,
        restarted_callback hpending hl hnot hfree (hsame ▸ hown) (hsame ▸ hlast)⟩
  · intro l hl hne hnone
    have hfollow : c.nodeLeader ≠ some c.nodeMy := by
      rw [hl]
      exact fun he => hne (Option.some.inj he)
    refine ⟨_, heartbeat_follows hmember hstarted hopen hfree hfollow, ?_⟩
    rw [heartbeatFollower_unheard hheard hl hne hnone]
    exact ⟨hl, rfl, rfl⟩

/-- The member `a:1` follows `b:1` in two runs. In the first it is connected to `b:1` when that announces
itself, and hears nothing for longer than ten seconds. In the second it connects after the announcement. -/
theorem election_restarts_silent :
    (∃ c heard, (memberHeard twoNodes "a:1").Reachable (c, heard) ∧ c.nodeLeader = some "b:1" ∧
      c.getMyTerm = 1 ∧
      ∃ c', c.heartbeat ⟨11, "", fun _ => true⟩ = some (c', []) ∧
        (c'.Restarted 2 ∨ ∃ l ∈ c'.pendingClosed, ∀ env', ∃ c'',
          c'.runCallback env' l = some c'' ∧ c''.Restarted 2)) ∧
    ∃ c heard, (memberHeard twoNodes "a:1").Reachable (c, heard) ∧
      ∀ env, ∃ c', c.heartbeat env = some (c', []) ∧ c'.nodeLeader = some "b:1" ∧
        c'.fights = c.fights ∧ c'.pendingClosed = c.pendingClosed := by
  have hfirst : ((memberHeard twoNodes "a:1").run (create twoNodes "a:1" 0, fun _ => none)
      [does 0 .startUp, does 0 (.connect "b:1"), does 0 .assignConnector, leaderB 1]).map
      (fun s => (s.1.contests, s.1.nodeLeader, s.2 "b:1", s.1.getMyTerm,
        decide (s.1.holding = true ∧ s.1.closeOnce = false ∧ s.1.nodeMy = "a:1" ∧
          s.1.nodeTimeout = 10))) =
      some ([], some "b:1", some 0, 1, true) := by
    decide
  have hsecond : ((memberHeard twoNodes "a:1").run (create twoNodes "a:1" 0, fun _ => none)
      [does 0 .startUp, leaderB 1, does 0 (.connect "b:1"), does 0 .assignConnector]).map
      (fun s => (s.1.contests, s.1.nodeLeader, s.2 "b:1",
        decide (s.1.holding = true ∧ s.1.closeOnce = false ∧ s.1.nodeMy = "a:1"))) =
      some ([], some "b:1", none, true) := by
    decide
  constructor
  · obtain ⟨⟨c, heard⟩, hc, he⟩ := Machine.observed_of_run hfirst ⟨⟨0, rfl⟩, rfl⟩
    simp only [Prod.mk.injEq, decide_eq_true_eq] at he
    obtain ⟨hidle, hl, hheard, ht, hh, ho, hmy, htimeout⟩ := he
    have hdue : c.Overdue heard ⟨11, "", fun _ => true⟩ := by
      unfold Overdue
      rw [hl]
      refine ⟨?_, 0, hheard, ?_⟩
      · rw [hmy]
        decide
      · rw [htimeout]
        decide
    have hlast : c.getMyTerm < 2 ^ 63 - 1 := by
      rw [ht]
      decide
    have hrestart := (election_restarts hc hh ho hidle).1 hlast hdue
    rw [ht] at hrestart
    exact ⟨c, heard, hc, hl, ht, hrestart⟩
  · obtain ⟨⟨c, heard⟩, hc, he⟩ := Machine.observed_of_run hsecond ⟨⟨0, rfl⟩, rfl⟩
    simp only [Prod.mk.injEq, decide_eq_true_eq] at he
    obtain ⟨hidle, hl, hheard, hh, ho, hmy⟩ := he
    have hne : "b:1" ≠ c.nodeMy := by
      rw [hmy]
      decide
    exact ⟨c, heard, hc, fun env => (election_restarts hc hh ho hidle).2 "b:1" hl hne hheard⟩

end OwnX.Cluster
