import OwnX.Cluster.Request
import OwnX.Cluster.Proofs.ElectionProofs

/-!
# Proofs: the channel of `sendAndWait`

Who writes to `sendAndWaitChan`, and what a member answers. Only the invocation of `fightElection` that
holds the flag calls `sendAndWait`, so that a member waits for one call at a time and sends nothing
else meanwhile.
-/

set_option linter.dupNamespace false

namespace OwnX.Cluster

/-- An invocation that calls `sendAndWait` waits at a new place. -/
theorem Fight.ne_of_mem_next {f g : Fight} (h : g ∈ f.next) (hg : g.waits = true) : g ≠ f := by
  rintro rfl
  cases g <;> simp [Fight.next, Fight.waits] at h hg

namespace Cluster

variable {c c' : Cluster} {env : Env} {a : Action} {out : Out} {my : String}

/-! ## Who writes to the channel -/

theorem wait_signLeader (id : String) :
    (c.signLeader id).1.sendAndWaitChan = c.sendAndWaitChan := by
  rcases signLeader_cases c id with ⟨h, -⟩ | ⟨h, -⟩ | ⟨h, -⟩
  · rw [h]
  · rw [h]
  · rw [h]
    rfl

theorem wait_closeConnector (id : String) :
    (c.closeConnector id).sendAndWaitChan = c.sendAndWaitChan := by
  unfold closeConnector
  split <;> rfl

theorem wait_close : c.close.sendAndWaitChan = c.sendAndWaitChan := by
  unfold close
  split_ifs
  · rfl
  · refine List.foldlRecOn (motive := fun c' : Cluster => c'.sendAndWaitChan = c.sendAndWaitChan) _ _ rfl
      fun c' hc id _ => ?_
    exact (wait_closeConnector id).trans hc

theorem wait_startUp : c.startUp.sendAndWaitChan = c.sendAndWaitChan := by
  unfold startUp
  split
  · exact wait_signLeader _
  · split_ifs <;> rfl

theorem wait_heartbeatLeader :
    (c.heartbeatLeader env).1.sendAndWaitChan = c.sendAndWaitChan :=
  List.foldlRecOn (motive := fun c' : Cluster => c'.sendAndWaitChan = c.sendAndWaitChan) _ _ rfl
    fun _ hc id _ => (wait_closeConnector id).trans hc

theorem wait_heartbeatFollower :
    (c.heartbeatFollower env).sendAndWaitChan = c.sendAndWaitChan := by
  unfold heartbeatFollower
  split
  · split_ifs
    · exact wait_closeConnector _
    · rfl
    · rfl
  · split_ifs <;> rfl

theorem wait_onSessionClosed (id : String) :
    (c.onSessionClosed env id).sendAndWaitChan = c.sendAndWaitChan := by
  unfold onSessionClosed
  simp only
  split_ifs <;> rfl

/-- Only a stretch of `fightElection` writes to `sendAndWaitChan`. -/
theorem Acts.wait_eq (h : Acts env c a c' out) (ha : ∀ f, a ≠ .fight f) :
    c'.sendAndWaitChan = c.sendAndWaitChan := by
  cases h with
  | startUp => exact wait_startUp
  | close => exact wait_close
  | connect h =>
    simp only [Cluster.connect, Option.ite_none_right_eq_some, Option.some.injEq] at h
    obtain ⟨-, rfl⟩ := h
    rfl
  | assignConnector h =>
    obtain ⟨r, -, rfl⟩ := Option.map_eq_some_iff.mp h
    rfl
  | readFail => rfl
  | readStop => rfl
  | callback id pending => exact wait_onSessionClosed id
  | leads => exact wait_heartbeatLeader
  | follows => exact wait_heartbeatFollower
  | idle => rfl
  | fight => exact absurd rfl (ha _)

theorem wait_cacheNode (id : String) (t : Int) :
    (c.cacheNode env id t).sendAndWaitChan = c.sendAndWaitChan := by
  unfold cacheNode
  split_ifs <;> rfl

theorem wait_recordMsg (m : NodeMsg) :
    (c.recordMsg env m).sendAndWaitChan = c.sendAndWaitChan := by
  unfold recordMsg
  simp only [wait_cacheNode]
  rfl

theorem wait_acceptorReceived (flag : Flag) (m : NodeMsg) :
    (c.acceptorReceived env flag m).1.sendAndWaitChan = c.sendAndWaitChan := by
  cases flag with
  | sGetVote =>
    unfold acceptorReceived onGetVote
    simp only
    split_ifs <;> rfl
  | sBroadcastLeader =>
    have henter : (c.enterTerm env m).sendAndWaitChan = c.sendAndWaitChan := by
      unfold enterTerm
      rw [wait_recordMsg]
      split_ifs <;> rfl
    show (c.onBroadcastLeader env m).1.sendAndWaitChan = c.sendAndWaitChan
    rcases (onBroadcastLeader_cases c env m).1 with ⟨-, h⟩ | ⟨-, ⟨h, -⟩ | ⟨h, -⟩⟩
    · rw [h]
    · rw [h, henter]
    · rw [h, wait_signLeader, henter]
  | _ => rfl

/-- What a handler makes of the channel: it is left alone, or the loop of `sendAndWait` takes the
message. -/
def Takes (c c' : Cluster) (m : NodeMsg) : Prop :=
  c'.sendAndWaitChan = c.sendAndWaitChan ∨
    ∃ w w', c.sendAndWaitChan = some w ∧ c'.sendAndWaitChan = some w' ∧
      w'.nodeMsgList = w.nodeMsgList ++ [m]

theorem takes_deliver {c₁ : Cluster} (m : NodeMsg) (h : c₁.sendAndWaitChan = c.sendAndWaitChan) :
    c.Takes (c₁.deliver m) m := by
  unfold deliver
  split
  · exact Or.inl h
  · rename_i w hw
    split_ifs
    · exact Or.inl h
    · exact Or.inr ⟨w, _, h ▸ hw, rfl, rfl⟩

theorem takes_nodeReceived (c : Cluster) (env : Env) (flag : Flag) (m : NodeMsg) :
    c.Takes (c.nodeReceived env flag m) m ∧
      (flag = .ok → (c.nodeReceived env flag m).sendAndWaitChan = c.sendAndWaitChan) := by
  have hrec : (c.recordMsg env m).sendAndWaitChan = c.sendAndWaitChan := wait_recordMsg m
  unfold nodeReceived
  split_ifs
  · exact ⟨Or.inl rfl, fun _ => rfl⟩
  · cases flag with
    | rAskLeader =>
      refine ⟨?_, nofun⟩
      show c.Takes ((c.recordMsg env m).onAskLeaderReply m) m
      unfold onAskLeaderReply
      simp only
      split_ifs
      · exact Or.inl hrec
      · exact takes_deliver m ((wait_signLeader _).trans hrec)
      · exact takes_deliver m hrec
    | rGetVote =>
      refine ⟨?_, nofun⟩
      show c.Takes ((c.recordMsg env m).onGetVoteReply m) m
      unfold onGetVoteReply
      simp only
      split_ifs
      · exact takes_deliver m hrec
      · exact takes_deliver m hrec
    | rLeader =>
      refine ⟨?_, nofun⟩
      show c.Takes ((c.recordMsg env m).onLeaderReply env m) m
      unfold onLeaderReply
      simp only
      split_ifs
      · exact takes_deliver m hrec
      · exact takes_deliver m hrec
    | _ => exact ⟨Or.inl hrec, fun _ => hrec⟩

/-! ## What a member answers -/

/-- The answers to the request `m`: one of them at most is for `sendAndWaitChan`, and it carries the
`ReqId` of the request and the answering node. -/
structure Replies (c : Cluster) (m : NodeMsg) (replies : List (Flag × NodeMsg)) : Prop where
  own : ∀ r ∈ replies, r.1 ≠ .ok → r.2.reqId = m.reqId ∧ r.2.nodeId = c.nodeMy
  once : replies.countP (fun r => r.1 ≠ .ok) ≤ 1

theorem Replies.none (c : Cluster) (m : NodeMsg) : c.Replies m [] := ⟨nofun, Nat.zero_le 1⟩

theorem Replies.one {m : NodeMsg} {r : Flag × NodeMsg} (hreq : r.2.reqId = m.reqId)
    (hid : r.2.nodeId = c.nodeMy) : c.Replies m [r] where
  own := by
    intro r' hr _
    rw [List.mem_singleton.mp hr]
    exact ⟨hreq, hid⟩
  once := List.countP_le_length

theorem Replies.ok {m data : NodeMsg} {replies : List (Flag × NodeMsg)} (h : c.Replies m replies) :
    c.Replies m ((.ok, data) :: replies) where
  own := by
    intro r hr hne
    rcases List.mem_cons.mp hr with rfl | hr
    · exact absurd rfl hne
    · exact h.own r hr hne
  once := by
    rw [List.countP_cons_of_neg (by simp)]
    exact h.once

theorem replies_onBroadcastLeader (c : Cluster) (env : Env) (m : NodeMsg) :
    c.Replies m (c.onBroadcastLeader env m).2 := by
  have henter : SameVotes c (c.enterTerm env m) := sameVotes_enterTerm m
  have hsign := henter.trans (.of_registry (registry_signLeader m.leaderId))
  unfold onBroadcastLeader
  by_cases hlt : m.term < c.getMyTerm
  · rw [if_pos hlt]
    exact .one rfl rfl
  · rw [if_neg hlt]
    simp only
    split_ifs
    · refine .ok (.one rfl ?_)
      exact henter.my
    · exact (Replies.none c m).ok
    · refine .ok (.one rfl ?_)
      exact hsign.my
    · exact (Replies.none c m).ok

theorem replies_acceptorReceived (c : Cluster) (env : Env) (flag : Flag) (m : NodeMsg) :
    c.Replies m (c.acceptorReceived env flag m).2 := by
  cases flag with
  | sAskLeader =>
    show c.Replies m [(.rAskLeader, c.answerAskLeader m)]
    unfold answerAskLeader
    split
    · split_ifs <;> exact .one rfl rfl
    · exact .one rfl rfl
  | sGetVote =>
    show c.Replies m (c.onGetVote env m).2
    unfold onGetVote
    simp only
    split_ifs <;> exact .one rfl rfl
  | sBroadcastLeader => exact replies_onBroadcastLeader c env m
  | _ => exact .none c m

/-! ## The stretches of an election -/

/-- `sendAndWait` has begun. -/
structure Opens (env : Env) (wait : Option Wait) (out : Out) : Prop where
  empty : ∃ senders, wait = some { senderNodeMap := senders }
  req : ∀ m ∈ out, m.2.2.reqId = env.uuid
  once : (out.map Prod.fst).Nodup

theorem opens_sendAndWait (hnd : c.nodesAll.Nodup) (env : Env) (flag : Flag) (data : NodeMsg) :
    Opens env (c.sendAndWait env flag data).1.sendAndWaitChan (c.sendAndWait env flag data).2 where
  empty := ⟨_, rfl⟩
  req := by
    intro m hm
    obtain ⟨id, -, rfl⟩ := List.mem_map.mp hm
    rfl
  once := by
    unfold sendAndWait
    simp only [List.map_map]
    exact (List.map_id _).symm ▸ hnd.filter _

/-- What a stretch leaves of the channel: none, or `sendAndWait` has begun and the invocation waits at
one of the places. -/
def Asks (env : Env) (r : Cluster × Out) (places : List Fight) : Prop :=
  r.1.sendAndWaitChan = none ∨
    Opens env r.1.sendAndWaitChan r.2 ∧ ∃ f ∈ places, f.waits = true ∧ f ∈ r.1.fights

variable {t : Int}

theorem wait_finishFight (b : Bool) : (c.finishFight b).sendAndWaitChan = c.sendAndWaitChan := by
  unfold finishFight
  simp only
  split_ifs <;> rfl

theorem asks_waitOnline (hnd : c.nodesAll.Nodup) (hnone : c.sendAndWaitChan = none) :
    Asks env (c.waitOnline env t) (Fight.online t).next := by
  unfold waitOnline
  split_ifs
  · exact Or.inl ((wait_finishFight _).trans hnone)
  · exact Or.inr ⟨opens_sendAndWait hnd env _ _, .askLeader t, by simp [Fight.next], rfl, by simp⟩
  · exact Or.inl hnone

theorem asks_voteLoop (hnd : c.nodesAll.Nodup) (hnone : c.sendAndWaitChan = none) :
    Asks env (c.voteLoop env t) (Fight.vote t).next := by
  unfold voteLoop
  split_ifs
  · exact Or.inl ((wait_finishFight _).trans hnone)
  · exact Or.inl ((wait_finishFight _).trans hnone)
  · exact Or.inl ((wait_finishFight _).trans hnone)
  · exact Or.inr ⟨opens_sendAndWait hnd env _ _, .getVote t, by simp [Fight.next], rfl, by simp⟩
  · exact Or.inl hnone

theorem asks_becomeCandidate (hnd : c.nodesAll.Nodup) (hnone : c.sendAndWaitChan = none) :
    Asks env (c.becomeCandidate env t) (Fight.settle t).next := by
  unfold becomeCandidate
  split_ifs
  · exact Or.inl ((wait_finishFight _).trans hnone)
  · exact Or.inl ((wait_finishFight _).trans hnone)
  · exact asks_voteLoop hnd hnone
  · exact asks_voteLoop hnd hnone

theorem asks_countVotes (hnd : c.nodesAll.Nodup) :
    Asks env (c.countVotes env t) (Fight.getVote t).next := by
  have hnd' : (c.returnWait.1.voteForMyself t).nodesAll.Nodup := hnd
  unfold countVotes
  simp only
  split_ifs
  · exact Or.inr ⟨opens_sendAndWait hnd' env _ _, .confirm t, by simp [Fight.next], rfl, by simp⟩
  · exact Or.inl (wait_finishFight _)

theorem wait_confirmLeader : c.confirmLeader.sendAndWaitChan = none := by
  unfold confirmLeader
  simp only
  split_ifs
  · rw [wait_finishFight, wait_signLeader]
    rfl
  · rw [wait_finishFight]
    rfl

theorem asks_startFight (hnd : c.nodesAll.Nodup) (hnone : c.sendAndWaitChan = none) :
    Asks env (c.startFight env) (Fight.online c.nextTerm).next := by
  unfold startFight
  split_ifs
  · exact Or.inl hnone
  · exact Or.inl hnone
  · exact Or.inl hnone
  · simp only
    split_ifs
    · exact asks_waitOnline hnd hnone
    · exact Or.inl ((wait_finishFight _).trans hnone)

theorem asks_fightElection {f : Fight} (hnd : c.nodesAll.Nodup) (hf : f ≠ .start)
    (hnone : f.waits = false → c.sendAndWaitChan = none) :
    Asks env (c.fightElection env f) f.next := by
  cases f with
  | start => exact absurd rfl hf
  | online t => exact asks_waitOnline hnd (hnone rfl)
  | askLeader t => exact Or.inl rfl
  | settle t => exact asks_becomeCandidate hnd (hnone rfl)
  | vote t => exact asks_voteLoop hnd (hnone rfl)
  | getVote t => exact asks_countVotes hnd
  | confirm t => exact Or.inl wait_confirmLeader

/-! ## A member and its call -/

/-- The one invocation past the flag is the one that waits in `sendAndWait`. -/
structure Attended (my : String) (c : Cluster) : Prop where
  my : c.nodeMy = my
  nodup : c.nodesAll.Nodup
  held : ∃ t, c.HeldBy t
  waits : c.sendAndWaitChan ≠ none → ∃ f ∈ c.fights, f.waits = true

theorem ne_start_of_waits {f : Fight} (h : f.waits = true) : f ≠ .start := by
  rintro rfl
  cases h

/-- There is one invocation past the flag at most. -/
theorem HeldBy.eq_of_mem (h : c.HeldBy t) {f g : Fight} (hf : f ∈ c.fights) (hf' : f ≠ .start)
    (hg : g ∈ c.fights) (hg' : g ≠ .start) : g = f := by
  by_contra hne
  have hmem : g ∈ (c.setFights (c.fights.erase f)).invocations :=
    mem_invocations.mpr ⟨(List.mem_erase_of_ne hne).mpr hg, hg'⟩
  have hlen := length_contests (c.setFights (c.fights.erase f))
  rw [(h.alone hf hf').2.contests] at hlen
  exact (List.length_pos_of_mem hmem).ne hlen

theorem Attended.fighting (h : c.Attended my) (hw : c.sendAndWaitChan ≠ none) :
    c.fighting = true := by
  obtain ⟨t, ht⟩ := h.held
  obtain ⟨f, hf, hwaits⟩ := h.waits hw
  exact (ht.alone hf (ne_start_of_waits hwaits)).2.fighting

/-- While an invocation past the flag does not wait in `sendAndWait`, no one does. -/
theorem Attended.wait_none (h : c.Attended my) {f : Fight} (hf : f ∈ c.fights) (hne : f ≠ .start)
    (hwaits : f.waits = false) : c.sendAndWaitChan = none := by
  by_contra hw
  obtain ⟨t, ht⟩ := h.held
  obtain ⟨g, hg, hg'⟩ := h.waits hw
  rw [ht.eq_of_mem hf hne hg (ne_start_of_waits hg'), hwaits] at hg'
  cases hg'

/-- What a stretch of `fightElection` does with the channel. An invocation that does not pass the flag
leaves it alone. -/
theorem Acts.fight_cases {f : Fight} (h : Acts env c (.fight f) c' out) (hatt : c.Attended my) :
    (c'.sendAndWaitChan = c.sendAndWaitChan ∧ out = [] ∧ c'.fights = c.fights.erase .start) ∨
    c'.sendAndWaitChan = none ∨
    (Opens env c'.sendAndWaitChan out ∧ ∃ g ∈ c'.fights, g.waits = true ∧ g ∉ c.fights) := by
  obtain ⟨t, ht⟩ := hatt.held
  have hf := h.mem_fights
  cases h with
  | fight =>
    by_cases hstart : f = .start
    · subst hstart
      cases hpass : c.passesFlag (.act env (.fight .start)) with
      | false =>
        have hskip : (c.setFights (c.fights.erase .start)).startFight env = (_, []) :=
          startFight_skip hpass
        left
        show ((c.setFights (c.fights.erase .start)).startFight env).1.sendAndWaitChan = _ ∧
          ((c.setFights (c.fights.erase .start)).startFight env).2 = [] ∧
          ((c.setFights (c.fights.erase .start)).startFight env).1.fights = _
        rw [hskip]
        exact ⟨rfl, rfl, rfl⟩
      | true =>
        have hfree : c.fighting = false := by
          simp only [passesFlag, Bool.and_eq_true, Bool.not_eq_true'] at hpass
          exact hpass.2
        have hnone : c.sendAndWaitChan = none := by
          by_contra hw
          exact absurd (hatt.fighting hw) (by simp [hfree])
        have hasks : Asks env ((c.setFights (c.fights.erase .start)).startFight env) _ :=
          asks_startFight hatt.nodup hnone
        right
        rcases hasks with hw | ⟨hopens, g, -, hg, hmem⟩
        · exact Or.inl hw
        · refine Or.inr ⟨hopens, g, hmem, hg, fun hold => ?_⟩
          have hfight := (ht.alone hold (ne_start_of_waits hg)).2.fighting
          exact absurd hfight (by simp [setFights, hfree])
    · have hasks : Asks env ((c.setFights (c.fights.erase f)).fightElection env f) f.next :=
        asks_fightElection hatt.nodup hstart fun hw => hatt.wait_none hf hstart hw
      right
      rcases hasks with hw | ⟨hopens, g, hnext, hg, hmem⟩
      · exact Or.inl hw
      · refine Or.inr ⟨hopens, g, hmem, hg, fun hold => ?_⟩
        exact Fight.ne_of_mem_next hnext hg
          (ht.eq_of_mem hf hstart hold (ne_start_of_waits hg))

/-- An invocation that waits goes on waiting when the elections are left alone. -/
theorem SameElections.mem_fights (h : SameElections c c') {f : Fight} (hf : f.waits = true) :
    f ∈ c'.fights ↔ f ∈ c.fights := by
  have hinv : f ∈ c'.invocations ↔ f ∈ c.invocations := by rw [h.invocations]
  rw [mem_invocations, mem_invocations] at hinv
  simpa [ne_start_of_waits hf] using hinv

theorem Acts.attended (h : Acts env c a c' out) (hatt : c.Attended my) : c'.Attended my where
  my := h.ids.1.trans hatt.my
  nodup := by
    rw [h.ids.2]
    exact hatt.nodup
  held := by
    obtain ⟨t, ht⟩ := hatt.held
    have hheld := h.heldBy ht
    split_ifs at hheld
    · exact ⟨_, hheld⟩
    · exact ⟨t, hheld.1⟩
  waits := by
    intro hw
    by_cases ha : ∀ f, a ≠ .fight f
    · rw [h.wait_eq ha] at hw
      obtain ⟨f, hf, hwaits⟩ := hatt.waits hw
      exact ⟨f, ((h.sameElections ha).mem_fights hwaits).mpr hf, hwaits⟩
    · push Not at ha
      obtain ⟨f, rfl⟩ := ha
      rcases h.fight_cases hatt with ⟨hsame, -, hfights⟩ | hnone | ⟨-, g, hg, hwaits, -⟩
      · rw [hsame] at hw
        obtain ⟨g, hg, hwaits⟩ := hatt.waits hw
        rw [hfights]
        exact ⟨g, (List.mem_erase_of_ne (ne_start_of_waits hwaits)).mpr hg, hwaits⟩
      · exact absurd hnone hw
      · exact ⟨g, hg, hwaits⟩

/-- A member that waits after a step has called `sendAndWait` in this step, or was waiting before and
has sent nothing. -/
theorem Acts.call (h : Acts env c a c' out) (hatt : c.Attended my) {w : Wait}
    (hw : c'.sendAndWaitChan = some w) :
    (c.begins c' = true ∧ Opens env (some w) out) ∨
      (c.begins c' = false ∧ c.sendAndWaitChan = some w ∧ out = []) := by
  have hkeep : (∀ f ∈ c'.fights, f.waits = true → f ∈ c.fights) → c.begins c' = false := by
    intro hold
    unfold begins
    rw [List.any_eq_false]
    intro f hf hnew
    simp only [Bool.and_eq_true, Bool.not_eq_true', decide_eq_false_iff_not] at hnew
    exact hnew.2 (hold f hf hnew.1)
  by_cases ha : ∀ f, a ≠ .fight f
  · right
    have hw' : c.sendAndWaitChan = some w := (h.wait_eq ha).symm.trans hw
    have hfight : c.fighting = true := hatt.fighting (by simp [hw'])
    refine ⟨hkeep fun f hf hwaits => ((h.sameElections ha).mem_fights hwaits).mp hf, hw', ?_⟩
    cases h with
    | leads hready =>
      unfold isReady at hready
      split at hready <;> simp [hfight] at hready
    | fight => exact absurd rfl (ha _)
    | _ => rfl
  · push Not at ha
    obtain ⟨f, rfl⟩ := ha
    rcases h.fight_cases hatt with ⟨hsame, hout, hfights⟩ | hnone | ⟨hopens, g, hg, hwaits, hnew⟩
    · refine Or.inr ⟨hkeep fun g hg _ => ?_, hsame.symm.trans hw, hout⟩
      rw [hfights] at hg
      exact List.mem_of_mem_erase hg
    · rw [hnone] at hw
      cases hw
    · rw [hw] at hopens
      refine Or.inl ⟨?_, hopens⟩
      unfold begins
      rw [List.any_eq_true]
      exact ⟨g, hg, by simp [hwaits, hnew]⟩

theorem attended_receive (hatt : c.Attended my) (request : Bool) (flag : Flag) (m : NodeMsg) :
    (c.receive env request flag m).Attended my := by
  have hsame : SameElections c (c.receive env request flag m) :=
    .of_workings (workings_receive c env request flag m)
  have hids := ids_receive c env request flag m
  have hwait : (c.receive env request flag m).sendAndWaitChan ≠ none → c.sendAndWaitChan ≠ none := by
    intro hw hnone
    unfold receive at hw
    split_ifs at hw
    · rw [wait_acceptorReceived] at hw
      exact hw hnone
    · rcases (takes_nodeReceived c env flag m).1 with he | ⟨w, w', he, -⟩
      · exact hw (he.trans hnone)
      · rw [hnone] at he
        cases he
  refine ⟨hids.1.trans hatt.my, ?_, ?_, fun hw => ?_⟩
  · rw [hids.2]
    exact hatt.nodup
  · obtain ⟨t, ht⟩ := hatt.held
    exact ⟨t, hsame.heldBy ht⟩
  · obtain ⟨f, hf, hwaits⟩ := hatt.waits (hwait hw)
    exact ⟨f, (hsame.mem_fights hwaits).mpr hf, hwaits⟩

theorem loadAllNodes_nodup (c : Cluster) (nodes : List NodeConf) (hnd : c.nodesAll.Nodup) :
    (c.loadAllNodes nodes).nodesAll.Nodup ∧
      (c.loadAllNodes nodes).sendAndWaitChan = c.sendAndWaitChan := by
  induction nodes generalizing c with
  | nil => exact ⟨hnd, rfl⟩
  | cons n nodes ih =>
    refine ih (c.storeNode n.id { name := if n.name = "" then n.ip else n.name }) ?_
    show (if n.id ∈ c.nodesAll then c.nodesAll else c.nodesAll ++ [n.id]).Nodup
    split_ifs with hn
    · exact hnd
    · exact List.nodup_append.mpr ⟨hnd, List.nodup_singleton _, by
        rintro x hx y hy rfl
        exact hn (List.mem_singleton.mp hy ▸ hx)⟩

theorem nodup_create (conf : Conf) (my : String) (now : Int) :
    (create conf my now).nodesAll.Nodup ∧ (create conf my now).sendAndWaitChan = none :=
  loadAllNodes_nodup _ conf.nodes List.nodup_nil

theorem attended_create (conf : Conf) (my : String) (now : Int) : (create conf my now).Attended my := by
  have hfresh := fresh_create conf my now
  have hload := nodup_create conf my now
  refine ⟨hfresh.my, hload.1, ⟨0, ?_⟩, fun hw => absurd hload.2 hw⟩
  unfold HeldBy contests
  rw [hfresh.fights, hfresh.fighting]
  rfl

theorem attended_reachable {conf : Conf} (h : (member conf my).Reachable c) : c.Attended my := by
  refine Machine.ReachableWhen.invariant (Attended my) ?_ ?_ h
  · rintro c ⟨now, rfl⟩
    exact attended_create conf my now
  · intro c i c' _ hatt _ hs
    cases i with
    | act env a =>
      obtain ⟨⟨c₁, out⟩, hact, rfl⟩ := Option.map_eq_some_iff.mp hs
      exact (acts_of_act hact).attended hatt
    | receive env request flag m =>
      cases hs
      exact attended_receive hatt request flag m

end Cluster

end OwnX.Cluster
