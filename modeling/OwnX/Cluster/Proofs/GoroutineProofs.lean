import OwnX.Cluster.Goroutines
import OwnX.Cluster.Proofs.LeadershipProofs
import OwnX.Foundations.Proofs.PossibilityProofs

/-!
# Proofs: a member section by section

A goroutine that runs on alone does what the step of `member` does, so every state of `member` is one of
the member with its goroutines. The status is only written at one kind of point, and a goroutine comes
there past a test; that is what can open a closed member, and nothing else can.
-/

set_option linter.dupNamespace false

namespace OwnX.Cluster

open Cluster

variable {c c' : Cluster} {env : Env} {p : Point} {m : NodeMsg} {conf : Conf} {my : String}

/-! ## Goroutines that run on alone -/

theorem setBeating_closeConnector (c : Cluster) (id : String) (b : Bool) :
    (c.setBeating b).closeConnector id = (c.closeConnector id).setBeating b := by
  have hnodes : (c.setBeating b).nodes = c.nodes := rfl
  unfold closeConnector
  rw [hnodes]
  cases (c.nodes id).nodeConnector with
  | none => rfl
  | some k => rfl

theorem setBeating_heartbeatLeader (c : Cluster) (b : Bool) :
    ((c.setBeating b).heartbeatLeader env).1 = (c.heartbeatLeader env).1.setBeating b := by
  unfold heartbeatLeader
  exact List.foldl_hom (fun c : Cluster => c.setBeating b)
    fun c id => setBeating_closeConnector c id b

theorem setBeating_self (hb : c.beating = true) : c.setBeating true = c := by
  rw [← hb]
  rfl

theorem signTests_cases (c : Cluster) (id : String) (accepted refused : Rest) :
    c.signLeader id = (c, false) ∧ c.signTests id accepted refused = .rest refused ∨
    c.signLeader id = (c, true) ∧ c.signTests id accepted refused = .rest accepted ∨
    c.signLeader id = (c.setLeader id, true) ∧ c.signTests id accepted refused = .signed id accepted := by
  unfold signLeader signTests
  simp only
  split_ifs
  · exact Or.inl ⟨rfl, rfl⟩
  · cases c.nodeLeader with
    | none => exact Or.inr (Or.inr ⟨rfl, rfl⟩)
    | some l =>
      simp only
      split_ifs
      · exact Or.inl ⟨rfl, rfl⟩
      · exact Or.inr (Or.inl ⟨rfl, rfl⟩)
      · exact Or.inr (Or.inr ⟨rfl, rfl⟩)

/-- The goroutine at the point `p` leaves the member in the state `c'` if it runs on alone. -/
inductive Ends (env : Env) : Cluster → Point → Cluster → Prop where
  | done (c : Cluster) : Ends env c (.rest .done) c
  | next {c c' : Cluster} {p : Point} (h : Ends env (c.proceed env p).1 (c.proceed env p).2 c') :
      Ends env c p c'

namespace Ends

theorem move {q : Point} {c₁ : Cluster} (he : c.proceed env p = (c₁, q)) (h : Ends env c₁ q c') :
    Ends env c p c' := by
  refine .next ?_
  rw [he]
  exact h

theorem release {next : Rest} (h : Ends env (c.releaseLeader env.now) (.rest next) c') :
    Ends env c (.release next) c' := .next (.next h)

theorem sign {id : String} {accepted refused : Rest}
    (h : Ends env (c.signLeader id).1 (.rest (if (c.signLeader id).2 then accepted else refused)) c') :
    Ends env c (.sign id accepted refused) c' := by
  refine move rfl ?_
  rcases signTests_cases c id accepted refused with ⟨hs, he⟩ | ⟨hs, he⟩ | ⟨hs, he⟩
  · rw [hs] at h
    rw [he]
    exact h
  · rw [hs] at h
    rw [he]
    exact h
  · rw [hs] at h
    rw [he]
    exact .next (.next h)

theorem sign_same {id : String} {next : Rest} (h : Ends env (c.signLeader id).1 (.rest next) c') :
    Ends env c (.sign id next next) c' := by
  refine sign ?_
  rw [ite_self]
  exact h

/-- Where a test sends the goroutine to one of two points. -/
theorem ite {t : Prop} [Decidable t] {q : Point} {c₁ c₂ : Cluster} (hp : t → Ends env c p c₁)
    (hq : ¬ t → Ends env c q c₂) : Ends env c (if t then p else q) (if t then c₁ else c₂) := by
  split_ifs with ht
  · exact hp ht
  · exact hq ht

theorem finish (c : Cluster) (b : Bool) : Ends env c (.rest (.finish b)) (c.finishFight b) :=
  .next (.done _)

theorem deliver (c : Cluster) (m : NodeMsg) : Ends env c (.rest (.deliver m)) (c.deliver m) :=
  .next (.done _)

theorem startUp (c : Cluster) : Ends env c .startUp c.startUp := by
  unfold Cluster.startUp
  split
  case h_1 hm =>
    have he : c.proceed env .startUp = (c, .sign c.nodeMy .done .done) := by simp only [proceed, hm]
    exact move he (sign_same (.done _))
  case h_2 hm =>
    have he : c.proceed env .startUp = (c, .starting) := by simp only [proceed, hm]
    exact move he (move rfl (ite (fun _ => .done c) fun _ => .next (.next (.done _))))

theorem close (c : Cluster) : Ends env c .close c.close := by
  unfold Cluster.close
  by_cases ho : c.closeOnce = true
  · rw [if_pos ho]
    exact move (if_pos ho) (.done c)
  · rw [if_neg ho]
    exact move (if_neg ho) (.next (.next (.done _)))

theorem getVote (c : Cluster) (m : NodeMsg) : Ends env c (.getVote m) (c.onGetVote env m).1 := by
  refine move rfl ?_
  unfold onGetVote
  simp only
  split_ifs
  · exact release (.next (.done _))
  · exact .next (.done _)

theorem checkLeader (c : Cluster) (m : NodeMsg) :
    Ends env c (.checkLeader m)
      (if c.nodeLeader = some m.leaderId ∧ (c.nodes m.leaderId).term = m.term then c
        else if m.leaderId ∈ c.nodesAll then (c.signLeader m.leaderId).1 else c) :=
  move rfl (ite (fun _ => .done c) fun _ => ite (fun _ => sign_same (.done _)) fun _ => .done c)

theorem replaceLeader (h : Ends env (c.enterTerm env m) (.checkLeader m) c') :
    Ends env c (.replaceLeader m) c' := by
  refine move rfl ?_
  unfold enterTerm at h
  simp only at h
  split_ifs at h ⊢
  · exact release (.next h)
  · exact .next h

theorem broadcastLeader (c : Cluster) (m : NodeMsg) :
    Ends env c (.broadcastLeader m) (c.onBroadcastLeader env m).1 := by
  refine move rfl ?_
  unfold onBroadcastLeader
  by_cases ht : m.term < c.getMyTerm
  · rw [if_pos ht, if_pos ht]
    exact .done c
  · rw [if_neg ht, if_neg ht]
    have hcheck : Ends env (c.enterTerm env m) (.checkLeader m) _ := checkLeader (c.enterTerm env m) m
    refine replaceLeader ?_
    simp only
    split_ifs at hcheck ⊢ <;> exact hcheck

theorem reply (c : Cluster) (flag : Flag) (m : NodeMsg) :
    Ends env c (.reply flag m)
      (match flag with
        | .rAskLeader => c.onAskLeaderReply m
        | .rGetVote => c.onGetVoteReply m
        | .rLeader => c.onLeaderReply env m
        | _ => c) := by
  cases flag with
  | rAskLeader =>
    refine move rfl (ite (fun _ => .done c) fun _ => ?_)
    simp only
    split_ifs
    · exact sign_same (deliver _ m)
    · exact deliver c m
  | rGetVote => exact move rfl (deliver _ m)
  | rLeader =>
    refine move rfl ?_
    unfold onLeaderReply
    simp only
    split_ifs
    · exact release (deliver _ m)
    · exact deliver c m
  | _ => exact move rfl (.done c)

theorem answer (c : Cluster) (flag : Flag) (m : NodeMsg) :
    Ends env c (.answer flag m) (c.nodeReceived env flag m) := by
  refine move rfl (ite (fun _ => release (.done _)) fun _ => move rfl ?_)
  exact reply (c.recordMsg env m) flag m

theorem sessionClosed (c : Cluster) (id : String) :
    Ends env c (.sessionClosed id) (c.onSessionClosed env id) := by
  refine move rfl (move rfl ?_)
  unfold onSessionClosed
  simp only
  generalize (c.setNode id _).setAlive _ = c₁
  have hnext : Ends env c₁ (.release .nextTerm) (c₁.toNextTerm env.now) := release (.next (.done _))
  refine ite (fun _ => ?_) fun _ => ite (fun _ => .done c₁) fun _ => ?_
  · exact move rfl (ite (fun _ => .done c₁) fun _ => hnext)
  · refine move rfl ?_
    by_cases hc : c₁.status = .closed
    · rw [if_pos (Or.inl hc), if_pos hc]
      exact .done c₁
    · rw [if_neg hc]
      simp only [hc, false_or]
      exact ite (fun _ => .done c₁) fun _ => hnext

theorem beatEnd (hb : c.setBeating true = c) (hmy : c.nodeMy = my) :
    Ends env (c.setBeating false) .beatEnd (c.setNode my c.getMyNode.prune) := by
  refine move rfl ?_
  show Ends env ((c.setBeating true).setNode c.nodeMy c.getMyNode.prune) _ _
  rw [hb, hmy]
  exact .done _

theorem beatFollower (hb : c.setBeating true = c) :
    Ends env (c.setBeating false) .beatFollower
      ((c.heartbeatFollower env).setNode c.nodeMy (c.heartbeatFollower env).getMyNode.prune) := by
  have hkeep : Ends env (c.setBeating false) .beatEnd (c.setNode c.nodeMy c.getMyNode.prune) :=
    beatEnd hb rfl
  have hnext : Ends env (c.setBeating false) (.release .nextTermBeat)
      ((c.toNextTerm env.now).setNode c.nodeMy (c.toNextTerm env.now).getMyNode.prune) := by
    have hb' : (c.toNextTerm env.now).setBeating true = c.toNextTerm env.now :=
      congrArg (fun c : Cluster => c.toNextTerm env.now) hb
    exact release (.next (beatEnd hb' rfl))
  refine .next ?_
  show Ends env ((c.setBeating false).proceedFollower env).1 ((c.setBeating false).proceedFollower env).2 _
  unfold heartbeatFollower proceedFollower
  simp only [setBeating_nodeLeader, setBeating_nodes, setBeating_nodeTimeout,
    setBeating_lostLeaderTime]
  cases c.nodeLeader with
  | none =>
    simp only
    split_ifs
    · exact hnext
    · exact hkeep
  | some l =>
    simp only
    split_ifs
    · have hmy : (c.closeConnector l).nodeMy = c.nodeMy := nodeMy_of_registry (registry_closeConnector l)
      rw [setBeating_closeConnector]
      refine beatEnd ?_ hmy
      rw [← setBeating_closeConnector, hb]
    · exact hnext
    · exact hkeep

/-- A turn of `heartbeat`, with its goroutine out of its waiting. -/
theorem beat (hb : c.beating = true) {r : Cluster × Out} (h : c.heartbeat env = some r) :
    Ends env (c.setBeating false) .beat r.1 := by
  have hself := setBeating_self hb
  unfold Cluster.heartbeat at h
  rw [if_pos hb] at h
  split_ifs at h with hready hleader hclose
  · cases h
    refine move (if_pos hready) (move (if_pos hleader) ?_)
    rw [setBeating_heartbeatLeader]
    refine beatEnd ?_ ?_
    · rw [← setBeating_heartbeatLeader, hself]
    · have hreg : (c.heartbeatLeader env).1.registry = c.registry := registry_heartbeatLeader
      exact nodeMy_of_registry hreg
  · cases h
    exact move (if_pos hready) (move (if_neg hleader) (beatFollower hself))
  · cases h
    refine move ((if_neg hready).trans (if_pos hclose)) (.done _)
  · cases h
    refine move ((if_neg hready).trans (if_neg hclose)) ?_
    show Ends env (c.setBeating true) _ c
    rw [hself]
    exact .done c

theorem stand (c : Cluster) (t : Int) (hl : ¬ c.nodeLeader.isSome) :
    Ends env c (.stand t) (c.becomeCandidate env t).1 := by
  refine move rfl ?_
  unfold becomeCandidate
  rw [if_neg hl]
  by_cases hst : c.status = .closed ∨ c.status = .leader
  · rw [if_pos hst, if_pos hst]
    exact finish c false
  · rw [if_neg hst, if_neg hst]
    simp only
    split_ifs
    · exact .next (.next (.done _))
    · exact .next (.done _)

theorem fight (c : Cluster) (f : Fight) : Ends env c (.fight f) (c.fightElection env f).1 := by
  cases f with
  | settle t =>
    refine move rfl ?_
    by_cases hl : c.nodeLeader.isSome
    · have he : c.becomeCandidate env t = (c.finishFight false, []) := if_pos hl
      rw [if_pos hl, fightElection, he]
      exact finish c false
    · rw [if_neg hl]
      exact stand c t hl
  | confirm t =>
    refine move rfl ?_
    show Ends env c.returnWait.1 _ c.confirmLeader
    unfold confirmLeader
    refine ite (fun _ => sign ?_) fun _ => finish _ true
    simp only
    cases (c.returnWait.1.signLeader c.nodeMy).2 with
    | true => exact finish _ false
    | false => exact finish _ true
  | _ => exact move rfl (.done _)

end Ends

/-- What a step does as a whole, its goroutine does alone. -/
theorem ends_of_step {i : Input} (h : c.step i = some c') :
    ∃ env c₁ p, c.begin i = some (c₁, p) ∧ Ends env c₁ p c' := by
  cases i with
  | act env a =>
    obtain ⟨r, hr, rfl⟩ := Option.map_eq_some_iff.mp h
    cases a with
    | startUp =>
      cases hr
      exact ⟨env, c, .startUp, rfl, .startUp c⟩
    | close =>
      cases hr
      exact ⟨env, c, .close, rfl, .close c⟩
    | callback id =>
      obtain ⟨c₂, hc, rfl⟩ := Option.map_eq_some_iff.mp hr
      unfold runCallback at hc
      split_ifs at hc with hid
      cases hc
      exact ⟨env, _, .sessionClosed id, if_pos hid, .sessionClosed _ id⟩
    | heartbeat =>
      have hb : c.beating = true := by
        by_contra hb
        cases (if_neg hb).symm.trans hr
      exact ⟨env, _, .beat, if_pos hb, .beat hb hr⟩
    | fight f =>
      have hf : f ∈ c.fights := by
        by_contra hf
        cases (if_neg hf).symm.trans hr
      cases (if_pos hf).symm.trans hr
      exact ⟨env, _, .fight f, if_pos hf, .fight _ f⟩
    | _ =>
      refine ⟨env, r.1, .rest .done, ?_, .done _⟩
      exact congrArg (Option.map fun r => (r.1, Point.rest .done)) hr
  | receive env request flag m =>
    cases h
    cases request with
    | true =>
      cases flag with
      | sGetVote => exact ⟨env, c, .getVote m, rfl, .getVote c m⟩
      | sBroadcastLeader => exact ⟨env, c, .broadcastLeader m, rfl, .broadcastLeader c m⟩
      | _ => exact ⟨env, c, .rest .done, rfl, .done c⟩
    | false => exact ⟨env, c, .answer flag m, rfl, .answer c flag m⟩

/-- The only goroutine of a member may always run. -/
theorem step_alone (c : Cluster) (env : Env) (h : p ≠ .rest .done) :
    Busy.step ⟨c, [p]⟩ (.proceed env 0) = some ⟨(c.proceed env p).1, [(c.proceed env p).2]⟩ := by
  have hready : Busy.ready ⟨c, [p]⟩ p = true := by cases p <;> rfl
  simp [Busy.step, hready, h]

theorem Ends.run (h : Ends env c p c') :
    ((goroutines conf my).startIn ⟨c, [p]⟩).Reachable ⟨c', []⟩ := by
  induction h with
  | done c => exact .step (e := .proceed env 0) (.init rfl) trivial rfl
  | @next c c' p _ ih =>
    by_cases hp : p = .rest .done
    · subst hp
      exact ih
    · have hone : ((goroutines conf my).startIn ⟨c, [p]⟩).Reachable
          ⟨(c.proceed env p).1, [(c.proceed env p).2]⟩ :=
        .step (e := .proceed env 0) (.init rfl) trivial (step_alone c env hp)
      exact hone.append ih

/-- A step of `member` is a run of the member with its goroutines. -/
theorem run_of_step {i : Input} (h : c.step i = some c') :
    ((goroutines conf my).startIn ⟨c, []⟩).Reachable ⟨c', []⟩ := by
  obtain ⟨env, c₁, p, hbegin, hends⟩ := ends_of_step h
  have hone : ((goroutines conf my).startIn ⟨c, []⟩).Reachable ⟨c₁, [p]⟩ := by
    refine .step (e := .begin i) (.init rfl) trivial ?_
    show (c.begin i).map _ = _
    rw [hbegin]
    rfl
  exact hone.append hends.run

/-- Every state of a member whose steps run as a whole is one of the member with its goroutines. -/
theorem goroutines_of_member (h : (member conf my).Reachable c) :
    (goroutines conf my).Reachable ⟨c, []⟩ := by
  induction h with
  | init hinit => exact .init ⟨hinit, rfl⟩
  | step _ _ hs ih => exact Machine.reachable_startIn ih (run_of_step hs)

/-! ## The writes to the status -/

theorem status_fightElection {f : Fight} (hs : ∀ t, f ≠ .settle t) (hc : ∀ t, f ≠ .confirm t) :
    (c.fightElection env f).1.status = c.status := by
  cases f with
  | start =>
    show (c.startFight env).1.status = c.status
    unfold startFight
    simp only
    split_ifs
    · rfl
    · rfl
    · rfl
    · exact congrArg Standing.status (standing_waitOnline _)
    · exact congrArg Standing.status (standing_finishFight (c := c.setFighting true) true)
  | online t => exact congrArg Standing.status (standing_waitOnline t)
  | askLeader t => rfl
  | settle t => exact absurd rfl (hs t)
  | vote t => exact congrArg Standing.status (standing_voteLoop t)
  | getVote t => exact congrArg Standing.status (standing_countVotes t)
  | confirm t => exact absurd rfl (hc t)

theorem status_proceedRest (c : Cluster) (env : Env) (next : Rest) :
    (c.proceedRest env next).1.status = c.status := by
  cases next with
  | record m => exact congrArg Standing.status (standing_recordMsg c env m)
  | deliver m => exact congrArg Standing.status (standing_deliver m)
  | finish b => exact congrArg Standing.status (standing_finishFight b)
  | campaign t => exact congrArg Standing.status (standing_voteLoop t)
  | closeAll =>
    refine List.foldlRecOn (motive := fun c' => status c' = c.status) _ _ rfl ?_
    intro c' hc id _
    exact (congrArg Standing.status (standing_dropConnector id)).trans hc
  | _ => rfl

/-- The sections that are no write leave the status alone. -/
theorem status_proceed (c : Cluster) (env : Env) (p : Point) :
    (c.proceed env p).1.status =
      match p with
      | .write status _ _ => status
      | _ => c.status := by
  cases p with
  | rest next => exact status_proceedRest c env next
  | close =>
    show (ite _ _ _ : Cluster × Point).1.status = c.status
    split_ifs <;> rfl
  | recordAnswer flag m => exact congrArg Standing.status (standing_recordMsg c env m)
  | reply flag m =>
    cases flag with
    | rGetVote =>
      show (ite _ _ _ : Cluster).status = c.status
      split_ifs <;> rfl
    | _ => rfl
  | beat =>
    show (ite _ _ (ite _ _ _) : Cluster × Point).1.status = c.status
    split_ifs <;> rfl
  | beatReady =>
    show (ite _ _ _ : Cluster × Point).1.status = c.status
    split_ifs
    · exact congrArg Standing.status standing_heartbeatLeader
    · rfl
  | beatFollower =>
    show (c.proceedFollower env).1.status = c.status
    unfold proceedFollower
    split
    · split_ifs
      · exact congrArg Standing.status (standing_closeConnector _)
      · rfl
      · rfl
    · rfl
  | fight f =>
    cases f with
    | settle t => rfl
    | confirm t => rfl
    | _ => exact status_fightElection (by simp) (by simp)
  | _ => rfl

theorem armed_ite {t : Prop} [Decidable t] {p q : Point} (hp : p.armed = true) (hq : q.armed = false) :
    (if t then p else q).armed = false ↔ ¬ t := by
  split_ifs with ht
  · simp [hp, ht]
  · simp [hq, ht]

theorem armed_signTests_iff (c : Cluster) (id : String) (accepted refused : Rest) :
    (c.signTests id accepted refused).armed = false ↔
      (c.nodes id).term < c.getMyTerm ∨
        ∃ l ∈ c.nodeLeader, l = id ∨ (c.nodes id).term < (c.nodes l).term := by
  unfold signTests
  simp only
  split_ifs with hmy
  · exact ⟨fun _ => Or.inl hmy, fun _ => rfl⟩
  · simp only [hmy, false_or]
    cases c.nodeLeader with
    | none => simp [Point.armed]
    | some l =>
      simp only [Option.mem_some_iff, exists_eq_left']
      split_ifs with hlt he
      · exact ⟨fun _ => Or.inr hlt, fun _ => rfl⟩
      · exact ⟨fun _ => Or.inl he, fun _ => rfl⟩
      · simp [Point.armed, hlt, he]

theorem armed_proceedFollower_iff (c : Cluster) (env : Env) :
    (c.proceedFollower env).2.armed = false ↔ c.StaysShut env .beatFollower := by
  unfold proceedFollower StaysShut
  cases c.nodeLeader with
  | none =>
    simp only [armed_ite (p := .release .nextTermBeat) (q := .beatEnd) rfl rfl, Option.not_mem_none,
      false_implies, implies_true, true_and, forall_true_left, not_lt]
  | some l =>
    simp only [Option.mem_some_iff, forall_eq', reduceCtorEq, false_implies, and_true]
    split_ifs with ht hs
    · simp [Point.armed, hs]
    · simp [Point.armed, ht, hs]
    · simp [Point.armed, ht]

theorem unarmed_ite {t : Prop} [Decidable t] {p q : Point} (hp : p.armed = false)
    (hq : q.armed = false) : (if t then p else q).armed = false := by
  split_ifs
  · exact hp
  · exact hq

theorem armed_proceedReply_iff (c : Cluster) (env : Env) (flag : Flag) (m : NodeMsg) :
    (c.proceedReply m flag).2.armed = false ↔ c.StaysShut env (.reply flag m) := by
  cases flag with
  | rLeader =>
    refine (armed_ite rfl rfl).trans ?_
    rw [not_and]
    exact Iff.rfl
  | rAskLeader => exact ⟨fun _ => trivial, fun _ => unarmed_ite rfl (unarmed_ite rfl rfl)⟩
  | _ => exact ⟨fun _ => trivial, fun _ => rfl⟩

theorem unarmed_proceedFight (c : Cluster) (env : Env) (f : Fight) :
    (c.proceedFight env f).2.armed = false := by
  cases f with
  | settle t => exact unarmed_ite rfl rfl
  | confirm t => exact unarmed_ite rfl rfl
  | _ => rfl

/-- A goroutine of a closed member comes past its last test before a write to the status exactly if the
condition fails. -/
theorem armed_proceed_iff (hc : c.status = .closed) (hp : p.armed = false) :
    (c.proceed env p).2.armed = false ↔ c.StaysShut env p := by
  have hfree : ∀ {q : Point}, q.armed = false → (q.armed = false ↔ True) := fun h => by simp [h]
  cases p with
  | release next => cases hp
  | signed id next => cases hp
  | rest next => cases next <;> exact hfree rfl
  | sign id accepted refused => exact armed_signTests_iff c id accepted refused
  | replaceLeader m =>
    refine (armed_ite rfl rfl).trans ?_
    show _ ↔ (c.getMyTerm < m.term → c.nodeLeader = none ∨ c.nodeLeader = some m.leaderId)
    cases c.nodeLeader with
    | none => simp
    | some l => simp
  | answer flag m =>
    refine (armed_ite rfl rfl).trans ?_
    show _ ↔ (c.getMyTerm < m.term → c.nodeLeader = none)
    cases c.nodeLeader with
    | none => simp
    | some l => simp
  | reply flag m => exact armed_proceedReply_iff c env flag m
  | beatFollower => exact armed_proceedFollower_iff c env
  | startUp =>
    refine hfree ?_
    unfold proceed
    cases c.model <;> rfl
  | starting =>
    have he : (c.proceed env .starting).2 = .rest .done := if_pos (by simp [hc])
    exact hfree (he ▸ rfl)
  | close =>
    refine hfree ?_
    show (ite _ _ _ : Cluster × Point).2.armed = false
    split_ifs <;> rfl
  | getVote m => exact hfree ((armed_ite rfl rfl).mpr (by simp [isLeader, hc]))
  | checkLeader m => exact hfree (unarmed_ite rfl (unarmed_ite rfl rfl))
  | broadcastLeader m => exact hfree (unarmed_ite rfl rfl)
  | offline id => exact hfree (unarmed_ite rfl (unarmed_ite rfl rfl))
  | leaderLost =>
    have he : (c.proceed env .leaderLost).2 = .rest .done := if_pos hc
    exact hfree (he ▸ rfl)
  | minority =>
    have he : (c.proceed env .minority).2 = .rest .done := if_pos (Or.inl hc)
    exact hfree (he ▸ rfl)
  | beat =>
    refine hfree ?_
    show (ite _ _ (ite _ _ _) : Cluster × Point).2.armed = false
    split_ifs <;> rfl
  | beatReady =>
    refine hfree ?_
    show (ite _ _ _ : Cluster × Point).2.armed = false
    split_ifs <;> rfl
  | fight f => exact hfree (unarmed_proceedFight c env f)
  | stand t =>
    have he : (c.proceed env (.stand t)).2 = .rest (.finish false) := if_pos (Or.inl hc)
    exact hfree (he ▸ rfl)
  | _ => exact hfree rfl

/-! ## Closed members -/

/-- A goroutine that begins leaves the status alone, and has its tests before it. -/
theorem begin_frame {i : Input} (h : c.begin i = some (c', p)) :
    c'.status = c.status ∧ p.armed = false := by
  have hlink : ∀ {env : Env} {a : Action}, (c.act env a).map (fun r => (r.1, Point.rest .done)) =
      some (c', p) → ∃ out, Acts env c a c' out ∧ p = .rest .done := by
    intro env a h
    obtain ⟨r, hr, he⟩ := Option.map_eq_some_iff.mp h
    obtain ⟨rfl, rfl⟩ := Prod.mk.inj he
    exact ⟨r.2, acts_of_act hr, rfl⟩
  cases i with
  | act env a =>
    cases a with
    | startUp =>
      cases h
      exact ⟨rfl, rfl⟩
    | close =>
      cases h
      exact ⟨rfl, rfl⟩
    | callback id =>
      obtain ⟨-, he⟩ := Option.ite_none_right_eq_some.mp h
      cases he
      exact ⟨rfl, rfl⟩
    | heartbeat =>
      obtain ⟨-, he⟩ := Option.ite_none_right_eq_some.mp h
      cases he
      exact ⟨rfl, rfl⟩
    | fight f =>
      obtain ⟨-, he⟩ := Option.ite_none_right_eq_some.mp h
      cases he
      exact ⟨rfl, rfl⟩
    | connect id =>
      obtain ⟨out, hacts, rfl⟩ := hlink h
      cases hacts with
      | connect hc =>
        obtain ⟨-, he⟩ := Option.ite_none_right_eq_some.mp hc
        cases he
        exact ⟨rfl, rfl⟩
    | assignConnector =>
      obtain ⟨out, hacts, rfl⟩ := hlink h
      cases hacts with
      | assignConnector hc =>
        obtain ⟨r, -, rfl⟩ := Option.map_eq_some_iff.mp hc
        exact ⟨rfl, rfl⟩
    | readFail k =>
      obtain ⟨out, hacts, rfl⟩ := hlink h
      cases hacts
      exact ⟨rfl, rfl⟩
    | readStop k =>
      obtain ⟨out, hacts, rfl⟩ := hlink h
      cases hacts
      exact ⟨rfl, rfl⟩
  | receive env request flag m =>
    cases request <;> cases flag <;> cases h <;> exact ⟨rfl, rfl⟩

theorem Busy.step_cases {s s' : Busy} {e : Sched} (h : s.step e = some s') :
    (∃ i c' p, e = .begin i ∧ s.cluster.begin i = some (c', p) ∧ s' = ⟨c', s.running ++ [p]⟩) ∨
    ∃ env k p, e = .proceed env k ∧ s.running[k]? = some p ∧
      s'.cluster = (s.cluster.proceed env p).1 ∧
      ∀ q ∈ s'.running, q ∈ s.running ∨ q = (s.cluster.proceed env p).2 := by
  cases e with
  | begin i =>
    obtain ⟨⟨c', p⟩, hb, rfl⟩ := Option.map_eq_some_iff.mp h
    exact Or.inl ⟨i, c', p, rfl, hb, rfl⟩
  | proceed env k =>
    unfold Busy.step at h
    cases hk : s.running[k]? with
    | none =>
      simp only [hk] at h
      cases h
    | some p =>
      simp only [hk] at h
      obtain ⟨-, he⟩ := Option.ite_none_right_eq_some.mp h
      cases he
      refine Or.inr ⟨env, k, p, rfl, hk, rfl, fun q hq => ?_⟩
      simp only at hq
      split_ifs at hq
      · exact Or.inl (List.mem_of_mem_eraseIdx hq)
      · exact (List.mem_or_eq_of_mem_set hq)

/-- When the member is closed, no goroutine is past its last test before a write to the status. -/
def Busy.Shut (s : Busy) : Prop := s.cluster.status = .closed → ∀ q ∈ s.running, q.armed = false

/-- A section of a closed member without a goroutine that is past its tests leaves it closed. -/
theorem status_proceed_closed (hc : c.status = .closed) (hp : p.armed = false) :
    (c.proceed env p).1.status = .closed := by
  rw [status_proceed]
  cases p with
  | write status locked next => simpa [Point.armed] using hp
  | _ => exact hc

theorem Busy.Shut.step {s s' : Busy} {e : Sched} (h : s.Shut) (hok : s.KeepsClosed e)
    (hs : s.step e = some s') : s'.Shut ∧ (s.cluster.status = .closed → s'.cluster.status = .closed) := by
  rcases Busy.step_cases hs with ⟨i, c', p, rfl, hb, rfl⟩ | ⟨env, k, p, rfl, hk, hc', hrun⟩
  · obtain ⟨hst, hp⟩ := begin_frame hb
    refine ⟨fun hc q hq => ?_, fun hc => hst.trans hc⟩
    rcases List.mem_append.mp hq with hq | hq
    · exact h (hst.symm.trans hc) q hq
    · rw [List.mem_singleton.mp hq]
      exact hp
  · obtain ⟨hclose, hshut⟩ := hok p hk
    have hmem : p ∈ s.running := List.mem_of_getElem? hk
    refine ⟨fun hc q hq => ?_, fun hc => ?_⟩
    · by_cases hc₀ : s.cluster.status = .closed
      · rcases hrun q hq with hq | rfl
        · exact h hc₀ q hq
        · exact (armed_proceed_iff hc₀ (h hc₀ p hmem)).mpr (hshut hc₀)
      · -- the member is closed in this step, by the write of `Close`
        rw [hc', status_proceed] at hc
        cases p with
        | write status locked next =>
          subst hc
          rcases hrun q hq with hq | rfl
          · exact hclose rfl q hq
          · rfl
        | _ => exact absurd hc hc₀
    · rw [hc']
      exact status_proceed_closed hc (h hc p hmem)

theorem shut_reachable {s : Busy} (h : (goroutines conf my).ReachableWhen Busy.KeepsClosed s) : s.Shut := by
  refine h.invariant Busy.Shut ?_ ?_
  · rintro s ⟨-, hrun⟩ - q hq
    rw [hrun] at hq
    cases hq
  · intro s e s' _ hshut hok hs
    exact (hshut.step hok hs).1

theorem step_armed {s : Busy} {k : Nat} (env : Env) (hk : s.running[k]? = some p) (ha : p.armed = true) :
    s.step (.proceed env k) =
      some ⟨(s.cluster.proceed env p).1, s.running.set k (s.cluster.proceed env p).2⟩ := by
  cases p with
  | write | release | signed => simp [Busy.step, hk, Busy.ready, Point.waitsMu]
  | _ => cases ha

theorem canOpen_of_write {s : Busy} {k : Nat} {status : Stat} {locked : Bool} {next : Rest} (env : Env)
    (hk : s.running[k]? = some (.write status locked next)) (hst : status ≠ .closed) :
    (goroutines conf my).CanReach (fun _ _ => True) s fun s' => s'.cluster.status ≠ .closed := by
  have ha : (Point.write status locked next).armed = true := by simpa [Point.armed] using hst
  exact .next (e := .proceed env k) trivial (step_armed env hk ha) (.here hst)

/-- A goroutine that is past its last test can always go on to its write. With `armed_proceed_iff`: a step
that does not meet the condition leaves a closed member in a state from which it opens again. -/
theorem canOpen_of_armed {s : Busy} {k : Nat} (env : Env) (hk : s.running[k]? = some p)
    (ha : p.armed = true) :
    (goroutines conf my).CanReach (fun _ _ => True) s fun s' => s'.cluster.status ≠ .closed := by
  have hlen : k < s.running.length := (List.getElem?_eq_some_iff.mp hk).1
  cases p with
  | write status locked next => exact canOpen_of_write env hk (by simpa [Point.armed] using ha)
  | release next =>
    refine .next (e := .proceed env k) trivial (step_armed env hk rfl) ?_
    exact canOpen_of_write env (List.getElem?_set_self hlen) (by simp)
  | signed id accepted =>
    refine .next (e := .proceed env k) trivial (step_armed env hk rfl) ?_
    refine canOpen_of_write env (List.getElem?_set_self hlen) ?_
    split_ifs <;> simp
  | _ => cases ha

/-! ### Runs -/

/-- The goroutine at the place `k` runs its next section. -/
def goesOn (k : Nat) : Sched := .proceed ⟨0, "", fun _ => true⟩ k

/-- A goroutine begins and runs `n` sections, without another one. -/
def wholly (i : Input) (n : Nat) : List Sched := .begin i :: List.replicate n (goesOn 0)

/-- A member that is connected to `b:1` fights an election. While it handles a request for its vote, it is
closed. -/
def closedRun : List Sched :=
  wholly (does 0 .startUp) 5 ++ wholly (does 0 (.connect "b:1")) 1 ++
    wholly (does 0 .assignConnector) 1 ++ wholly (does 0 (.fight .start)) 2 ++
    [.begin (asked .sGetVote oldRequest), .begin (does 0 .close), goesOn 1, goesOn 1]

/-- `Close` and the handler go on by turns. The callback of the closed connection, the heartbeat and the
election end. -/
def drainedRun : List Sched :=
  [goesOn 0, goesOn 1, goesOn 0, goesOn 1, goesOn 0] ++ wholly (does 0 (.callback "b:1")) 4 ++
    wholly (does 0 .heartbeat) 2 ++ wholly (does 0 (.fight (.askLeader 1))) 2 ++
    wholly (does 0 (.fight (.settle 1))) 4

end OwnX.Cluster
