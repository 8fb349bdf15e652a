import OwnX.Cluster.Proofs.ChannelProofs
import OwnX.Cluster.Proofs.VoteProofs

/-!
# Proofs: the answers to a call of `sendAndWait`

Each node that is asked has its request in flight, its answer in flight, or its answer in the list, and
no two of these. A call that begins when nothing of an earlier one is in flight therefore returns at
most one message of each node, and its own answers only.
-/

set_option linter.dupNamespace false

namespace OwnX.Cluster

/-! ## The messages of a call -/

/-- The messages in flight between `id` and the node `n` that belong to a call of `id`. -/
def pending (packets : Multiset Packet) (id n : String) : Nat :=
  packets.countP fun p => p.party id = some n

/-- The messages in flight and the messages received belong to the call, and there is one of each node
at most. -/
structure Call.Traced (call : Call) (id : String) (packets : Multiset Packet)
    (nodeMsgList : List NodeMsg) : Prop where
  flight : ∀ p ∈ packets, ∀ n, p.party id = some n →
    p.msg.reqId = call.reqId ∧ n ∈ call.sent ∧ (p.request = false → p.msg.nodeId = n)
  own : ∀ m ∈ nodeMsgList, m.reqId = call.reqId ∧ m.nodeId ∈ call.sent
  once : ∀ n, pending packets id n + (nodeMsgList.map NodeMsg.nodeId).count n ≤ 1

theorem Call.Traced.answered {call : Call} {id : String} {packets : Multiset Packet}
    {l : List NodeMsg} (h : call.Traced id packets l) : call.Answered l where
  own := h.own
  once := List.nodup_iff_count_le_one.mpr fun n => Nat.le_trans (Nat.le_add_left _ _) (h.once n)

variable {call : Call} {id : String} {packets : Multiset Packet} {l : List NodeMsg} {p : Packet}

theorem pending_cons (p : Packet) (packets : Multiset Packet) (id n : String) :
    pending (p ::ₘ packets) id n = pending packets id n + if p.party id = some n then 1 else 0 := by
  unfold pending
  rw [Multiset.countP_cons]

theorem pending_add (packets : Multiset Packet) (ps : List Packet) (id n : String) :
    pending (packets + ps) id n = pending packets id n + ps.countP fun p => p.party id = some n := by
  unfold pending
  rw [Multiset.countP_add, Multiset.coe_countP]

/-- Messages that belong to no call of `id` are sent. -/
theorem Call.Traced.send (h : call.Traced id packets l) {ps : List Packet}
    (hps : ∀ p ∈ ps, p.party id = none) : call.Traced id (packets + ps) l where
  flight := by
    intro p hp n hn
    rcases Multiset.mem_add.mp hp with hp | hp
    · exact h.flight p hp n hn
    · rw [hps p hp] at hn
      cases hn
  own := h.own
  once := by
    intro n
    have hzero : ps.countP (fun p => p.party id = some n) = 0 := by
      rw [List.countP_eq_zero]
      intro p hp
      simp [hps p hp]
    rw [pending_add, hzero]
    exact h.once n

/-- A message is taken out. -/
theorem Call.Traced.drop (h : call.Traced id (p ::ₘ packets) l) : call.Traced id packets l where
  flight := fun q hq => h.flight q (Multiset.mem_cons_of_mem hq)
  own := h.own
  once := by
    intro n
    have honce := h.once n
    rw [pending_cons] at honce
    omega

/-- The loop of `sendAndWait` takes an answer. -/
theorem Call.Traced.take (h : call.Traced id (p ::ₘ packets) l) (hreq : p.request = false)
    {n : String} (hn : p.party id = some n) : call.Traced id packets (l ++ [p.msg]) := by
  obtain ⟨hid, hsent, hnode⟩ := h.flight p (Multiset.mem_cons_self p packets) n hn
  refine ⟨h.drop.flight, ?_, ?_⟩
  · intro m hm
    rcases List.mem_append.mp hm with hm | hm
    · exact h.own m hm
    · rw [List.mem_singleton.mp hm, hnode hreq]
      exact ⟨hid, hsent⟩
  · intro u
    have honce := h.once u
    rw [pending_cons, hn] at honce
    rw [List.map_append, List.count_append, List.map_singleton, List.count_singleton, hnode hreq]
    simp only [Option.some.injEq, beq_iff_eq] at honce ⊢
    omega

theorem party_answer (hreq : p.request = true) {r : Flag × NodeMsg} {q : Packet}
    (hq : q = { src := p.dst, dst := p.src, request := false, flag := r.1, msg := r.2 }) :
    q.party id = if r.1 ≠ .ok then p.party id else none := by
  subst hq
  unfold Packet.party
  rw [if_pos hreq]
  by_cases hok : r.1 = .ok
  · simp [hok]
  · simp [hok]

/-- A request is answered: its answer takes its place. -/
theorem Call.Traced.answer {c : Cluster} {replies : List (Flag × NodeMsg)}
    (h : call.Traced id (p ::ₘ packets) l) (hreq : p.request = true) (hmy : c.nodeMy = p.dst)
    (hr : c.Replies p.msg replies) :
    call.Traced id (packets + (Network.answers p replies : List Packet)) l where
  flight := by
    intro q hq n hn
    rcases Multiset.mem_add.mp hq with hq | hq
    · exact h.drop.flight q hq n hn
    · obtain ⟨r, hmem, he⟩ := List.mem_map.mp hq
      rw [party_answer hreq he.symm] at hn
      split_ifs at hn with hok
      obtain ⟨hid, hsent, -⟩ := h.flight p (Multiset.mem_cons_self p packets) n hn
      obtain ⟨hown, hnode⟩ := hr.own r hmem hok
      have hdst : p.dst = n := by
        unfold Packet.party at hn
        rw [if_pos hreq] at hn
        split_ifs at hn
        exact Option.some.inj hn
      rw [← he]
      exact ⟨hown.trans hid, hsent, fun _ => hnode.trans (hmy.trans hdst)⟩
  own := h.own
  once := by
    intro n
    have honce := h.once n
    have hcount : (Network.answers p replies).countP (fun q => q.party id = some n) ≤
        if p.party id = some n then 1 else 0 := by
      unfold Network.answers
      rw [List.countP_map]
      by_cases hn : p.party id = some n
      · rw [if_pos hn]
        refine Nat.le_trans (List.countP_mono_left ?_) hr.once
        intro r _ hparty
        have hparty := of_decide_eq_true hparty
        rw [party_answer hreq rfl] at hparty
        split_ifs at hparty with hok
        exact decide_eq_true hok
      · rw [if_neg hn, Nat.le_zero, List.countP_eq_zero]
        intro r _ hparty
        have hparty := of_decide_eq_true hparty
        rw [party_answer hreq rfl] at hparty
        split_ifs at hparty
        exact hn hparty
    rw [pending_cons] at honce
    rw [pending_add]
    omega

theorem party_request (id : String) {v : String} {out : Out} (hp : p ∈ Network.requests v out) :
    p.request = true ∧ ∃ m ∈ out, p.dst = m.1 ∧ p.msg = m.2.2 ∧
      p.party id = if v = id then some m.1 else none := by
  obtain ⟨m, hm, rfl⟩ := List.mem_map.mp hp
  exact ⟨rfl, m, hm, rfl, rfl, rfl⟩

/-- `sendAndWait` begins when no message of an earlier call is in flight. -/
theorem Cluster.Opens.traced {env : Env} {w : Wait} {out : Out}
    (h : Cluster.Opens env (some w) out) (hdrained : ∀ p ∈ packets, p.party id = none) :
    Call.Traced { reqId := env.uuid, sent := out.map Prod.fst } id
      (packets + (Network.requests id out : List Packet)) w.nodeMsgList := by
  obtain ⟨senders, hw⟩ := h.empty
  cases hw
  refine ⟨?_, nofun, ?_⟩
  · intro p hp n hn
    rcases Multiset.mem_add.mp hp with hp | hp
    · rw [hdrained p hp] at hn
      cases hn
    · obtain ⟨hreq, m, hm, -, hmsg, hparty⟩ := party_request id hp
      rw [hparty, if_pos rfl] at hn
      cases hn
      refine ⟨?_, List.mem_map_of_mem hm, fun hno => ?_⟩
      · rw [hmsg]
        exact h.req m hm
      · rw [hreq] at hno
        cases hno
  · intro n
    have hzero : pending packets id n = 0 := by
      unfold pending
      rw [Multiset.countP_eq_zero]
      intro p hp
      simp [hdrained p hp]
    have hcount : (Network.requests id out).countP (fun p => p.party id = some n) =
        (out.map Prod.fst).count n := by
      unfold Network.requests List.count
      rw [List.countP_map, List.countP_map]
      congr 1
      funext m
      simp only [Function.comp_apply, Packet.party, if_true, Option.some.injEq]
      exact (beq_eq_decide m.1 n).symm
    rw [pending_add, hzero, hcount, List.map_nil, List.count_nil]
    have honce := List.nodup_iff_count_le_one.mp h.once n
    omega

/-! ## Runs -/

/-- Each member that waits has its latest call traced. -/
def Calls.Inv (x : Calls) : Prop :=
  ∀ id w, (x.net.members id).sendAndWaitChan = some w →
    ∃ call, x.calls id = some call ∧ call.Traced id x.net.packets w.nodeMsgList

theorem networkCalls_member {conf : Conf} {ok : Calls → Event → Prop} {x : Calls}
    (h : (networkCalls conf).ReachableWhen ok x) (v : String) :
    (x.net.members v).Attended v := by
  have hreach : (member conf v).Reachable (x.net.members v) := by
    refine Machine.ReachableWhen.project (fun x : Calls => x.net.members v) ?_ ?_ h
    · rintro x ⟨⟨now, hx⟩, -⟩
      exact ⟨now, by rw [hx]; rfl⟩
    · intro x e x' hs
      obtain ⟨net, hnet, rfl⟩ := Option.map_eq_some_iff.mp hs
      exact member_step hnet v
  exact Cluster.attended_reachable hreach

theorem callMade_eq {c c' : Cluster} {env : Env} {a : Action} {out : Out}
    (h : c.act env a = some (c', out)) :
    c.callMade env a =
      if c.begins c' then some { reqId := env.uuid, sent := out.map Prod.fst } else none := by
  unfold Cluster.callMade
  rw [h]
  rfl

theorem inv_act {x : Calls} {v : String} {env : Env} {a : Action} {c : Cluster} {out : Out}
    (hatt : (x.net.members v).Attended v) (hinv : x.Inv) (hok : x.Drained (.act v env a))
    (hact : (x.net.members v).act env a = some (c, out)) :
    Calls.Inv { net := (x.net.setMember v c).send (Network.requests v out)
                calls := x.note (.act v env a) } := by
  intro id w hw
  have hcall := callMade_eq hact
  show ∃ call, (if id = v then ((x.net.members v).callMade env a).or (x.calls id) else x.calls id) =
    some call ∧ call.Traced id (x.net.packets + (Network.requests v out : List Packet)) w.nodeMsgList
  rw [members_send, members_setMember] at hw
  by_cases hid : id = v
  · subst hid
    rw [if_pos rfl] at hw ⊢
    rcases (Cluster.acts_of_act hact).call hatt hw with ⟨hbegins, hopens⟩ | ⟨hno, hold, rfl⟩
    · rw [hcall, if_pos hbegins]
      refine ⟨_, rfl, hopens.traced (hok ?_)⟩
      rw [hcall, if_pos hbegins]
      rfl
    · obtain ⟨call, hc, ht⟩ := hinv id w hold
      rw [hcall, hno]
      exact ⟨call, hc, ht.send nofun⟩
  · rw [if_neg hid] at hw ⊢
    obtain ⟨call, hc, ht⟩ := hinv id w hw
    refine ⟨call, hc, ht.send fun p hp => ?_⟩
    obtain ⟨-, m, -, -, -, hparty⟩ := party_request id hp
    rw [hparty, if_neg (Ne.symm hid)]

theorem inv_receive {x : Calls} {env : Env} {p : Packet} {s : Network}
    (hs : x.net = { s with packets := p ::ₘ s.packets })
    (hatt : (x.net.members p.dst).Attended p.dst) (hinv : x.Inv) :
    Calls.Inv { net := s.handle env p, calls := x.calls } := by
  intro id w hw
  unfold Calls.Inv at hinv
  rw [hs] at hinv hatt
  unfold Network.handle at hw ⊢
  by_cases hreq : p.request = true
  · rw [if_pos hreq] at hw ⊢
    simp only [members_send, members_setMember] at hw
    have hw' : (s.members id).sendAndWaitChan = some w := by
      split_ifs at hw with hid
      · rw [hid, ← hw]
        exact (Cluster.wait_acceptorReceived _ _).symm
      · exact hw
    obtain ⟨call, hc, ht⟩ := hinv id w hw'
    exact ⟨call, hc, ht.answer hreq hatt.my (Cluster.replies_acceptorReceived _ env p.flag p.msg)⟩
  · rw [if_neg hreq] at hw ⊢
    rw [Bool.not_eq_true] at hreq
    simp only [members_setMember] at hw
    split_ifs at hw with hid
    · subst hid
      obtain ⟨htakes, hquiet⟩ := Cluster.takes_nodeReceived (s.members p.dst) env p.flag p.msg
      rcases htakes with hsame | ⟨w₀, w₁, hold, hnew, hlist⟩
      · obtain ⟨call, hc, ht⟩ := hinv p.dst w (hsame.symm.trans hw)
        exact ⟨call, hc, ht.drop⟩
      · obtain ⟨call, hc, ht⟩ := hinv p.dst w₀ hold
        rw [hnew] at hw
        cases hw
        rw [hlist]
        by_cases hok : p.flag = .ok
        · have hsame := (hquiet hok).symm.trans hnew
          rw [hold] at hsame
          cases hsame
          simp at hlist
        · refine ⟨call, hc, ht.take hreq (n := p.src) ?_⟩
          unfold Packet.party
          simp [hreq, hok]
    · obtain ⟨call, hc, ht⟩ := hinv id w hw
      exact ⟨call, hc, ht.drop⟩

theorem inv_reachable {conf : Conf} {x : Calls}
    (h : (networkCalls conf).ReachableWhen Calls.Drained x) : x.Inv := by
  refine Machine.ReachableWhen.invariant Calls.Inv ?_ ?_ h
  · rintro x ⟨⟨now, hx⟩, -⟩ id w hw
    have hnone : (x.net.members id).sendAndWaitChan = none := by
      rw [hx]
      exact (Cluster.nodup_create conf id now).2
    rw [hnone] at hw
    cases hw
  · intro x e x' hr hinv hok hs
    obtain ⟨net, hnet, rfl⟩ := Option.map_eq_some_iff.mp hs
    cases e with
    | act v env a =>
      simp only [Network.step, Option.ite_none_right_eq_some, Option.map_eq_some_iff] at hnet
      obtain ⟨-, ⟨c, out⟩, hact, rfl⟩ := hnet
      exact inv_act (networkCalls_member hr v) hinv hok hact
    | receive env p =>
      simp only [Network.step, Option.ite_none_right_eq_some, Option.some.injEq] at hnet
      obtain ⟨hp, rfl⟩ := hnet
      refine inv_receive ?_ (networkCalls_member hr p.dst) hinv
      simp only [Multiset.cons_erase hp]

/-- Every message in the list that `sendAndWait` returns carries the `ReqId` of this call and comes
from a node that it was sent to, and no two come from the same node, as long as no member calls it
while a message of one of its earlier requests is in flight. -/
theorem sendAndWait_returns_own {conf : Conf} {x : Calls}
    (h : (networkCalls conf).ReachableWhen Calls.Drained x) {id : String}
    (hw : (x.net.members id).sendAndWaitChan.isSome) :
    ∃ call, x.calls id = some call ∧ call.Answered (x.net.members id).returnWait.2 := by
  obtain ⟨w, hw⟩ := Option.isSome_iff_exists.mp hw
  obtain ⟨call, hc, ht⟩ := inv_reachable h id w hw
  refine ⟨call, hc, ?_⟩
  unfold Cluster.returnWait
  rw [hw]
  exact ht.answered

/-- The node `a:1` asks `b:1` for the leader, then for its vote, and waits for both answers. -/
theorem sendAndWait_returns_own_votes :
    ∃ x, (networkCalls threeNodes).ReachableWhen Calls.Drained x ∧
      (x.net.members "a:1").sendAndWaitChan.isSome ∧
      (x.net.members "a:1").returnWait.2.map NodeMsg.reqId = ["u1"] ∧
      ∃ call, x.calls "a:1" = some call ∧ call.Answered (x.net.members "a:1").returnWait.2 := by
  have hrun : (((networkCalls threeNodes).restrict Calls.Drained).run
      { net := Network.initial threeNodes 0, calls := fun _ => none }
      (starts threeNodes.ids ++ connects "a:1" "b:1" ++
        [acts "a:1" "ask" (.fight .start),
          receives ⟨"a:1", "b:1", true, .sAskLeader, { nodeId := "a:1", term := 1, reqId := "ask" }⟩,
          receives ⟨"b:1", "a:1", false, .rAskLeader, { nodeId := "b:1", term := 0, reqId := "ask" }⟩,
          acts "a:1" "" (.fight (.askLeader 1)), acts "a:1" "u1" (.fight (.settle 1))] ++
        votes "b:1" "a:1" 1 "u1")).map (fun x =>
        ((x.net.members "a:1").sendAndWaitChan.isSome,
          (x.net.members "a:1").returnWait.2.map NodeMsg.reqId)) = some (true, ["u1"]) := by
    decide
  obtain ⟨x, hr, he⟩ := Machine.observedWhen_of_run hrun ⟨⟨0, rfl⟩, rfl⟩
  obtain ⟨hw, hreq⟩ := Prod.mk.inj he
  exact ⟨x, hr, hw, hreq, sendAndWait_returns_own hr hw⟩

/-- The vote of `c:1` for `a:1` arrives late, when `a:1` waits for the confirmation of its broadcast,
which no node has received. It is the whole list, and confirms the leader. -/
theorem late_vote_confirms :
    ∃ x, (networkCalls threeNodes).Reachable x ∧
      (x.net.members "a:1").sendAndWaitChan.isSome ∧
      ∃ call, x.calls "a:1" = some call ∧
        ¬ call.Answered (x.net.members "a:1").returnWait.2 ∧
        Cluster.confirmed (x.net.members "a:1").returnWait.2 = true := by
  have hrun : ((networkCalls threeNodes).run
      { net := Network.initial threeNodes 0, calls := fun _ => none }
      (starts threeNodes.ids ++ connects "a:1" "c:1" ++ connects "a:1" "b:1" ++
        campaigns "a:1" 1 "u1" ++ votes "b:1" "a:1" 1 "u1" ++
        [receives ⟨"a:1", "c:1", true, .sGetVote, { nodeId := "a:1", term := 1, reqId := "u1" }⟩,
          acts "a:1" "u2" (.fight (.getVote 1)),
          receives ⟨"c:1", "a:1", false, .rGetVote,
            { nodeId := "c:1", term := 1, reqId := "u1", success := some true }⟩])).map (fun x =>
        ((x.net.members "a:1").sendAndWaitChan.isSome, x.calls "a:1",
          (x.net.members "a:1").returnWait.2)) =
      some (true, some { reqId := "u2", sent := ["b:1", "c:1"] },
        [{ nodeId := "c:1", term := 1, reqId := "u1", success := some true }]) := by
    decide
  obtain ⟨x, hr, he⟩ := Machine.observed_of_run hrun ⟨⟨0, rfl⟩, rfl⟩
  simp only [Prod.mk.injEq] at he
  obtain ⟨hw, hc, hl⟩ := he
  refine ⟨x, hr, hw, _, hc, fun hans => ?_, ?_⟩
  · have hown := (hans.own _ (by rw [hl]; exact List.mem_singleton_self _)).1
    revert hown
    decide
  · rw [hl]
    decide

end OwnX.Cluster
