import OwnX.Cluster.Wire
import OwnX.Cluster.Proofs.VoteProofs
import OwnX.Nio.Proofs.PipeProofs
import OwnX.Foundations.Text
import Mathlib.Data.Multiset.AddSub

/-!
# Proofs: the cluster of bytes refines the cluster of messages

Every message in a lane, whether it is still in the stream or a goroutine has been started for it, is in
flight in the abstract network. A message whose write has failed is one that is never delivered there.
-/

set_option linter.dupNamespace false

namespace OwnX.Cluster

open Nio (Pipe ReadEvent)

variable {json : Json} {conf : Conf}

/-! ## One message -/

theorem Flag.ofByte_byte (f : Flag) : Flag.ofByte f.byte = f := by
  cases f <;> rfl

/-- A message in a lane. -/
structure LaneMsg where
  l : Line
  request : Bool
  flag : Flag
  msg : NodeMsg
  deriving DecidableEq

def LaneMsg.packet (t : LaneMsg) : Packet := t.l.packet t.request t.flag t.msg

/-- The message that a frame in a lane stands for. -/
def laneMsg (json : Json) (l : Line) (request : Bool) (msg : Nio.Msg) : LaneMsg where
  l := l
  request := request
  flag := Flag.ofByte msg.flag
  msg := json.msg2node msg.data

/-- A frame that was written stands for the message it was written for. -/
theorem laneMsg_received {l : Line} {request : Bool} {flag : Flag} {msg : NodeMsg} (h : json.Carries msg) :
    laneMsg json l request (Nio.received json.codec flag.byte (some (.value msg))) =
      ⟨l, request, flag, msg⟩ := by
  have hdata := Nio.received_payload json.codec (fun h => nomatch h) flag.byte (some (.value msg))
  simp only [laneMsg, Json.msg2node, hdata, Nio.received_flag, Flag.ofByte_byte]
  exact congrArg _ h.2

/-! ## The lanes -/

/-- The messages of every lane are among `T`. -/
def Holds (json : Json) (w : Wire) (T : Multiset LaneMsg) : Prop :=
  ∀ l request, ∃ ms, (w.lanes l request).Carries json.codec ms ∧
    (((w.lanes l request).reader.started ++ ms).map (laneMsg json l request) : Multiset LaneMsg) ≤ T

namespace Holds

variable {w : Wire} {T : Multiset LaneMsg}

theorem mono (h : Holds json w T) {T' : Multiset LaneMsg} (hle : T ≤ T') : Holds json w T' := by
  intro l request
  obtain ⟨ms, hc, hms⟩ := h l request
  exact ⟨ms, hc, hms.trans hle⟩

/-- One lane changes. -/
theorem setLane (h : Holds json w T) {T' : Multiset LaneMsg} (l : Line) (request : Bool) {lane : Pipe}
    (hother : ∀ l' r, ¬(l' = l ∧ r = request) → ∀ xs : List Nio.Msg,
      (xs.map (laneMsg json l' r) : Multiset LaneMsg) ≤ T → (xs.map (laneMsg json l' r) : Multiset LaneMsg) ≤ T')
    (hlane : ∃ ms, lane.Carries json.codec ms ∧
      ((lane.reader.started ++ ms).map (laneMsg json l request) : Multiset LaneMsg) ≤ T') :
    Holds json (w.setLane l request lane) T' := by
  intro l' r
  by_cases heq : l' = l ∧ r = request
  · obtain ⟨rfl, rfl⟩ := heq
    simpa [Wire.setLane] using hlane
  · obtain ⟨ms, hc, hms⟩ := h l' r
    simp only [Wire.setLane, if_neg heq]
    exact ⟨ms, hc, hother l' r heq _ hms⟩

/-- A lane changes, carries what it carried and starts no goroutine. -/
theorem setPipe (h : Holds json w T) (l : Line) (request : Bool) {p : Pipe}
    (hstart : p.reader.started = (w.lanes l request).reader.started)
    (hp : ∀ ms, (w.lanes l request).Carries json.codec ms → p.Carries json.codec ms) :
    Holds json (w.setLane l request p) T := by
  refine h.setLane l request (fun _ _ _ _ hle => hle) ?_
  obtain ⟨ms, hc, hms⟩ := h l request
  rw [← hstart] at hms
  exact ⟨ms, hp ms hc, hms⟩

/-- A write to a lane. -/
theorem write (h : Holds json w T) (l : Line) (request : Bool) (flag : Flag) {msg : NodeMsg}
    (hm : json.Carries msg) :
    Holds json (w.write json l request flag msg) (⟨l, request, flag, msg⟩ ::ₘ T) := by
  have hle : T ≤ ⟨l, request, flag, msg⟩ ::ₘ T := Multiset.le_cons_self _ _
  refine h.setLane l request (fun _ _ _ _ h => h.trans hle) ?_
  obtain ⟨ms, hc, hms⟩ := h l request
  refine ⟨_, hc.write flag.byte hm.1, ?_⟩
  rw [Pipe.reader_write]
  split
  · exact hms.trans hle
  · rw [← List.append_assoc, List.map_append, List.map_singleton, laneMsg_received hm, ← Multiset.coe_add,
      Multiset.coe_singleton, Multiset.add_comm, Multiset.singleton_add]
    exact Multiset.cons_le_cons _ hms

/-- A message is sent. Without a connector nothing is written, and the message is lost. -/
theorem sendMessage (h : Holds json w T) (id dst : String) (node : Node) (flag : Flag) {msg : NodeMsg}
    (hm : json.Carries msg) :
    ∃ k, Holds json (w.sendMessage json id dst node flag msg) (⟨⟨id, dst, k⟩, true, flag, msg⟩ ::ₘ T) := by
  unfold Wire.sendMessage
  cases node.nodeConnector with
  | some k => exact ⟨k, h.write ⟨id, dst, k⟩ true flag hm⟩
  | none => exact ⟨0, h.mono (Multiset.le_cons_self _ _)⟩

/-- The messages a step sends. -/
theorem sendMessages (h : Holds json w T) (id : String) (c : Cluster) {out : Out}
    (hout : ∀ m ∈ out, json.Carries m.2.2) :
    ∃ T', Holds json (w.sendMessages json id c out) T' ∧
      T'.map LaneMsg.packet = T.map LaneMsg.packet + Network.requests id out := by
  induction out generalizing w T with
  | nil => exact ⟨T, h, by simp [Network.requests]⟩
  | cons m out ih =>
    rw [List.forall_mem_cons] at hout
    obtain ⟨k, hk⟩ := h.sendMessage id m.1 (c.nodes m.1) m.2.1 hout.1
    obtain ⟨T', hT', heq⟩ := ih hk hout.2
    refine ⟨T', hT', ?_⟩
    rw [heq, Multiset.map_cons, Network.requests, Network.requests, List.map_cons, ← Multiset.cons_coe,
      Multiset.add_cons, Multiset.cons_add]
    rfl

/-- The answers of a handler. -/
theorem writeAnswers (h : Holds json w T) (l : Line) (flag : Flag) (msg : NodeMsg)
    {replies : List (Flag × NodeMsg)} (hout : ∀ m ∈ replies, json.Carries m.2) :
    ∃ T', Holds json (w.writeAnswers json l replies) T' ∧
      T'.map LaneMsg.packet = T.map LaneMsg.packet + Network.answers (l.packet true flag msg) replies := by
  induction replies generalizing w T with
  | nil => exact ⟨T, h, by simp [Network.answers]⟩
  | cons m replies ih =>
    rw [List.forall_mem_cons] at hout
    obtain ⟨T', hT', heq⟩ := ih (h.write l false m.1 hout.1) hout.2
    refine ⟨T', hT', ?_⟩
    rw [heq, Multiset.map_cons, Network.answers, Network.answers, List.map_cons, ← Multiset.cons_coe,
      Multiset.add_cons, Multiset.cons_add]
    rfl

/-- A read starts goroutines for the first messages of the lane. -/
theorem read (h : Holds json w T) {l : Line} {request : Bool} {n : Nat} {p : Pipe}
    (hp : (w.lanes l request).read json.codec false n = some p) : Holds json (w.setLane l request p) T := by
  refine h.setLane l request (fun _ _ _ _ hle => hle) ?_
  obtain ⟨ms, hc, hms⟩ := h l request
  obtain ⟨out, rest, rfl, hon, hc'⟩ := hc.read hp
  have hstart : p.reader.started = (w.lanes l request).reader.started ++ out := hon.started
  refine ⟨rest, hc', ?_⟩
  rw [hstart, List.append_assoc]
  exact hms

/-- A goroutine runs: its message is taken out. -/
theorem take (h : Holds json w T) {l : Line} {request : Bool} {msg : Nio.Msg}
    (hmsg : msg ∈ (w.lanes l request).reader.started) :
    laneMsg json l request msg ∈ T ∧
      Holds json (w.setLane l request
        { w.lanes l request with reader := (w.lanes l request).reader.receive msg })
        (T.erase (laneMsg json l request msg)) := by
  have hmem : laneMsg json l request msg ∈ T := by
    obtain ⟨ms, -, hms⟩ := h l request
    exact Multiset.mem_of_le hms (List.mem_map_of_mem (List.mem_append_left _ hmsg))
  refine ⟨hmem, h.setLane l request ?_ ?_⟩
  · intro l' r hne xs hle
    have hnot : laneMsg json l request msg ∉ (xs.map (laneMsg json l' r) : Multiset LaneMsg) := by
      intro hin
      obtain ⟨x, -, hx⟩ := List.mem_map.1 (Multiset.mem_coe.1 hin)
      have hl := congrArg LaneMsg.l hx
      have hr := congrArg LaneMsg.request hx
      exact hne ⟨hl, hr⟩
    rw [← Multiset.erase_of_notMem hnot]
    exact Multiset.erase_le_erase _ hle
  · obtain ⟨ms, hc, hms⟩ := h l request
    refine ⟨ms, hc.receive msg, ?_⟩
    have hperm : ((w.lanes l request).reader.started ++ ms).Perm
        (msg :: ((w.lanes l request).reader.started.erase msg ++ ms)) := by
      rw [← List.cons_append]
      exact (List.perm_cons_erase hmsg).append_right ms
    rw [Multiset.coe_eq_coe.2 (hperm.map _), List.map_cons, ← Multiset.cons_coe] at hms
    have hle := Multiset.erase_le_erase (laneMsg json l request msg) hms
    rw [Multiset.erase_cons_head] at hle
    exact hle

end Holds

/-! ## The refinement -/

/-- The abstract network of a wire: the same members, and the messages of every lane in flight. -/
def Refines (json : Json) (w : Wire) (n : Network) : Prop :=
  n.members = w.members ∧ ∃ T, Holds json w T ∧ T.map LaneMsg.packet = n.packets

variable {w w' : Wire} {n : Network}

theorem sendMessage_members (w : Wire) (id dst : String) (node : Node) (flag : Flag) (msg : NodeMsg) :
    (w.sendMessage json id dst node flag msg).members = w.members := by
  unfold Wire.sendMessage
  split <;> rfl

theorem sendMessages_members (w : Wire) (id : String) (c : Cluster) (out : Out) :
    (w.sendMessages json id c out).members = w.members := by
  induction out generalizing w with
  | nil => rfl
  | cons m out ih => exact (ih _).trans (sendMessage_members _ _ _ _ _ _)

theorem writeAnswers_members (w : Wire) (l : Line) (replies : List (Flag × NodeMsg)) :
    (w.writeAnswers json l replies).members = w.members := by
  induction replies generalizing w with
  | nil => rfl
  | cons m replies ih => exact ih _

/-- A goroutine of `OnMessageReceived` runs, as the abstract network handles the message. -/
theorem refines_handle {l : Line} {request : Bool} {env : Env} {msg : Nio.Msg}
    {T : Multiset LaneMsg} (hmem : n.members = w.members) (hT : Holds json w T)
    (hpackets : T.map LaneMsg.packet = n.packets)
    (hw : ∀ m ∈ w.written json (.handle l request env msg), json.Carries m) :
    Refines json (w.onMessageReceived json l request env msg)
      (n.handle env (laneMsg json l request msg).packet) := by
  cases request with
  | true =>
    have hreplies : ∀ m ∈ ((w.members l.server).acceptorReceived env (Flag.ofByte msg.flag)
        (json.msg2node msg.data)).2, json.Carries m.2 := fun m hm => hw _ (List.mem_map_of_mem hm)
    obtain ⟨T', hT', heq⟩ := Holds.writeAnswers (w := w.setMember l.server
      ((w.members l.server).acceptorReceived env (Flag.ofByte msg.flag) (json.msg2node msg.data)).1) hT l
      (Flag.ofByte msg.flag) (json.msg2node msg.data) hreplies
    refine ⟨?_, T', ?_, ?_⟩
    · rw [Wire.onMessageReceived, if_pos rfl, writeAnswers_members]
      simp [Network.handle, Network.setMember, Network.send, Wire.setMember, LaneMsg.packet, laneMsg,
        Line.packet, hmem]
    · rw [Wire.onMessageReceived, if_pos rfl]
      exact hT'
    · rw [heq, hpackets]
      simp [Network.handle, Network.setMember, Network.send, LaneMsg.packet, laneMsg, Line.packet, hmem]
  | false =>
    refine ⟨?_, T, hT, hpackets⟩
    simp [Wire.onMessageReceived, Wire.setMember, Network.handle, Network.setMember, LaneMsg.packet, laneMsg,
      Line.packet, hmem]

/-- Every step of the wire is a step of the abstract network, or none. -/
theorem refines_step {e : WireEvent} (h : Refines json w n) (hw : w.Carried json e)
    (hs : w.step json conf.ids e = some w') :
    Refines json w' n ∨ ∃ e' n', n.step conf.ids e' = some n' ∧ Refines json w' n' := by
  obtain ⟨hmem, T, hT, hpackets⟩ := h
  cases e with
  | act id env action =>
    obtain ⟨hid, hs⟩ := Option.ite_none_right_eq_some.1 hs
    obtain ⟨r, hr, rfl⟩ := Option.map_eq_some_iff.1 hs
    have hout : ∀ m ∈ r.2, json.Carries m.2.2 := fun m hm =>
      hw _ (by simpa [Wire.written, hr] using ⟨m.1, m.2.1, hm⟩)
    obtain ⟨T', hT', heq⟩ :=
      Holds.sendMessages (w := w.setMember id r.1) hT id (w.members id) hout
    refine Or.inr ⟨.act id env action, (n.setMember id r.1).send (Network.requests id r.2), ?_, ?_, T', hT',
      ?_⟩
    · simp [Network.step, hid, hmem, hr]
    · rw [sendMessages_members]
      simp [Network.send, Network.setMember, Wire.setMember, hmem]
    · rw [heq, hpackets]
      rfl
  | fail l request flag msg k =>
    obtain ⟨hk, hs⟩ := Option.ite_none_right_eq_some.1 hs
    obtain rfl := Option.some.inj hs
    have hfit := (hw msg (List.mem_singleton_self _)).1
    exact Or.inl ⟨hmem, T, hT.setPipe l request (by rw [Pipe.reader_fail])
      fun ms hc => hc.fail flag.byte hfit hk, hpackets⟩
  | read l request k =>
    obtain ⟨-, hs⟩ := Option.ite_none_right_eq_some.1 hs
    obtain ⟨p, hp, rfl⟩ := Option.map_eq_some_iff.1 hs
    exact Or.inl ⟨hmem, T, hT.read hp, hpackets⟩
  | readEnds l request e =>
    obtain ⟨p, hp, rfl⟩ := Option.map_eq_some_iff.1 hs
    obtain ⟨ms, hc, -⟩ := hT l request
    have hstart : p.reader.started = (w.lanes l request).reader.started :=
      (hc.readEnds hp).1.started.trans (List.append_nil _)
    exact Or.inl ⟨hmem, T, hT.setPipe l request hstart fun ms hc => (hc.readEnds hp).2, hpackets⟩
  | handle l request env msg =>
    obtain ⟨p, hp, rfl⟩ := Option.map_eq_some_iff.1 hs
    obtain ⟨hmsg, hp⟩ := Option.ite_none_right_eq_some.1 hp
    obtain rfl := Option.some.inj hp
    obtain ⟨hin, hT'⟩ := hT.take hmsg
    have hflight : (laneMsg json l request msg).packet ∈ n.packets :=
      hpackets ▸ Multiset.mem_map_of_mem _ hin
    refine Or.inr ⟨.receive env (laneMsg json l request msg).packet, _, if_pos hflight, ?_⟩
    refine refines_handle (n := { n with packets := n.packets.erase _ }) hmem hT' ?_ hw
    rw [← hpackets, ← Multiset.map_erase_of_mem _ _ hin]

/-- Whatever the pieces in which bytes arrive, the writes that fail and the order in which the handlers run:
the members are in states that they reach in the network of messages, and every message that is handed to a
handler is in flight there. What holds of every reachable state of the members in the network holds of the
cluster of bytes. -/
theorem wire_refines (h : (wire json conf).ReachableWhen (fun w e => w.Carried json e) w) :
    ∃ n, (network conf).Reachable n ∧ n.members = w.members ∧
      ∀ l request, ∀ msg ∈ (w.lanes l request).reader.started,
        l.packet request (Flag.ofByte msg.flag) (json.msg2node msg.data) ∈ n.packets := by
  have hsim : ∃ n, (network conf).Reachable n ∧ Refines json w n := by
    refine Machine.ReachableWhen.invariant (fun w => ∃ n, (network conf).Reachable n ∧ Refines json w n)
      ?_ ?_ h
    · rintro w ⟨now, rfl⟩
      exact ⟨Network.initial conf now, .init ⟨now, rfl⟩, rfl, 0,
        fun _ _ => ⟨[], Nio.Pipe.carries_init, Multiset.zero_le _⟩, rfl⟩
    · rintro w e w' - ⟨n, hn, href⟩ hw hs
      rcases refines_step href hw hs with href' | ⟨e', n', hs', href'⟩
      · exact ⟨n, hn, href'⟩
      · exact ⟨n', .step hn trivial hs', href'⟩
  obtain ⟨n, hn, hmem, T, hT, hpackets⟩ := hsim
  refine ⟨n, hn, hmem, fun l request msg hmsg => ?_⟩
  rw [← hpackets]
  exact Multiset.mem_map_of_mem LaneMsg.packet (hT.take hmsg).1

/-- The question of `a:1` for the leader, as `encoding/json` writes it. -/
def askText : Nio.Bytes := ascii "\x7b\"NodeId\":\"a:1\",\"Term\":1,\"ReqId\":\"u\"\x7d"

/-- The answer of `b:1`, as `encoding/json` writes it. -/
def answerText : Nio.Bytes := ascii "\x7b\"NodeId\":\"b:1\",\"Term\":0,\"ReqId\":\"u\"\x7d"

/-- What `encoding/json` does with the question and the answer. -/
def askJson : Json where
  packages :=
    { marshal := fun m => some (if m.nodeId = "a:1" then askText else answerText)
      compress := id
      decompress := some }
  unmarshal := fun bs =>
    if bs = askText then { nodeId := "a:1", term := 1, reqId := "u" }
    else { nodeId := "b:1", term := 0, reqId := "u" }

/-- The node `a:1` asks `b:1` for the leader. The question arrives in two pieces; the answer has arrived,
behind it a part of another one, and no goroutine has run for it. -/
theorem wire_refines_ask :
    ∃ w, (wire askJson threeNodes).ReachableWhen (fun w e => w.Carried askJson e) w ∧
      (w.lanes ⟨"a:1", "b:1", 0⟩ false).reader.started =
        [{ flag := 32, length := 38, data := some answerText }] ∧
      ∃ n, (network threeNodes).Reachable n ∧ n.members = w.members ∧
        ∀ l request, ∀ msg ∈ (w.lanes l request).reader.started,
          l.packet request (Flag.ofByte msg.flag) (askJson.msg2node msg.data) ∈ n.packets := by
  have hrun : (((wire askJson threeNodes).restrict fun w e => w.Carried askJson e).run
      { members := fun id => Cluster.create threeNodes id 0, lanes := fun _ _ => {} }
      [.act "a:1" ⟨0, "", fun _ => true⟩ .startUp, .act "a:1" ⟨0, "", fun _ => true⟩ (.connect "b:1"),
        .act "a:1" ⟨0, "", fun _ => true⟩ .assignConnector,
        .act "a:1" ⟨0, "u", fun _ => true⟩ (.fight .start),
        .read ⟨"a:1", "b:1", 0⟩ true 4, .read ⟨"a:1", "b:1", 0⟩ true 38,
        .handle ⟨"a:1", "b:1", 0⟩ true ⟨0, "", fun _ => true⟩
          { flag := 13, length := 38, data := some askText },
        .fail ⟨"a:1", "b:1", 0⟩ false .rAskLeader { nodeId := "b:1", term := 0, reqId := "u" } 3,
        .read ⟨"a:1", "b:1", 0⟩ false 44]).map (fun w => (w.lanes ⟨"a:1", "b:1", 0⟩ false).reader.started) =
      some [{ flag := 32, length := 38, data := some answerText }] := by
    decide
  obtain ⟨w, hreach, hseen⟩ := Machine.observedWhen_of_run hrun ⟨0, rfl⟩
  exact ⟨w, hreach, hseen, wire_refines hreach⟩

end OwnX.Cluster
