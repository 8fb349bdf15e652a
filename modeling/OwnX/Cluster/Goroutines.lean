import OwnX.Cluster.Member

/-!
# The goroutines of a member

A step of `member` runs a handler, a tick or a stretch of `fightElection` as a whole. The code lets other
goroutines in between: `signLeader` and `StartUp` hold `cluster.mu`, but `Close` and `releaseLeader` write
`status` without it, and most tests of `status` and `nodeLeader` are made without it too. Here a goroutine
stops after each such test and before each such write, and any other may go on from there.

A section without a write to `status` or `nodeLeader` is as in `Contact`. A goroutine that runs on alone
does what the step of `member` does.
-/

set_option linter.dupNamespace false

namespace OwnX.Cluster

/-- What a goroutine does after `releaseLeader`, `signLeader` or its write to `status`. -/
inductive Rest where
  /-- It ends. -/
  | done
  /-- The vote of the `msgSGetVote` case. -/
  | castVote (nodeMsg : NodeMsg)
  /-- The records of the `msgSBroadcastLeader` case. -/
  | record (nodeMsg : NodeMsg)
  /-- The send to `sendAndWaitChan`. -/
  | deliver (nodeMsg : NodeMsg)
  /-- The deferred functions of `fightElection`. -/
  | finish (needNextTerm : Bool)
  /-- `fightElection` from `nodeMy.clear()` on. -/
  | campaign (currentTerm : Int)
  /-- The second half of `toNextTerm`, in `OnSessionClosed`. -/
  | nextTerm
  /-- The second half of `toNextTerm`, in `heartbeat`. -/
  | nextTermBeat
  /-- `openService`. -/
  | openService
  /-- `Close` from `createEvent` on. -/
  | closeAll
  deriving DecidableEq, Repr

/-- Where a running goroutine has come to. -/
inductive Point where
  | rest (next : Rest)
  /-- Before a write to `status`; `locked` says that it holds `cluster.mu`. -/
  | write (status : Stat) (locked : Bool) (next : Rest)
  /-- Before `releaseLeader`. -/
  | release (next : Rest)
  /-- Before `signLeader`. -/
  | sign (newLeaderNode : String) (accepted refused : Rest)
  /-- In `signLeader`, past its tests. -/
  | signed (newLeaderNode : String) (accepted : Rest)
  | startUp
  /-- In `StartUp` of the cluster model, before the lock. -/
  | starting
  | close
  /-- The `msgSGetVote` case. -/
  | getVote (nodeMsg : NodeMsg)
  /-- The `msgSBroadcastLeader` case. -/
  | broadcastLeader (nodeMsg : NodeMsg)
  /-- The same, past the test for a stale term. -/
  | replaceLeader (nodeMsg : NodeMsg)
  /-- The same, when the message is recorded. -/
  | checkLeader (nodeMsg : NodeMsg)
  /-- `OnMessageReceived` of a connection to a node. -/
  | answer (flag : Flag) (nodeMsg : NodeMsg)
  /-- The same, past the test for a later term. -/
  | recordAnswer (flag : Flag) (nodeMsg : NodeMsg)
  /-- The same, when the message is recorded. -/
  | reply (flag : Flag) (nodeMsg : NodeMsg)
  /-- `OnSessionClosed`. -/
  | sessionClosed (targetNode : String)
  /-- The same, when the node is offline. -/
  | offline (targetNode : String)
  /-- The same, when the node was the leader. -/
  | leaderLost
  /-- The same, when too few nodes are online. -/
  | minority
  /-- A turn of `heartbeat`. -/
  | beat
  /-- The same, when the member is ready. -/
  | beatReady
  /-- The same, when the member does not lead. -/
  | beatFollower
  /-- The end of the turn. -/
  | beatEnd
  /-- `fightElection`, where it was blocked. -/
  | fight (f : Fight)
  /-- `fightElection` after the short sleep, when there is no leader. -/
  | stand (currentTerm : Int)
  deriving DecidableEq, Repr

/-- The goroutine is past its last test before a write to `status`, other than that of `Close`. -/
def Point.armed : Point → Bool
  | .write status _ _ => status ≠ .closed
  | .release _ => true
  | .signed _ _ => true
  | _ => false

/-- The goroutine is that of `Close`, before its write to `status`. -/
def Point.closes : Point → Bool
  | .write .closed _ _ => true
  | _ => false

/-- The goroutine holds `cluster.mu`. -/
def Point.holdsMu : Point → Bool
  | .write _ locked _ => locked
  | .signed _ _ => true
  | _ => false

/-- The goroutine waits for `cluster.mu`. -/
def Point.waitsMu : Point → Bool
  | .sign _ _ _ => true
  | .starting => true
  | _ => false

namespace Cluster

/-- A write to `beating`. -/
@[simps nodeLeader nodes nodeTimeout lostLeaderTime]
def setBeating (c : Cluster) (beating : Bool) : Cluster := { c with beating := beating }

/-- The last sections of a goroutine. -/
def proceedRest (c : Cluster) (env : Env) : Rest → Cluster × Point
  | .done => (c, .rest .done)
  | .castVote nodeMsg =>
    (c.setNode c.nodeMy (c.getMyNode.voteToNode nodeMsg.term nodeMsg.nodeId).1, .rest .done)
  | .record nodeMsg => (c.recordMsg env nodeMsg, .checkLeader nodeMsg)
  | .deliver nodeMsg => (c.deliver nodeMsg, .rest .done)
  | .finish needNextTerm => (c.finishFight needNextTerm, .rest .done)
  | .campaign currentTerm =>
    (((c.setNode c.nodeMy c.getMyNode.clear).voteLoop env currentTerm).1, .rest .done)
  | .nextTerm => (c.goFight .start, .rest .done)
  | .nextTermBeat => (c.goFight .start, .beatEnd)
  | .openService => (({ c with holding := true }.setBeating true).goFight .start, .rest .done)
  | .closeAll => (c.nodesAll.foldl dropConnector c, .rest .done)

/-- The tests of `signLeader`. -/
def signTests (c : Cluster) (newLeaderNode : String) (accepted refused : Rest) : Point :=
  let newTerm := (c.nodes newLeaderNode).term
  if newTerm < c.getMyTerm then .rest refused
  else
    match c.nodeLeader with
    | none => .signed newLeaderNode accepted
    | some l =>
      if newTerm < (c.nodes l).term then .rest refused
      else if l = newLeaderNode then .rest accepted
      else .signed newLeaderNode accepted

/-- The cases of `OnMessageReceived` of a connection to a node. -/
def proceedReply (c : Cluster) (nodeMsg : NodeMsg) : Flag → Cluster × Point
  | .rAskLeader =>
    (c,
      if nodeMsg.leaderId ≠ "" ∧ nodeMsg.leaderId ∉ c.nodesAlive then .rest .done
      else if nodeMsg.leaderId ≠ "" ∧ nodeMsg.leaderId ∈ c.nodesAll then
        .sign nodeMsg.leaderId (.deliver nodeMsg) (.deliver nodeMsg)
      else .rest (.deliver nodeMsg))
  | .rGetVote =>
    (if nodeMsg.success = some true then
        c.setNode c.nodeMy (c.getMyNode.addVoteCount nodeMsg.term)
      else c,
      .rest (.deliver nodeMsg))
  | .rLeader =>
    (c,
      if nodeMsg.success = some false ∧ c.nodeLeader = some c.nodeMy then .release (.deliver nodeMsg)
      else .rest (.deliver nodeMsg))
  | _ => (c, .rest .done)

/-- The tick of a member that does not lead. -/
def proceedFollower (c : Cluster) (env : Env) : Cluster × Point :=
  match c.nodeLeader with
  | some l =>
    if (c.nodes l).isTimeOut env.now c.nodeTimeout then
      if (c.nodes l).nodeConnector.isSome then (c.closeConnector l, .beatEnd)
      else (c, .release .nextTermBeat)
    else (c, .beatEnd)
  | none => (c, if 6 < env.now - c.lostLeaderTime then .release .nextTermBeat else .beatEnd)

/-- The next section of `fightElection`. -/
def proceedFight (c : Cluster) (env : Env) : Fight → Cluster × Point
  | .settle currentTerm =>
    (c, if c.nodeLeader.isSome then .rest (.finish false) else .stand currentTerm)
  | .confirm _ =>
    let r := c.returnWait
    (r.1,
      if confirmed r.2 then .sign c.nodeMy (.finish false) (.finish true) else .rest (.finish true))
  | f => ((c.fightElection env f).1, .rest .done)

/-- The next section of a goroutine: the member after it, and where the goroutine has come to. -/
def proceed (c : Cluster) (env : Env) : Point → Cluster × Point
  | .rest next => c.proceedRest env next
  | .write status _ next => (c.setStatus status, .rest next)
  | .release next =>
    ({ c with nodeLeader := none, lostLeaderTime := env.now }, .write .follower false next)
  | .sign newLeaderNode accepted refused => (c, c.signTests newLeaderNode accepted refused)
  | .signed newLeaderNode accepted =>
    ({ c with nodeLeader := some newLeaderNode },
      .write (if c.nodeMy = newLeaderNode then .leader else .follower) true accepted)
  | .startUp =>
    (c,
      match c.model with
      | .single => .sign c.nodeMy .done .done
      | .cluster => .starting)
  | .starting =>
    (c, if c.status ≠ .init then .rest .done else .write .follower true .openService)
  | .close =>
    if c.closeOnce then (c, .rest .done)
    else ({ c with closeOnce := true }, .write .closed false .closeAll)
  | .getVote nodeMsg =>
    (c, if c.isLeader then .release (.castVote nodeMsg) else .rest (.castVote nodeMsg))
  | .broadcastLeader nodeMsg =>
    (c, if nodeMsg.term < c.getMyTerm then .rest .done else .replaceLeader nodeMsg)
  | .replaceLeader nodeMsg =>
    (c,
      if c.getMyTerm < nodeMsg.term ∧ c.nodeLeader.isSome ∧ c.nodeLeader ≠ some nodeMsg.leaderId then
        .release (.record nodeMsg)
      else .rest (.record nodeMsg))
  | .checkLeader nodeMsg =>
    (c,
      if c.nodeLeader = some nodeMsg.leaderId ∧ (c.nodes nodeMsg.leaderId).term = nodeMsg.term then
        .rest .done
      else if nodeMsg.leaderId ∈ c.nodesAll then .sign nodeMsg.leaderId .done .done
      else .rest .done)
  | .answer flag nodeMsg =>
    (c,
      if c.nodeLeader.isSome ∧ c.getMyTerm < nodeMsg.term then .release .done
      else .recordAnswer flag nodeMsg)
  | .recordAnswer flag nodeMsg => (c.recordMsg env nodeMsg, .reply flag nodeMsg)
  | .reply flag nodeMsg => c.proceedReply nodeMsg flag
  | .sessionClosed targetNode =>
    let c := c.setNode targetNode { c.nodes targetNode with nodeConnector := none }
    (c.setAlive (c.nodesAlive.erase targetNode), .offline targetNode)
  | .offline targetNode =>
    (c,
      if c.nodeLeader = some targetNode then .leaderLost
      else if c.hasMajority then .rest .done
      else .minority)
  | .leaderLost => (c, if c.status = .closed then .rest .done else .release .nextTerm)
  | .minority =>
    (c, if c.status = .closed ∨ c.fighting then .rest .done else .release .nextTerm)
  | .beat =>
    if c.isReady then (c, .beatReady)
    else if c.isClose then (c, .rest .done)
    else (c.setBeating true, .rest .done)
  | .beatReady => if c.isLeader then ((c.heartbeatLeader env).1, .beatEnd) else (c, .beatFollower)
  | .beatFollower => c.proceedFollower env
  | .beatEnd => ((c.setBeating true).setNode c.nodeMy c.getMyNode.prune, .rest .done)
  | .fight f => c.proceedFight env f
  | .stand currentTerm =>
    (c,
      if c.status = .closed ∨ c.status = .leader then .rest (.finish false)
      else if c.status = .follower then .write .candidate false (.campaign currentTerm)
      else .rest (.campaign currentTerm))

/-- A goroutine is started, or goes on from where it was blocked. The goroutine of `heartbeat` is one,
and `beating` is down while it is at a turn. The steps of `holdConnection` and `readIo` touch neither
`status` nor `nodeLeader`. -/
def begin (c : Cluster) : Input → Option (Cluster × Point)
  | .act _ .startUp => some (c, .startUp)
  | .act _ .close => some (c, .close)
  | .act _ (.callback id) =>
    if id ∈ c.pendingClosed then
      some (c.setConns c.conns (c.pendingClosed.erase id), .sessionClosed id)
    else none
  | .act _ .heartbeat => if c.beating then some (c.setBeating false, .beat) else none
  | .act _ (.fight f) =>
    if f ∈ c.fights then some (c.setFights (c.fights.erase f), .fight f) else none
  | .act env action => (c.act env action).map fun r => (r.1, .rest .done)
  | .receive _ true .sGetVote nodeMsg => some (c, .getVote nodeMsg)
  | .receive _ true .sBroadcastLeader nodeMsg => some (c, .broadcastLeader nodeMsg)
  | .receive _ true _ _ => some (c, .rest .done)
  | .receive _ false flag nodeMsg => some (c, .answer flag nodeMsg)

end Cluster

/-- A member with its running goroutines. -/
structure Busy where
  cluster : Cluster
  running : List Point

/-- A goroutine begins, or the one at the place `k` runs its next section. -/
inductive Sched where
  | begin (i : Input)
  | proceed (env : Env) (k : Nat)

/-- The goroutine `p` may run: it does not wait for a lock that another one holds. -/
def Busy.ready (s : Busy) (p : Point) : Bool := !(p.waitsMu && s.running.any Point.holdsMu)

/-- One step of a member with running goroutines. -/
def Busy.step (s : Busy) : Sched → Option Busy
  | .begin i =>
    (s.cluster.begin i).map fun r => { cluster := r.1, running := s.running ++ [r.2] }
  | .proceed env k =>
    match s.running[k]? with
    | none => none
    | some p =>
      if s.ready p then
        let r := s.cluster.proceed env p
        some
          { cluster := r.1
            running := if p = .rest .done then s.running.eraseIdx k else s.running.set k r.2 }
      else none

/-- The member `nodeMy` of a configuration, with its goroutines. -/
def goroutines (conf : Conf) (nodeMy : String) : Machine Busy Sched where
  init := fun s => (member conf nodeMy).init s.cluster ∧ s.running = []
  step := Busy.step

/-! ## What keeps a closed member closed -/

/-- A section of a closed member does not come to `releaseLeader`, nor past the tests of `signLeader`. -/
def Cluster.StaysShut (c : Cluster) (env : Env) : Point → Prop
  | .sign newLeaderNode _ _ =>
    (c.nodes newLeaderNode).term < c.getMyTerm ∨
      ∃ l ∈ c.nodeLeader, l = newLeaderNode ∨ (c.nodes newLeaderNode).term < (c.nodes l).term
  | .replaceLeader nodeMsg =>
    c.getMyTerm < nodeMsg.term → c.nodeLeader = none ∨ c.nodeLeader = some nodeMsg.leaderId
  | .answer _ nodeMsg => c.getMyTerm < nodeMsg.term → c.nodeLeader = none
  | .reply .rLeader nodeMsg => nodeMsg.success = some false → c.nodeLeader ≠ some c.nodeMy
  | .beatFollower =>
    (∀ l ∈ c.nodeLeader, (c.nodes l).isTimeOut env.now c.nodeTimeout →
      (c.nodes l).nodeConnector.isSome) ∧
      (c.nodeLeader = none → env.now - c.lostLeaderTime ≤ 6)
  | _ => True

instance (c : Cluster) (env : Env) (p : Point) : Decidable (c.StaysShut env p) := by
  unfold Cluster.StaysShut
  split <;> infer_instance

/-- `Close` writes `status` when no goroutine is between its last test and its own write, and from then
on no goroutine passes such a test. -/
def Busy.KeepsClosed (s : Busy) : Sched → Prop
  | .begin _ => True
  | .proceed env k =>
    ∀ p ∈ s.running[k]?,
      (p.closes → ∀ q ∈ s.running, q.armed = false) ∧
      (s.cluster.status = .closed → s.cluster.StaysShut env p)

instance (s : Busy) (e : Sched) : Decidable (s.KeepsClosed e) := by
  unfold Busy.KeepsClosed
  split <;> infer_instance

end OwnX.Cluster
