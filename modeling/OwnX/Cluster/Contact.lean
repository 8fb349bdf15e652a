import OwnX.Cluster.Service

/-!
# Elections, heartbeats and messages (`cluster/contact.go`)

One atomic step is a received-message handler, a heartbeat tick, a connection callback, or a stretch
of `fightElection` between two blocking points. A step returns the messages it writes. A message is
addressed to a node; an answer goes back to where the request came from. A write that fails and is
only logged is a message that is never delivered.
-/

set_option linter.dupNamespace false

namespace OwnX.Cluster

/-- What a step reads from its surroundings: the time, a fresh UUID, and which writes of
`sendAndWait` succeed. -/
structure Env where
  now : Int
  uuid : String
  writeOk : String → Bool

/-- Messages to other nodes. -/
abbrev Out := List (String × Flag × NodeMsg)

namespace Cluster

/-! ## `sendAndWait` -/

/-- The beginning of `sendAndWait`: the message goes to every connected node. -/
def sendAndWait (c : Cluster) (env : Env) (flag : Flag) (data : NodeMsg) : Cluster × Out :=
  let data := { data with reqId := env.uuid }
  let sent := c.nodesAll.filter fun id =>
    id ≠ c.nodeMy && (c.nodes id).nodeConnector.isSome && env.writeOk id
  let wait : Wait := { senderNodeMap := sent.map fun id => id ++ "." ++ data.reqId }
  (c.setWait (some wait), sent.map fun id => (id, flag, data))

/-- A handler sends to `sendAndWaitChan`. When the loop of `sendAndWait` has ended, the send fails
with the closing of the channel. -/
def deliver (c : Cluster) (nodeMsg : NodeMsg) : Cluster :=
  match c.sendAndWaitChan with
  | none => c
  | some w =>
    if w.done then c
    else
      let senders := w.senderNodeMap.erase (nodeMsg.nodeId ++ "." ++ nodeMsg.reqId)
      let wait : Wait :=
        { senderNodeMap := senders
          nodeMsgList := w.nodeMsgList ++ [nodeMsg]
          done := senders.isEmpty }
      c.setWait (some wait)

/-- The end of `sendAndWait`: it returns the messages received. -/
def returnWait (c : Cluster) : Cluster × List NodeMsg :=
  (c.setWait none,
    match c.sendAndWaitChan with
    | some w => w.nodeMsgList
    | none => [])

/-! ## `fightElection` -/

/-- The goroutine ends: its deferred functions run. -/
def finishFight (c : Cluster) (needNextTerm : Bool) : Cluster :=
  let c := c.setFighting false
  if needNextTerm then c.goFight .start else c

/-- One turn of the loop that waits for nodes to come online. -/
def waitOnline (c : Cluster) (env : Env) (currentTerm : Int) : Cluster × Out :=
  if c.nodeLeader.isSome then (c.finishFight false, [])
  else if c.hasMajority then
    let r := c.sendAndWait env .sAskLeader { nodeId := c.nodeMy, term := currentTerm }
    (r.1.goFight (.askLeader currentTerm), r.2)
  else (c.goFight (.online currentTerm), [])

/-- From the start of the goroutine to its first loop. -/
def startFight (c : Cluster) (env : Env) : Cluster × Out :=
  if c.status = .closed ∨ c.status = .leader then (c, [])
  else if c.nodeLeader.isSome then (c, [])
  else if c.fighting then (c, [])
  else
    let c := c.setFighting true
    let currentTerm := c.nextTerm
    let r := c.getMyNode.setTerm currentTerm
    if r.2 then (c.setNode c.nodeMy r.1).waitOnline env currentTerm
    else (c.finishFight true, [])

/-- One turn of the vote loop. -/
def voteLoop (c : Cluster) (env : Env) (currentTerm : Int) : Cluster × Out :=
  if c.nodeLeader.isSome then (c.finishFight false, [])
  else if c.status ≠ .candidate then (c.finishFight true, [])
  else if currentTerm < c.getMyTerm then (c.finishFight true, [])
  else if c.hasMajority then
    let r := c.sendAndWait env .sGetVote { nodeId := c.nodeMy, term := c.getMyTerm }
    (r.1.goFight (.getVote currentTerm), r.2)
  else (c.goFight (.vote currentTerm), [])

/-- After the short sleep: the member becomes a candidate and enters the vote loop. -/
def becomeCandidate (c : Cluster) (env : Env) (currentTerm : Int) : Cluster × Out :=
  if c.nodeLeader.isSome then (c.finishFight false, [])
  else if c.status = .closed ∨ c.status = .leader then (c.finishFight false, [])
  else
    let c := if c.status = .follower then c.setStatus .candidate else c
    (c.setNode c.nodeMy c.getMyNode.clear).voteLoop env currentTerm

/-- The member's vote for itself. -/
def voteForMyself (c : Cluster) (currentTerm : Int) : Cluster :=
  let r := c.getMyNode.voteToNode currentTerm c.nodeMy
  c.setNode c.nodeMy (if r.2 then r.1.addVoteCount currentTerm else r.1)

/-- The votes suffice, and no node is known in a later term. -/
def wonVote (c : Cluster) (currentTerm : Int) : Bool :=
  (c.getAllNodeNames.length / 2 : Nat) < c.getMyNode.getVoteCount currentTerm &&
    (c.nodesAll.all fun id => id = c.nodeMy || (c.nodes id).term ≤ currentTerm) &&
    c.getMyTerm ≤ currentTerm

/-- After the wait for votes: the own vote, the count, and the broadcast of the new leader. -/
def countVotes (c : Cluster) (env : Env) (currentTerm : Int) : Cluster × Out :=
  let c := c.returnWait.1.voteForMyself currentTerm
  if c.wonVote currentTerm then
    let r := c.sendAndWait env .sBroadcastLeader
      { nodeId := c.nodeMy, term := currentTerm, leaderId := c.nodeMy, flag := "1" }
    (r.1.goFight (.confirm currentTerm), r.2)
  else (c.finishFight true, [])

/-- The answers to the broadcast confirm the leader. -/
def confirmed (nodeMsgList : List NodeMsg) : Bool :=
  nodeMsgList ≠ [] && nodeMsgList.all fun m => m.success = some true

/-- After the wait for the confirmation: the member signs itself. -/
def confirmLeader (c : Cluster) : Cluster :=
  let r := c.returnWait
  if confirmed r.2 then
    let s := r.1.signLeader c.nodeMy
    s.1.finishFight !s.2
  else r.1.finishFight true

/-- The stretch of `fightElection` that begins where the goroutine was blocked. -/
def fightElection (c : Cluster) (env : Env) : Fight → Cluster × Out
  | .start => c.startFight env
  | .online currentTerm => c.waitOnline env currentTerm
  | .askLeader currentTerm => (c.returnWait.1.goFight (.settle currentTerm), [])
  | .settle currentTerm => c.becomeCandidate env currentTerm
  | .vote currentTerm => c.voteLoop env currentTerm
  | .getVote currentTerm => c.countVotes env currentTerm
  | .confirm _ => (c.confirmLeader, [])

/-! ## Connections -/

/-- `holdConnection` calls `connectToNode`: the connection is open and `OnSessionConnected` has run. A
pass over the nodes goes on after `Close`. -/
def connect (c : Cluster) (id : String) : Option Cluster :=
  if c.holding ∧ c.connecting = none ∧ id ∈ c.nodesAll ∧ id ≠ c.nodeMy ∧
      (c.nodes id).nodeConnector = none then
    some ((({ c with connecting := some (id, c.conns.length) } : Cluster).setConns
      (c.conns ++ [{ peer := id : Conn }]) c.pendingClosed).setAlive
      (if id ∈ c.nodesAlive then c.nodesAlive else c.nodesAlive ++ [id]))
  else none

/-- `connectToNode` goes on after `Connect`. -/
def assignConnector (c : Cluster) : Option Cluster :=
  c.connecting.map fun r =>
    { c with connecting := none }.setNode r.1 { (c.nodes r.1).clear with nodeConnector := some r.2 }

/-- `readIo` of a connection fails and closes the session, because the peer has closed it or because
it was closed here. -/
def readFail (c : Cluster) (k : Nat) : Option Cluster :=
  match c.conns[k]? with
  | some conn =>
    if conn.reading then
      some (c.setConns
        (c.conns.modify k fun conn => { conn with closed := true, reading := false })
        (c.pendingClosed ++ [conn.peer]))
    else none
  | none => none

/-- `readIo` sees that its connection was closed here, and returns. -/
def readStop (c : Cluster) (k : Nat) : Option Cluster :=
  match c.conns[k]? with
  | some conn =>
    if conn.reading && conn.closed then
      some (c.setConns (c.conns.modify k fun conn => { conn with reading := false }) c.pendingClosed)
    else none
  | none => none

/-- `OnSessionClosed` of the connection to `targetNode`. -/
def onSessionClosed (c : Cluster) (env : Env) (targetNode : String) : Cluster :=
  let c := c.setNode targetNode { c.nodes targetNode with nodeConnector := none }
  let c := c.setAlive (c.nodesAlive.erase targetNode)
  if c.nodeLeader = some targetNode then
    if c.status = .closed then c else c.toNextTerm env.now
  else if c.hasMajority then c
  else if c.status = .closed then c
  else if c.fighting then c
  else c.toNextTerm env.now

/-- A started `OnSessionClosed` callback runs. -/
def runCallback (c : Cluster) (env : Env) (id : String) : Option Cluster :=
  if id ∈ c.pendingClosed then
    some ((c.setConns c.conns (c.pendingClosed.erase id)).onSessionClosed env id)
  else none

/-! ## `heartbeat` -/

/-- The other nodes with a connector. -/
def connected (c : Cluster) : List String :=
  c.nodesAll.filter fun id => id ≠ c.nodeMy && (c.nodes id).nodeConnector.isSome

/-- The leader's tick: it closes the connections that timed out and broadcasts itself on the rest. -/
def heartbeatLeader (c : Cluster) (env : Env) : Cluster × Out :=
  let timedOut := fun id => (c.nodes id).isTimeOut env.now c.nodeTimeout
  ((c.connected.filter timedOut).foldl closeConnector c,
    (c.connected.filter fun id => !timedOut id).map fun id =>
      (id, .sBroadcastLeader, { nodeId := c.nodeMy, term := c.getMyTerm, leaderId := c.nodeMy }))

/-- The tick of the other members. -/
def heartbeatFollower (c : Cluster) (env : Env) : Cluster :=
  match c.nodeLeader with
  | some l =>
    if (c.nodes l).isTimeOut env.now c.nodeTimeout then
      if (c.nodes l).nodeConnector.isSome then c.closeConnector l else c.toNextTerm env.now
    else c
  | none => if 6 < env.now - c.lostLeaderTime then c.toNextTerm env.now else c

/-- One turn of the loop of `heartbeat`. -/
def heartbeat (c : Cluster) (env : Env) : Option (Cluster × Out) :=
  if c.beating then
    if c.isReady then
      let r := if c.isLeader then c.heartbeatLeader env else (c.heartbeatFollower env, [])
      some (r.1.setNode c.nodeMy r.1.getMyNode.prune, r.2)
    else if c.isClose then some ({ c with beating := false }, [])
    else some (c, [])
  else none

/-! ## The message handlers -/

/-- A handler records what a message says about the node `id`. -/
def cacheNode (c : Cluster) (env : Env) (id : String) (term : Int) : Cluster :=
  if id ∈ c.nodesAll then c.setNode id (((c.nodes id).setTerm term).1.updateHbTime env.now) else c

/-- What both handlers record of a message they accept. -/
def recordMsg (c : Cluster) (env : Env) (nodeMsg : NodeMsg) : Cluster :=
  let c := c.setNode c.nodeMy (c.getMyNode.setTerm nodeMsg.term).1
  (c.cacheNode env nodeMsg.nodeId nodeMsg.term).cacheNode env nodeMsg.leaderId nodeMsg.term

/-- The answer to `msgSAskLeader`. -/
def answerAskLeader (c : Cluster) (nodeMsg : NodeMsg) : NodeMsg :=
  match c.nodeLeader with
  | some l =>
    if nodeMsg.term ≤ (c.nodes l).term then
      { nodeId := c.nodeMy, term := (c.nodes l).term, reqId := nodeMsg.reqId, leaderId := l }
    else { nodeId := c.nodeMy, term := c.getMyTerm, reqId := nodeMsg.reqId }
  | none => { nodeId := c.nodeMy, term := c.getMyTerm, reqId := nodeMsg.reqId }

/-- The answer `msgRLeader` of a broadcast. -/
def answerLeader (c : Cluster) (nodeMsg : NodeMsg) (success : Bool) : Flag × NodeMsg :=
  (.rLeader,
    { nodeId := c.nodeMy, term := c.getMyTerm, reqId := nodeMsg.reqId, success := some success })

/-- The `msgSGetVote` case. -/
def onGetVote (c : Cluster) (env : Env) (nodeMsg : NodeMsg) : Cluster × List (Flag × NodeMsg) :=
  let c := if c.isLeader then c.releaseLeader env.now else c
  let r := c.getMyNode.voteToNode nodeMsg.term nodeMsg.nodeId
  let answer : NodeMsg :=
    { nodeId := c.nodeMy, term := nodeMsg.term, reqId := nodeMsg.reqId, success := some r.2 }
  (c.setNode c.nodeMy r.1, [(.rGetVote, answer)])

/-- A broadcast that is not stale: another leader of an earlier term is released, and the message is
recorded. -/
def enterTerm (c : Cluster) (env : Env) (nodeMsg : NodeMsg) : Cluster :=
  let c :=
    if c.getMyTerm < nodeMsg.term ∧ c.nodeLeader.isSome ∧ c.nodeLeader ≠ some nodeMsg.leaderId then
      c.releaseLeader env.now
    else c
  c.recordMsg env nodeMsg

/-- The `msgSBroadcastLeader` case. -/
def onBroadcastLeader (c : Cluster) (env : Env) (nodeMsg : NodeMsg) :
    Cluster × List (Flag × NodeMsg) :=
  if nodeMsg.term < c.getMyTerm then (c, [c.answerLeader nodeMsg false])
  else
    let c := c.enterTerm env nodeMsg
    let ok : Flag × NodeMsg := (.ok, { nodeId := c.nodeMy, term := c.getMyTerm })
    if c.nodeLeader = some nodeMsg.leaderId ∧ (c.nodes nodeMsg.leaderId).term = nodeMsg.term then
      (c, ok :: if nodeMsg.flag = "1" then [c.answerLeader nodeMsg true] else [])
    else if nodeMsg.leaderId ∈ c.nodesAll then
      let r := c.signLeader nodeMsg.leaderId
      (r.1, [ok, r.1.answerLeader nodeMsg r.2])
    else (c, [ok])

/-- `OnMessageReceived` of the acceptor: requests, with the answers written to the session. -/
def acceptorReceived (c : Cluster) (env : Env) (flag : Flag) (nodeMsg : NodeMsg) :
    Cluster × List (Flag × NodeMsg) :=
  match flag with
  | .sAskLeader => (c, [(.rAskLeader, c.answerAskLeader nodeMsg)])
  | .sGetVote => c.onGetVote env nodeMsg
  | .sBroadcastLeader => c.onBroadcastLeader env nodeMsg
  | _ => (c, [])

/-- The `msgRAskLeader` case. -/
def onAskLeaderReply (c : Cluster) (nodeMsg : NodeMsg) : Cluster :=
  if nodeMsg.leaderId ≠ "" ∧ nodeMsg.leaderId ∉ c.nodesAlive then c
  else
    let c :=
      if nodeMsg.leaderId ≠ "" ∧ nodeMsg.leaderId ∈ c.nodesAll then (c.signLeader nodeMsg.leaderId).1
      else c
    c.deliver nodeMsg

/-- The `msgRGetVote` case. -/
def onGetVoteReply (c : Cluster) (nodeMsg : NodeMsg) : Cluster :=
  let c :=
    if nodeMsg.success = some true then
      c.setNode c.nodeMy (c.getMyNode.addVoteCount nodeMsg.term)
    else c
  c.deliver nodeMsg

/-- The `msgRLeader` case. -/
def onLeaderReply (c : Cluster) (env : Env) (nodeMsg : NodeMsg) : Cluster :=
  let c :=
    if nodeMsg.success = some false ∧ c.nodeLeader = some c.nodeMy then c.releaseLeader env.now else c
  c.deliver nodeMsg

/-- `OnMessageReceived` of a connection to a node: answers. -/
def nodeReceived (c : Cluster) (env : Env) (flag : Flag) (nodeMsg : NodeMsg) : Cluster :=
  if c.nodeLeader.isSome ∧ c.getMyTerm < nodeMsg.term then c.releaseLeader env.now
  else
    let c := c.recordMsg env nodeMsg
    match flag with
    | .rAskLeader => c.onAskLeaderReply nodeMsg
    | .rGetVote => c.onGetVoteReply nodeMsg
    | .rLeader => c.onLeaderReply env nodeMsg
    | _ => c

/-! ## Steps -/

/-- A goroutine of `fightElection` goes on from where it is blocked. -/
def runFight (c : Cluster) (env : Env) (f : Fight) : Option (Cluster × Out) :=
  if f ∈ c.fights then some ((c.setFights (c.fights.erase f)).fightElection env f) else none

end Cluster

/-- A step of a member other than the receipt of a message. -/
inductive Action where
  | startUp
  | close
  | connect (id : String)
  | assignConnector
  | readFail (k : Nat)
  | readStop (k : Nat)
  | callback (id : String)
  | heartbeat
  | fight (f : Fight)
  deriving DecidableEq, Repr

/-- The step of a member, with the messages it sends. -/
def Cluster.act (c : Cluster) (env : Env) : Action → Option (Cluster × Out)
  | .startUp => some (c.startUp, [])
  | .close => some (c.close, [])
  | .connect id => (c.connect id).map fun c => (c, [])
  | .assignConnector => c.assignConnector.map fun c => (c, [])
  | .readFail k => (c.readFail k).map fun c => (c, [])
  | .readStop k => (c.readStop k).map fun c => (c, [])
  | .callback id => (c.runCallback env id).map fun c => (c, [])
  | .heartbeat => c.heartbeat env
  | .fight f => c.runFight env f

end OwnX.Cluster
