import OwnX.Cluster.Links
import OwnX.Cluster.Proofs.MemberProofs

/-!
# Proofs: the bookkeeping of connections

The callback of a closed connection does not know which connection it belongs to: it takes the node
off line and forgets the connector whatever has happened since. As long as no callback runs while a
newer connection to the node is open, or is open and not yet stored, the bookkeeping is right
whenever nothing is under way.
-/

set_option linter.dupNamespace false

namespace OwnX.Cluster

namespace Cluster

variable {c c' : Cluster} {env : Env}

/-! ## The connections of a member -/

/-- A message leaves the connections alone. -/
theorem links_receive (c : Cluster) (env : Env) (request : Bool) (flag : Flag) (m : NodeMsg) :
    (c.receive env request flag m).links = c.links :=
  congrArg Workings.links (workings_receive c env request flag m)

theorem links_closeConnector (c : Cluster) (id : String) :
    (c.closeConnector id).links = c.links.closeConnector id := by
  unfold closeConnector Links.closeConnector
  simp only [links_nodeConnector]
  cases (c.nodes id).nodeConnector <;> rfl

theorem links_dropConnector (c : Cluster) (id : String) :
    (c.dropConnector id).links = c.links.dropConnector id := by
  unfold dropConnector Links.dropConnector
  rw [links_setNode_eq, links_closeConnector]

theorem links_closeConnectors (c : Cluster) (ids : List String) :
    (ids.foldl closeConnector c).links = ids.foldl Links.closeConnector c.links := by
  induction ids generalizing c with
  | nil => rfl
  | cons id ids ih =>
    rw [List.foldl_cons, List.foldl_cons, ih, links_closeConnector]

theorem links_dropConnectors (c : Cluster) (ids : List String) :
    (ids.foldl dropConnector c).links = ids.foldl Links.dropConnector c.links := by
  induction ids generalizing c with
  | nil => rfl
  | cons id ids ih =>
    rw [List.foldl_cons, List.foldl_cons, ih, links_dropConnector]

theorem links_onSessionClosed (c : Cluster) (env : Env) (id : String) :
    ((c.setConns c.conns (c.pendingClosed.erase id)).onSessionClosed env id).links =
      c.links.callback id := by
  have hset : (((c.setConns c.conns (c.pendingClosed.erase id)).setNode id
      { c.nodes id with nodeConnector := none }).setAlive (c.nodesAlive.erase id)).links =
      c.links.callback id := by
    have hnode := links_setNode_eq (c.setConns c.conns (c.pendingClosed.erase id)) id
      { c.nodes id with nodeConnector := none }
    ext1
    case nodeConnector =>
      have hconn := congrArg Links.nodeConnector hnode
      exact hconn
    all_goals rfl
  unfold onSessionClosed
  simp only
  split_ifs <;> exact hset

theorem links_prune (h : c'.registry = c.registry) :
    (c'.setNode c.nodeMy c.getMyNode.prune).links = c'.links := by
  simp only [registry, Prod.mk.injEq] at h
  apply links_setNode
  rw [h.2.2]
  rfl

theorem links_heartbeatFollower : c.links.Moves none (c.heartbeatFollower env).links := by
  unfold heartbeatFollower
  split
  · split_ifs
    · rw [links_closeConnector]
      exact .timeOut [_]
    · exact .keep
    · exact .keep
  · split_ifs
    · exact .keep
    · exact .keep

theorem links_heartbeat {out : Out} (h : Acts env c .heartbeat c' out) :
    c.links.Moves none c'.links := by
  cases h with
  | leads =>
    rw [links_prune registry_heartbeatLeader]
    unfold heartbeatLeader
    rw [links_closeConnectors]
    exact .timeOut _
  | follows =>
    rw [links_prune registry_heartbeatFollower]
    exact links_heartbeatFollower
  | idle => exact .keep

/-- A step of its own moves the connections of a member. -/
theorem links_act {a : Action} {out : Out} (h : c.act env a = some (c', out)) :
    c.links.Moves (match a with | .callback id => some id | _ => none) c'.links := by
  cases a with
  | startUp =>
    cases h
    have hkeep : c.startUp.links = c.links := congrArg Workings.links workings_startUp
    rw [hkeep]
    exact .keep
  | close =>
    cases h
    simp only
    unfold close
    split_ifs
    · exact .keep
    · rw [links_dropConnectors]
      exact .close _
  | connect id =>
    obtain ⟨c₁, h₁, he⟩ := Option.map_eq_some_iff.mp h
    cases he
    simp only [connect, Option.ite_none_right_eq_some, Option.some.injEq] at h₁
    obtain ⟨⟨-, hcon, -, -, hid⟩, rfl⟩ := h₁
    exact .connect hcon hid
  | assignConnector =>
    obtain ⟨c₁, h₁, he⟩ := Option.map_eq_some_iff.mp h
    cases he
    obtain ⟨⟨id, k⟩, hcon, rfl⟩ := Option.map_eq_some_iff.mp h₁
    rw [links_setNode_eq]
    exact .assign hcon
  | readFail k =>
    obtain ⟨c₁, h₁, he⟩ := Option.map_eq_some_iff.mp h
    cases he
    unfold readFail at h₁
    split at h₁
    · rename_i conn hconn
      simp only [Option.ite_none_right_eq_some, Option.some.injEq] at h₁
      obtain ⟨-, rfl⟩ := h₁
      exact .readFail hconn
    · cases h₁
  | readStop k =>
    obtain ⟨c₁, h₁, he⟩ := Option.map_eq_some_iff.mp h
    cases he
    unfold readStop at h₁
    split at h₁
    · simp only [Option.ite_none_right_eq_some, Option.some.injEq] at h₁
      obtain ⟨-, rfl⟩ := h₁
      have hstop := Links.Moves.readStop (l := c.links) k
      unfold Links.change at hstop
      rw [List.append_nil] at hstop
      exact hstop
    · cases h₁
  | callback id =>
    obtain ⟨c₁, h₁, he⟩ := Option.map_eq_some_iff.mp h
    cases he
    simp only [runCallback, Option.ite_none_right_eq_some, Option.some.injEq] at h₁
    obtain ⟨hid, rfl⟩ := h₁
    rw [links_onSessionClosed]
    exact .callback hid
  | heartbeat => exact links_heartbeat (acts_of_act h)
  | fight f =>
    simp only [act, runFight, Option.ite_none_right_eq_some, Option.some.injEq] at h
    obtain ⟨-, h⟩ := h
    have hkeep : c'.links = c.links := by
      have hfight := links_fightElection (c.setFights (c.fights.erase f)) env f
      rw [h] at hfight
      exact hfight
    simp only
    rw [hkeep]
    exact .keep

end Cluster

namespace Links

variable {l l' : Links} {id n : String} {k : Nat} {f : Conn → Conn} {ids : List String}

/-! ## The most recent connection -/

theorem latest_connect : (l.connect id).latest n = if n = id then some l.conns.length else l.latest n := by
  unfold latest
  simp only [connect_conns, List.map_append, List.map_cons, List.map_nil, List.reverse_append,
    List.reverse_cons, List.reverse_nil, List.nil_append, List.singleton_append, List.idxOf?_cons,
    List.length_append, List.length_cons, List.length_nil]
  by_cases hn : n = id
  · simp [hn]
  · have hne : (id == n) = false := by simpa using fun he => hn he.symm
    rw [if_neg hn, hne]
    simp only [Bool.false_eq_true, if_false, Option.map_map]
    congr 1
    funext i
    simp only [Function.comp_apply]
    omega

theorem latest_change (hf : ∀ conn, (f conn).peer = conn.peer) :
    (l.change k f ids).latest n = l.latest n := by
  have hpeers : (l.conns.modify k f).map Conn.peer = l.conns.map Conn.peer := by
    apply List.ext_getElem?
    intro i
    simp only [List.getElem?_map, List.getElem?_modify]
    cases l.conns[i]? with
    | none => rfl
    | some conn =>
      show Option.map Conn.peer (some (if k = i then f conn else conn)) = some conn.peer
      split_ifs
      · exact congrArg some (hf conn)
      · rfl
  unfold latest
  rw [change_conns, hpeers, List.length_modify]

/-- The most recent connection to a node is a connection to it. -/
theorem latest_get (h : l.latest n = some k) : ∃ conn, l.conns[k]? = some conn ∧ conn.peer = n := by
  obtain ⟨i, hi, rfl⟩ := Option.map_eq_some_iff.mp h
  obtain ⟨hlt, hget, -⟩ := List.idxOf?_eq_some_iff.mp hi
  have hrev : (l.conns.map Conn.peer).reverse[i]? = some n := by
    rw [List.getElem?_eq_getElem hlt, hget]
  rw [List.length_reverse] at hlt
  rw [List.getElem?_reverse hlt, List.length_map, List.getElem?_map] at hrev
  exact Option.map_eq_some_iff.mp hrev

theorem latest_lt (h : l.latest n = some k) : k < l.conns.length := by
  obtain ⟨conn, hconn, -⟩ := latest_get h
  exact (List.getElem?_eq_some_iff.mp hconn).1

theorem isOpen_of_latest (h : l.latest n = some k) :
    l.isOpen n = (l.conns[k]?).any fun conn => !conn.closed := by
  unfold isOpen
  rw [h]

theorem isOpen_connect_self : (l.connect id).isOpen id = true := by
  have hlast : (l.connect id).latest id = some l.conns.length := by
    rw [latest_connect, if_pos rfl]
  rw [isOpen_of_latest hlast, connect_conns, List.getElem?_concat_length]
  rfl

theorem isOpen_connect (hn : n ≠ id) : (l.connect id).isOpen n = l.isOpen n := by
  have hlast : (l.connect id).latest n = l.latest n := by
    rw [latest_connect, if_neg hn]
  cases hk : l.latest n with
  | none =>
    unfold isOpen
    rw [hlast, hk]
  | some k =>
    rw [isOpen_of_latest (hlast.trans hk), isOpen_of_latest hk, connect_conns,
      List.getElem?_append_left (latest_lt hk)]

/-- A change of the connection `k` is seen by the node whose most recent connection it is. -/
theorem isOpen_change (hf : ∀ conn, (f conn).peer = conn.peer) :
    (l.change k f ids).isOpen n =
      if l.latest n = some k then (l.conns[k]?).any fun conn => !(f conn).closed
      else l.isOpen n := by
  have hlast : (l.change k f ids).latest n = l.latest n := latest_change hf
  cases hj : l.latest n with
  | none =>
    rw [if_neg (by simp)]
    unfold isOpen
    rw [hlast, hj]
  | some j =>
    rw [isOpen_of_latest (hlast.trans hj), change_conns, List.getElem?_modify]
    by_cases he : k = j
    · subst he
      rw [if_pos rfl]
      cases l.conns[k]? <;> simp
    · rw [if_neg (fun h => he (Option.some.inj h).symm), isOpen_of_latest hj]
      cases l.conns[j]? <;> simp [he]

/-! ## The bookkeeping of all nodes -/

/-- The connector of a node is its most recent connection, and so is the one to be stored. An open
connection is stored, or about to be; a closed one is forgotten, or a callback is to come. -/
structure Kept (l : Links) : Prop where
  connector : ∀ n k, l.nodeConnector n = some k → l.latest n = some k
  connecting : ∀ n k, l.connecting = some (n, k) → l.latest n = some k ∧ l.nodeConnector n = none
  opened : ∀ n, l.isOpen n = true →
    n ∈ l.nodesAlive ∧ ((l.nodeConnector n).isSome ∨ ∃ k, l.connecting = some (n, k))
  closed : ∀ n, l.isOpen n = false → n ∈ l.pendingClosed ∨
    n ∉ l.nodesAlive ∧ l.nodeConnector n = none ∧ ∀ k, l.connecting ≠ some (n, k)

namespace Kept

/-- When nothing is under way for a node, its bookkeeping is right. -/
theorem inStep (h : l.Kept) (hp : n ∉ l.pendingClosed) (hc : ∀ k, l.connecting ≠ some (n, k)) :
    l.InStep n := by
  cases hopen : l.isOpen n with
  | true =>
    obtain ⟨halive, hsome | ⟨k, hk⟩⟩ := h.opened n hopen
    · exact ⟨⟨fun _ => halive, fun _ => hsome⟩, ⟨fun _ => hopen, fun _ => halive⟩⟩
    · exact absurd hk (hc k)
  | false =>
    obtain ⟨halive, hnone, -⟩ := (h.closed n hopen).resolve_left hp
    refine ⟨⟨fun hs => ?_, fun ha => absurd ha halive⟩, ⟨fun ha => absurd ha halive, fun ho => ?_⟩⟩
    · rw [hnone] at hs
      cases hs
    · cases hopen.symm.trans ho

theorem connect (h : l.Kept) (hc : l.connecting = none) (hid : l.nodeConnector id = none) :
    (l.connect id).Kept := by
  constructor
  case connector =>
    intro n k hk
    have hne : n ≠ id := by
      rintro rfl
      cases hid.symm.trans hk
    rw [latest_connect, if_neg hne]
    exact h.connector n k hk
  case connecting =>
    intro n k hk
    obtain ⟨rfl, rfl⟩ : id = n ∧ l.conns.length = k := by simpa using hk
    rw [latest_connect, if_pos rfl]
    exact ⟨rfl, hid⟩
  case opened =>
    intro n hopen
    by_cases hn : n = id
    · subst hn
      refine ⟨?_, Or.inr ⟨_, rfl⟩⟩
      rw [connect_nodesAlive]
      split_ifs with hmem
      · exact hmem
      · simp
    · rw [isOpen_connect hn] at hopen
      obtain ⟨halive, hsome | ⟨k, hk⟩⟩ := h.opened n hopen
      · refine ⟨?_, Or.inl hsome⟩
        rw [connect_nodesAlive]
        split_ifs
        · exact halive
        · exact List.mem_append_left _ halive
      · cases hc.symm.trans hk
  case closed =>
    intro n hclosed
    have hn : n ≠ id := by
      rintro rfl
      cases hclosed.symm.trans isOpen_connect_self
    rw [isOpen_connect hn] at hclosed
    rcases h.closed n hclosed with hp | ⟨halive, hnone, -⟩
    · exact Or.inl hp
    · refine Or.inr ⟨?_, hnone, fun k hk => ?_⟩
      · rw [connect_nodesAlive]
        split_ifs
        · exact halive
        · simp [halive, hn]
      · simp only [connect_connecting, Option.some.injEq, Prod.mk.injEq] at hk
        exact hn hk.1.symm

theorem assign (h : l.Kept) (hc : l.connecting = some (id, k)) : (l.assign id k).Kept := by
  obtain ⟨hlast, hnone⟩ := h.connecting id k hc
  have hconn : ∀ n, (l.assign id k).nodeConnector n = if n = id then some k else l.nodeConnector n :=
    fun n => rfl
  constructor
  case connector =>
    intro n j hj
    rw [hconn] at hj
    split_ifs at hj with hn
    · rw [hn, ← hj]
      exact hlast
    · exact h.connector n j hj
  case connecting =>
    intro n j hj
    cases hj
  case opened =>
    intro n hopen
    obtain ⟨halive, hrest⟩ := h.opened n hopen
    refine ⟨halive, Or.inl ?_⟩
    rw [hconn]
    split_ifs with hn
    · rfl
    · rcases hrest with hsome | ⟨j, hj⟩
      · exact hsome
      · cases hc.symm.trans hj
        exact absurd rfl hn
  case closed =>
    intro n hclosed
    rcases h.closed n hclosed with hp | ⟨halive, hnone, hcon⟩
    · exact Or.inl hp
    · have hn : n ≠ id := by
        rintro rfl
        exact hcon k hc
      refine Or.inr ⟨halive, ?_, fun j hj => by cases hj⟩
      rw [hconn, if_neg hn]
      exact hnone

/-- A connection is closed, and the callback of its node is started. -/
theorem change_closed (h : l.Kept) {conn : Conn} (hk : l.conns[k]? = some conn)
    (hf : ∀ conn, (f conn).peer = conn.peer) (hcl : ∀ conn, (f conn).closed = true) :
    (l.change k f [conn.peer]).Kept := by
  have hopen : ∀ n, (l.change k f [conn.peer]).isOpen n = true → l.isOpen n = true := by
    intro n hn
    rw [isOpen_change hf] at hn
    split_ifs at hn
    · simp [hk, hcl] at hn
    · exact hn
  constructor
  case connector =>
    intro n j hj
    rw [latest_change hf]
    exact h.connector n j hj
  case connecting =>
    intro n j hj
    rw [latest_change hf]
    exact h.connecting n j hj
  case opened => exact fun n hn => h.opened n (hopen n hn)
  case closed =>
    intro n hclosed
    rw [isOpen_change hf] at hclosed
    split_ifs at hclosed with hlast
    · obtain ⟨conn', hconn', hpeer⟩ := latest_get hlast
      have heq : conn' = conn := Option.some.inj (hconn'.symm.trans hk)
      left
      rw [change_pendingClosed, ← hpeer, heq]
      simp
    · rcases h.closed n hclosed with hp | hrest
      · exact Or.inl (List.mem_append_left _ hp)
      · exact Or.inr hrest

theorem readStop (h : l.Kept) (k : Nat) :
    (l.change k (fun conn => { conn with reading := false }) []).Kept := by
  have hlast : ∀ n, (l.change k (fun conn => { conn with reading := false }) []).latest n =
      l.latest n := fun n => latest_change fun _ => rfl
  have hopen : ∀ n, (l.change k (fun conn => { conn with reading := false }) []).isOpen n =
      l.isOpen n := by
    intro n
    rw [isOpen_change]
    · split_ifs with hn
      · rw [isOpen_of_latest hn]
      · rfl
    · exact fun _ => rfl
  constructor
  case connector =>
    intro n j hj
    rw [hlast]
    exact h.connector n j hj
  case connecting =>
    intro n j hj
    rw [hlast]
    exact h.connecting n j hj
  case opened =>
    intro n hn
    rw [hopen] at hn
    exact h.opened n hn
  case closed =>
    intro n hn
    rw [hopen] at hn
    rw [change_pendingClosed, List.append_nil]
    exact h.closed n hn

theorem closeConnector (h : l.Kept) (id : String) : (l.closeConnector id).Kept := by
  unfold Links.closeConnector
  split
  · rename_i k hk
    obtain ⟨conn, hconn, rfl⟩ := latest_get (h.connector id k hk)
    exact h.change_closed hconn (fun _ => rfl) fun _ => rfl
  · exact h

/-- The connector of a node whose most recent connection is not open is forgotten. -/
theorem forget (h : l.Kept) (hid : l.isOpen id = true → l.nodeConnector id = none) :
    (l.setConnector id none).Kept := by
  constructor
  case connector =>
    intro n k hk
    rw [setConnector_nodeConnector] at hk
    split_ifs at hk
    exact h.connector n k hk
  case connecting =>
    intro n k hk
    obtain ⟨hlast, hnone⟩ := h.connecting n k hk
    refine ⟨hlast, ?_⟩
    rw [setConnector_nodeConnector, hnone, ite_self]
  case opened =>
    intro n hopen
    obtain ⟨halive, hrest⟩ := h.opened n hopen
    refine ⟨halive, ?_⟩
    rw [setConnector_nodeConnector]
    split_ifs with hn
    · rcases hrest with hsome | hcon
      · rw [hn, hid (hn ▸ hopen)] at hsome
        cases hsome
      · exact Or.inr hcon
    · exact hrest
  case closed =>
    intro n hclosed
    rcases h.closed n hclosed with hp | ⟨halive, hnone, hcon⟩
    · exact Or.inl hp
    · refine Or.inr ⟨halive, ?_, hcon⟩
      rw [setConnector_nodeConnector, hnone, ite_self]

theorem dropConnector (h : l.Kept) (id : String) : (l.dropConnector id).Kept := by
  apply (h.closeConnector id).forget
  intro hopen
  unfold Links.closeConnector at hopen ⊢
  split at hopen
  · rename_i k hk
    have hlast := h.connector id k hk
    obtain ⟨conn, hconn, -⟩ := latest_get hlast
    rw [isOpen_change, if_pos hlast, hconn] at hopen
    · cases hopen
    · exact fun _ => rfl
  · rename_i hnone
    exact hnone

/-- A callback runs for a node whose most recent connection is closed, and which is not being
connected. -/
theorem callback (h : l.Kept) (hnd : l.nodesAlive.Nodup) (hid : l.isOpen id = false)
    (hcon : ∀ k, l.connecting ≠ some (id, k)) : (l.callback id).Kept := by
  have hconn : ∀ n, (l.callback id).nodeConnector n = if n = id then none else l.nodeConnector n :=
    fun n => rfl
  constructor
  case connector =>
    intro n k hk
    rw [hconn] at hk
    split_ifs at hk
    exact h.connector n k hk
  case connecting =>
    intro n k hk
    obtain ⟨hlast, hnone⟩ := h.connecting n k hk
    refine ⟨hlast, ?_⟩
    rw [hconn, hnone, ite_self]
  case opened =>
    intro n hopen
    have hn : n ≠ id := by
      rintro rfl
      cases hid.symm.trans hopen
    obtain ⟨halive, hrest⟩ := h.opened n hopen
    rw [hconn, if_neg hn]
    exact ⟨(List.mem_erase_of_ne hn).mpr halive, hrest⟩
  case closed =>
    intro n hclosed
    rw [hconn]
    by_cases hn : n = id
    · subst hn
      rw [if_pos rfl]
      exact Or.inr ⟨hnd.not_mem_erase, rfl, hcon⟩
    · rw [if_neg hn]
      rcases h.closed n hclosed with hp | ⟨halive, hrest⟩
      · exact Or.inl ((List.mem_erase_of_ne hn).mpr hp)
      · exact Or.inr ⟨fun hmem => halive (List.mem_of_mem_erase hmem), hrest⟩

end Kept

theorem nodup_connect (h : l.nodesAlive.Nodup) (id : String) : (l.connect id).nodesAlive.Nodup := by
  rw [connect_nodesAlive]
  split_ifs with hmem
  · exact h
  · exact List.nodup_append.mpr ⟨h, List.nodup_singleton id, fun a ha b hb => by
      rintro rfl
      exact hmem (List.mem_singleton.mp hb ▸ ha)⟩

theorem nodesAlive_closeConnector (l : Links) (id : String) :
    (l.closeConnector id).nodesAlive = l.nodesAlive := by
  unfold closeConnector
  split <;> rfl

/-- No node is online twice, whatever is done. -/
theorem Moves.nodup {label : Option String} (h : l.Moves label l') (hnd : l.nodesAlive.Nodup) :
    l'.nodesAlive.Nodup := by
  cases h with
  | connect => exact nodup_connect hnd _
  | timeOut ids =>
    refine List.foldlRecOn (motive := fun l' => Links.nodesAlive l' |>.Nodup) ids _ hnd ?_
    intro l₁ h₁ id _
    rw [nodesAlive_closeConnector]
    exact h₁
  | close ids =>
    refine List.foldlRecOn (motive := fun l' => Links.nodesAlive l' |>.Nodup) ids _ hnd ?_
    intro l₁ h₁ id _
    show (l₁.closeConnector id).nodesAlive.Nodup
    rw [nodesAlive_closeConnector]
    exact h₁
  | callback => exact hnd.erase _
  | _ => exact hnd

/-- A step keeps the bookkeeping, if it is not a callback, or one that is due. -/
theorem Moves.kept {label : Option String} (hm : l.Moves label l') (h : l.Kept)
    (hnd : l.nodesAlive.Nodup)
    (hdue : ∀ id, label = some id → l.isOpen id = false ∧ ∀ k, l.connecting ≠ some (id, k)) :
    l'.Kept := by
  cases hm with
  | keep => exact h
  | connect hc hid => exact h.connect hc hid
  | assign hc => exact h.assign hc
  | readFail hk => exact h.change_closed hk (fun _ => rfl) fun _ => rfl
  | readStop k => exact h.readStop k
  | timeOut ids => exact List.foldlRecOn ids _ h fun l hl id _ => hl.closeConnector id
  | close ids => exact List.foldlRecOn ids _ h fun l hl id _ => hl.dropConnector id
  | callback hid =>
    obtain ⟨hopen, hcon⟩ := hdue _ rfl
    exact h.callback hnd hopen hcon

end Links

/-! ## Runs -/

/-- A callback runs only for a node whose most recent connection is closed, and while `connectToNode`
is not about to store a connection to it. -/
def Cluster.CallbackDue (c : Cluster) : Input → Prop
  | .act _ (.callback id) => c.links.isOpen id = false ∧ c.connecting.map Prod.fst ≠ some id
  | _ => True

instance (c : Cluster) (i : Input) : Decidable (c.CallbackDue i) := by
  unfold Cluster.CallbackDue
  split <;> infer_instance

open Cluster

variable {conf : Conf} {my : String} {c c' : Cluster} {i : Input}

/-- A step of a member moves its connections. A callback is a step of its own. -/
theorem links_step (hs : c.step i = some c') :
    ∃ label, c.links.Moves label c'.links ∧
      ∀ id, label = some id → ∃ env, i = .act env (.callback id) := by
  cases i with
  | act env a =>
    obtain ⟨⟨c₁, out⟩, hr, rfl⟩ := Option.map_eq_some_iff.mp hs
    refine ⟨_, links_act hr, ?_⟩
    intro id hid
    cases a with
    | callback id' =>
      cases hid
      exact ⟨env, rfl⟩
    | _ => cases hid
  | receive env request flag m =>
    cases hs
    refine ⟨none, ?_, fun id hid => by cases hid⟩
    rw [links_receive]
    exact .keep

theorem links_create (conf : Conf) (my : String) (now : Int) :
    (create conf my now).links = ⟨[], [], none, [], fun _ => none⟩ := by
  have hload : ∀ (nodes : List NodeConf) (c : Cluster), c.links = ⟨[], [], none, [], fun _ => none⟩ →
      (c.loadAllNodes nodes).links = ⟨[], [], none, [], fun _ => none⟩ := by
    intro nodes
    induction nodes with
    | nil => exact fun c hc => hc
    | cons n nodes ih =>
      intro c hc
      apply ih
      have hset : (c.setNode n.id { name := if n.name = "" then n.ip else n.name }).links = c.links := by
        apply links_setNode
        exact (congrFun (congrArg Links.nodeConnector hc) n.id).symm
      rw [← hc]
      exact hset
  exact hload conf.nodes _ rfl

theorem alive_nodup {ok : Cluster → Input → Prop} (h : (member conf my).ReachableWhen ok c) :
    c.nodesAlive.Nodup := by
  refine h.invariant (fun c => c.links.nodesAlive.Nodup) ?_ ?_
  · rintro c ⟨now, rfl⟩
    rw [links_create]
    exact List.nodup_nil
  · intro c i c' _ hnd _ hs
    obtain ⟨label, hm, -⟩ := links_step hs
    exact hm.nodup hnd

theorem kept_create (conf : Conf) (my : String) (now : Int) : (create conf my now).links.Kept := by
  rw [links_create]
  refine ⟨fun n k hk => ?_, fun n k hk => ?_, fun n hn => ?_, fun n _ => ?_⟩
  · cases hk
  · cases hk
  · cases hn
  · exact Or.inr ⟨List.not_mem_nil, rfl, fun k hk => by cases hk⟩

/-- The bookkeeping of a node is right whenever no callback and no `connectToNode` is under way for
it, in every run whose callbacks are due when they run. -/
theorem connection_in_step (h : (member conf my).ReachableWhen Cluster.CallbackDue c) {n : String}
    (hp : n ∉ c.pendingClosed) (hc : ∀ k, c.connecting ≠ some (n, k)) :
    ((c.nodes n).nodeConnector.isSome ↔ n ∈ c.nodesAlive) ∧
      (n ∈ c.nodesAlive ↔ c.links.isOpen n) := by
  have hkept : c.links.Kept := by
    refine h.invariant (fun c => c.links.Kept) ?_ ?_
    · rintro c ⟨now, rfl⟩
      exact kept_create conf my now
    · intro c i c' hr hk hdue hs
      obtain ⟨label, hm, hlabel⟩ := links_step hs
      apply hm.kept hk (alive_nodup hr)
      intro id hid
      obtain ⟨env, rfl⟩ := hlabel id hid
      refine ⟨hdue.1, fun k hk => hdue.2 ?_⟩
      rw [show c.connecting = some (id, k) from hk]
      rfl
  exact hkept.inStep hp hc

/-- The connection to `b:1` breaks, and `b:1` is connected again. -/
theorem connection_in_step_again :
    ∃ c, (member twoNodes "a:1").ReachableWhen Cluster.CallbackDue c ∧ c.conns.length = 2 ∧
      "b:1" ∉ c.pendingClosed ∧ (∀ k, c.connecting ≠ some ("b:1", k)) ∧ c.links.isOpen "b:1" ∧
      "b:1" ∈ c.nodesAlive ∧ (c.nodes "b:1").nodeConnector.isSome := by
  have hrun : (((member twoNodes "a:1").restrict Cluster.CallbackDue).run (create twoNodes "a:1" 0)
      [does 0 .startUp, does 0 (.connect "b:1"), does 0 .assignConnector, does 0 (.readFail 0),
        does 0 (.callback "b:1"), does 0 (.connect "b:1"), does 0 .assignConnector]).map
      (fun c => (c.conns.length, c.pendingClosed, c.connecting, c.links.isOpen "b:1")) =
      some (2, [], none, true) := by
    decide
  obtain ⟨c, hr, he⟩ := Machine.observedWhen_of_run hrun ⟨0, rfl⟩
  simp only [Prod.mk.injEq] at he
  obtain ⟨hlen, hnil, hnone, hopen⟩ := he
  have hp : "b:1" ∉ c.pendingClosed := by
    rw [hnil]
    exact List.not_mem_nil
  have hc : ∀ k, c.connecting ≠ some ("b:1", k) := by
    intro k hk
    cases hnone.symm.trans hk
  obtain ⟨hconn, halive⟩ := connection_in_step hr hp hc
  exact ⟨c, hr, hlen, hp, hc, hopen, halive.mpr hopen, hconn.mpr (halive.mpr hopen)⟩

/-- The connection breaks at once, and its callback runs before `connectToNode` stores it: a closed
connector is stored for a node that is off line, and `holdConnection` never connects again. -/
theorem closed_connector_stored :
    ∃ c, (member twoNodes "a:1").Reachable c ∧ c.pendingClosed = [] ∧ c.connecting = none ∧
      (c.nodes "b:1").nodeConnector = some 0 ∧ "b:1" ∉ c.nodesAlive ∧
      c.links.isOpen "b:1" = false := by
  have hrun : ((member twoNodes "a:1").run (create twoNodes "a:1" 0)
      [does 0 .startUp, does 0 (.connect "b:1"), does 0 (.readFail 0), does 0 (.callback "b:1"),
        does 0 .assignConnector]).map
      (fun c => (c.pendingClosed, c.connecting, (c.nodes "b:1").nodeConnector, c.nodesAlive,
        c.links.isOpen "b:1")) = some ([], none, some 0, [], false) := by
    decide
  obtain ⟨c, hr, he⟩ := Machine.observed_of_run hrun ⟨0, rfl⟩
  simp only [Prod.mk.injEq] at he
  obtain ⟨hnil, hnone, hconn, halive, hopen⟩ := he
  refine ⟨c, hr, hnil, hnone, hconn, ?_, hopen⟩
  rw [halive]
  exact List.not_mem_nil

/-! ## Callbacks that are not due -/

theorem run_member_cons {is : List Input} (hs : c.step i = some c') :
    (member conf my).run c (i :: is) = (member conf my).run c' is :=
  Machine.run_cons (M := member conf my) (s := c) (e := i) hs

/-- The callbacks still to run can all run now. They leave the connections, and take nodes off line
only. -/
theorem callbacks_drain (conf : Conf) (my : String) (env : Env) (c : Cluster) :
    ∃ is c', (member conf my).run c is = some c' ∧ c'.pendingClosed = [] ∧ c'.conns = c.conns ∧
      c'.connecting = c.connecting ∧ c'.nodesAlive ⊆ c.nodesAlive := by
  generalize hp : c.pendingClosed = pending
  induction pending generalizing c with
  | nil => exact ⟨[], c, rfl, hp, rfl, rfl, fun _ h => h⟩
  | cons id rest ih =>
    have hstep : c.step (.act env (.callback id)) =
        some ((c.setConns c.conns (c.pendingClosed.erase id)).onSessionClosed env id) := by
      simp [step, act, runCallback, hp]
    have hlinks := links_onSessionClosed c env id
    generalize (c.setConns c.conns (c.pendingClosed.erase id)).onSessionClosed env id = c₁
      at hstep hlinks
    have hrest : c₁.pendingClosed = rest := by
      have hpend := congrArg Links.pendingClosed hlinks
      rw [links_pendingClosed] at hpend
      rw [hpend]
      show c.pendingClosed.erase id = rest
      rw [hp, List.erase_cons_head]
    have halive : c₁.nodesAlive = c.nodesAlive.erase id := congrArg Links.nodesAlive hlinks
    obtain ⟨is, c', hrun, hnil, hconns, hcon, hsub⟩ := ih c₁ hrest
    refine ⟨.act env (.callback id) :: is, c', ?_, hnil, hconns.trans (congrArg Links.conns hlinks),
      hcon.trans (congrArg Links.connecting hlinks), fun n hn => ?_⟩
    · exact (run_member_cons hstep).trans hrun
    · have hmem := hsub hn
      rw [halive] at hmem
      exact List.mem_of_mem_erase hmem

/-- A callback that is not due breaks the bookkeeping of its node: when the other callbacks have run
and a connection under way is stored, nothing is under way any more and the node is out of step. -/
theorem callback_breaks {env : Env} {n : String} (h : (member conf my).Reachable c)
    (hs : c.step (.act env (.callback n)) = some c')
    (hdue : ¬ c.CallbackDue (.act env (.callback n))) :
    ∃ is c'', (member conf my).run c' is = some c'' ∧ c''.pendingClosed = [] ∧
      c''.connecting = none ∧ ¬ c''.links.InStep n := by
  have hlinks : c'.links = c.links.callback n := by
    obtain ⟨⟨c₁, out⟩, hr, rfl⟩ := Option.map_eq_some_iff.mp hs
    obtain ⟨c₂, h₂, he⟩ := Option.map_eq_some_iff.mp hr
    cases he
    simp only [runCallback, Option.ite_none_right_eq_some, Option.some.injEq] at h₂
    obtain ⟨-, rfl⟩ := h₂
    exact links_onSessionClosed c env n
  have hoff : n ∉ c'.nodesAlive := by
    have halive : c'.nodesAlive = c.nodesAlive.erase n := congrArg Links.nodesAlive hlinks
    rw [halive]
    exact (alive_nodup h).not_mem_erase
  obtain ⟨is, c₁, hrun, hnil, hconns, hcon, hsub⟩ := callbacks_drain conf my env c'
  have hoff₁ : n ∉ c₁.nodesAlive := fun hmem => hoff (hsub hmem)
  have hopen : c₁.links.isOpen n = c.links.isOpen n := by
    have he : c₁.conns = c.conns := hconns.trans (congrArg Links.conns hlinks)
    unfold Links.isOpen Links.latest
    rw [links_conns, he]
    rfl
  have hcon₁ : c₁.connecting = c.connecting := hcon.trans (congrArg Links.connecting hlinks)
  cases hc : c.connecting with
  | none =>
    refine ⟨is, c₁, hrun, hnil, hcon₁.trans hc, fun hin => ?_⟩
    have hlate : c.links.isOpen n = true := by
      by_contra hclosed
      exact hdue ⟨by simpa using hclosed, by simp [hc]⟩
    exact hoff₁ (hin.2.mpr (hopen.trans hlate))
  | some r =>
    -- the connection under way is stored last
    obtain ⟨m, k⟩ := r
    have hassign : c₁.step (.act env .assignConnector) = some ({ c₁ with connecting := none }.setNode m
        { (c₁.nodes m).clear with nodeConnector := some k }) := by
      simp [step, act, assignConnector, hcon₁, hc]
    have hrun₂ : (member conf my).run c' (is ++ [.act env .assignConnector]) = _ :=
      (Machine.run_append hrun).trans (run_member_cons hassign)
    refine ⟨_, _, hrun₂, hnil, rfl, fun hin => ?_⟩
    by_cases hm : n = m
    · subst hm
      refine hoff₁ (hin.1.mp ?_)
      show (if n = n then _ else _ : Node).nodeConnector.isSome = true
      rw [if_pos rfl]
      rfl
    · have hlate : c.links.isOpen n = true := by
        by_contra hclosed
        exact hdue ⟨by simpa using hclosed, by simpa [hc] using fun he => hm he.symm⟩
      exact hoff₁ (hin.2.mpr (hopen.trans hlate))

end OwnX.Cluster
