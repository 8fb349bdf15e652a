import OwnX.Cluster.Member
import OwnX.Cluster.Network
import OwnX.Cluster.Proofs.ContactProofs
import OwnX.Foundations.Proofs.QuorumProofs
import Mathlib.Data.Multiset.Count

/-!
# Proofs: one winner per term

The history of a run records, for each member and term, the first vote the member gave. A candidate's
counter and the positive answers on their way to it together never exceed the votes recorded for it.
-/

set_option linter.dupNamespace false

namespace OwnX.Cluster

/-! ## The steps of the network -/

/-- The steps of the network; the message received has been taken out. -/
inductive Steps (ids : List String) : Network → Event → Network → Prop where
  | act {s : Network} {id : String} {env : Env} {a : Action} {c : Cluster} {out : Out} (hid : id ∈ ids)
      (h : Cluster.Acts env (s.members id) a c out) :
      Steps ids s (.act id env a) ((s.setMember id c).send (Network.requests id out))
  | receive (s : Network) (env : Env) (p : Packet) :
      Steps ids { s with packets := p ::ₘ s.packets } (.receive env p) (s.handle env p)

theorem steps_of_step {ids : List String} {s s' : Network} {e : Event}
    (h : Network.step ids s e = some s') : Steps ids s e s' := by
  cases e with
  | act id env a =>
    simp only [Network.step, Option.ite_none_right_eq_some, Option.map_eq_some_iff] at h
    obtain ⟨hid, ⟨c, out⟩, hact, rfl⟩ := h
    exact .act hid (Cluster.acts_of_act hact)
  | receive env p =>
    simp only [Network.step, Option.ite_none_right_eq_some, Option.some.injEq] at h
    obtain ⟨hp, rfl⟩ := h
    have hs : s = { s with packets := p ::ₘ s.packets.erase p } := by
      simp only [Multiset.cons_erase hp]
    rw [hs]
    simp only [Multiset.erase_cons_head]
    exact .receive { s with packets := s.packets.erase p } env p

/-- A step of the network is for each member a step of its own, a message, or nothing. -/
theorem member_step {ids : List String} {s s' : Network} {e : Event}
    (h : Network.step ids s e = some s') (v : String) :
    s'.members v = s.members v ∨ ∃ i, (s.members v).step i = some (s'.members v) := by
  cases e with
  | act id env a =>
    simp only [Network.step, Option.ite_none_right_eq_some, Option.map_eq_some_iff] at h
    obtain ⟨-, ⟨c, out⟩, hact, rfl⟩ := h
    by_cases hv : v = id
    · subst hv
      refine Or.inr ⟨.act env a, ?_⟩
      show ((s.members v).act env a).map Prod.fst = some (if v = v then c else _)
      rw [hact, if_pos rfl]
      rfl
    · exact Or.inl (if_neg hv)
  | receive env p =>
    simp only [Network.step, Option.ite_none_right_eq_some, Option.some.injEq] at h
    obtain ⟨-, rfl⟩ := h
    by_cases hv : v = p.dst
    · subst hv
      refine Or.inr ⟨.receive env p.request p.flag p.msg, congrArg some ?_⟩
      unfold Cluster.receive Network.handle
      split_ifs <;> exact (if_pos rfl).symm
    · left
      unfold Network.handle
      split_ifs <;> exact if_neg hv

/-- What holds of one member under any messages holds of the members of the network. -/
theorem member_reachable {conf : Conf} {ok : Network → Event → Prop} {s : Network}
    (h : (network conf).ReachableWhen ok s) (v : String) : (member conf v).Reachable (s.members v) := by
  refine Machine.ReachableWhen.project (fun s : Network => s.members v) ?_ ?_ h
  · rintro s ⟨now, rfl⟩
    exact ⟨now, rfl⟩
  · exact fun s e s' hs => member_step hs v

/-! ## The votes of a run -/

/-- The votes given so far: the first vote of each member in each term. -/
abbrev Votes := String → Int → Option String

/-- The votes given so far, after a step into `s`. -/
def Votes.note (h : Votes) (s : Network) : Votes :=
  fun v t => (h v t).or ((s.members v).getMyNode.voteNode.lookup t)

/-- A positive answer to a vote request of `x` in the term `t`. -/
def Packet.grants (x : String) (t : Int) (p : Packet) : Bool :=
  !p.request && p.flag = .rGetVote && p.dst = x && p.msg.term = t && p.msg.success = some true

/-- The positive answers on their way to `x` for the term `t`. -/
def Network.inFlight (s : Network) (x : String) (t : Int) : Nat := s.packets.countP fun p => p.grants x t

/-- The members, the votes given so far and the messages in flight fit together. -/
structure Ballots (ids : List String) (s : Network) (h : Votes) : Prop where
  my : ∀ v, (s.members v).nodeMy = v
  all : ∀ v, (s.members v).nodesAll = ids
  recorded : ∀ v t x, (s.members v).getMyNode.voteNode.lookup t = some x → h v t = some x
  spent : ∀ v t, h v t ≠ none → (s.members v).getMyNode.Spent t
  nonneg : ∀ v t, 0 ≤ (s.members v).getMyNode.getVoteCount t
  count : ∀ v t, (s.members v).getMyNode.getVoteCount t + s.inFlight v t ≤
    support ids (fun u => h u t) v
  sent : ∀ p ∈ s.packets, p.src ∈ ids ∧ p.dst ∈ ids ∧ (p.request = true → p.msg.nodeId = p.src)

/-- The counter of a candidate and the positive answers on their way to it. -/
def Network.tally (s : Network) (x : String) (t : Int) : Int :=
  (s.members x).getMyNode.getVoteCount t + s.inFlight x t

variable {ids : List String} {s s' : Network} {h : Votes} {v : String} {c : Cluster}

theorem note_eq_self (hrec : ∀ v t x, (s.members v).getMyNode.voteNode.lookup t = some x →
    h v t = some x) : h.note s = h := by
  funext v t
  unfold Votes.note
  cases hv : h v t with
  | some x => rfl
  | none =>
    cases hl : (s.members v).getMyNode.voteNode.lookup t with
    | none => rfl
    | some x => exact absurd (hrec v t x hl) (by simp [hv])

/-- Only the member `v` has changed. -/
theorem members_ind {P : String → Cluster → Prop}
    (hmem : ∀ u, s'.members u = if u = v then c else s.members u) (hc : P v c)
    (hs : ∀ u, u ≠ v → P u (s.members u)) (u : String) : P u (s'.members u) := by
  rw [hmem]
  split_ifs with hu
  · rw [hu]
    exact hc
  · exact hs u hu

/-- A step in which `v` gives no vote. -/
theorem Ballots.keep (hb : Ballots ids s h)
    (hmem : ∀ u, s'.members u = if u = v then c else s.members u)
    (hmy : c.nodeMy = (s.members v).nodeMy) (hall : c.nodesAll = (s.members v).nodesAll)
    (hlookup : ∀ t x, c.getMyNode.voteNode.lookup t = some x →
      (s.members v).getMyNode.voteNode.lookup t = some x)
    (hspent : ∀ t, (s.members v).getMyNode.Spent t → c.getMyNode.Spent t)
    (hnonneg : ∀ t, 0 ≤ c.getMyNode.getVoteCount t)
    (htally : ∀ x t, s'.tally x t ≤ s.tally x t)
    (hsent : ∀ p ∈ s'.packets, p.src ∈ ids ∧ p.dst ∈ ids ∧ (p.request = true → p.msg.nodeId = p.src)) :
    Ballots ids s' (h.note s') := by
  have hrec : ∀ u t x, (s'.members u).getMyNode.voteNode.lookup t = some x → h u t = some x :=
    members_ind (P := fun u c => ∀ t x, c.getMyNode.voteNode.lookup t = some x → h u t = some x)
      hmem (fun t x hl => hb.recorded v t x (hlookup t x hl)) fun u _ => hb.recorded u
  rw [note_eq_self hrec]
  constructor
  case my =>
    exact members_ind (P := fun u c => c.nodeMy = u) hmem (hmy.trans (hb.my v)) fun u _ => hb.my u
  case all =>
    exact members_ind (P := fun _ c => c.nodesAll = ids) hmem (hall.trans (hb.all v))
      fun u _ => hb.all u
  case recorded => exact hrec
  case spent =>
    exact members_ind (P := fun u c => ∀ t, h u t ≠ none → c.getMyNode.Spent t) hmem
      (fun t hne => hspent t (hb.spent v t hne)) fun u _ => hb.spent u
  case nonneg =>
    exact members_ind (P := fun _ c => ∀ t, 0 ≤ c.getMyNode.getVoteCount t) hmem hnonneg
      fun u _ => hb.nonneg u
  case count => exact fun x t => (htally x t).trans (hb.count x t)
  case sent => exact hsent

/-- The votes given so far, after `v` has given its vote for the term `t` to `x`. -/
theorem note_cast {t : Int} {x : String}
    (hrec : ∀ v t x, (s.members v).getMyNode.voteNode.lookup t = some x → h v t = some x)
    (hnone : h v t = none) (hmem : ∀ u, s'.members u = if u = v then c else s.members u)
    (hlookup : ∀ u, c.getMyNode.voteNode.lookup u =
      if u = t then some x else (s.members v).getMyNode.voteNode.lookup u) (u : String) (r : Int) :
    h.note s' u r = if u = v ∧ r = t then some x else h u r := by
  have hold : (h u r).or ((s.members u).getMyNode.voteNode.lookup r) = h u r :=
    congrFun (congrFun (note_eq_self hrec) u) r
  unfold Votes.note
  rw [hmem]
  by_cases hu : u = v
  · subst hu
    rw [if_pos rfl, hlookup]
    by_cases hr : r = t
    · subst hr
      simp [hnone]
    · simp only [hr, if_false, and_false]
      exact hold
  · simp only [hu, if_false, false_and]
    exact hold

/-- A step in which `v` gives its vote for the term `t` to `x`. -/
theorem Ballots.cast {t : Int} {x : String} (hb : Ballots ids s h) (hnd : ids.Nodup) (hv : v ∈ ids)
    (hx : x ≠ "") (hfree : ¬ (s.members v).getMyNode.Spent t)
    (hmem : ∀ u, s'.members u = if u = v then c else s.members u)
    (hmy : c.nodeMy = (s.members v).nodeMy) (hall : c.nodesAll = (s.members v).nodesAll)
    (hnode : c.getMyNode.voteNode = (s.members v).getMyNode.voteNode.insert t x)
    (hterm : c.getMyTerm = (s.members v).getMyTerm)
    (hnonneg : ∀ t, 0 ≤ c.getMyNode.getVoteCount t)
    (htally : ∀ y u, s'.tally y u ≤ s.tally y u + if y = x ∧ u = t then 1 else 0)
    (hsent : ∀ p ∈ s'.packets, p.src ∈ ids ∧ p.dst ∈ ids ∧ (p.request = true → p.msg.nodeId = p.src)) :
    Ballots ids s' (h.note s') := by
  have hnone : h v t = none := by
    by_contra hne
    exact hfree (hb.spent v t hne)
  have hlookup : ∀ u, c.getMyNode.voteNode.lookup u =
      if u = t then some x else (s.members v).getMyNode.voteNode.lookup u := by
    intro u
    rw [hnode]
    split_ifs with hu
    · rw [hu, AList.lookup_insert]
    · rw [AList.lookup_insert_ne hu]
  have hnote : ∀ u r, h.note s' u r = if u = v ∧ r = t then some x else h u r :=
    note_cast hb.recorded hnone hmem hlookup
  have hgrow : ∀ r u y, h u r = some y → h.note s' u r = some y := by
    intro r u y hy
    rw [hnote, if_neg]
    · exact hy
    · rintro ⟨rfl, rfl⟩
      rw [hnone] at hy
      cases hy
  constructor
  case my =>
    exact members_ind (P := fun u c => c.nodeMy = u) hmem (hmy.trans (hb.my v)) fun u _ => hb.my u
  case all =>
    exact members_ind (P := fun _ c => c.nodesAll = ids) hmem (hall.trans (hb.all v))
      fun u _ => hb.all u
  case recorded =>
    refine members_ind (P := fun u c => ∀ r y, c.getMyNode.voteNode.lookup r = some y →
      h.note s' u r = some y) hmem ?_ fun u _ r y hl => hgrow r u y (hb.recorded u r y hl)
    intro r y hl
    rw [hlookup] at hl
    rw [hnote]
    split_ifs at hl with hr
    · rw [if_pos ⟨rfl, hr⟩]
      exact hl
    · rw [if_neg fun hc => hr hc.2]
      exact hb.recorded v r y hl
  case spent =>
    refine members_ind (P := fun u c => ∀ r, h.note s' u r ≠ none → c.getMyNode.Spent r) hmem ?_ ?_
    · intro r hne
      by_cases hr : r = t
      · left
        unfold Node.getVoteToNode
        rw [hlookup, if_pos hr]
        exact hx
      · rw [hnote, if_neg fun hc => hr hc.2] at hne
        rcases hb.spent v r hne with hs | hs
        · left
          unfold Node.getVoteToNode at hs ⊢
          rw [hlookup, if_neg hr]
          exact hs
        · right
          exact lt_of_lt_of_eq hs hterm.symm
    · intro u hu r hne
      rw [hnote, if_neg fun hc => hu hc.1] at hne
      exact hb.spent u r hne
  case nonneg =>
    exact members_ind (P := fun _ c => ∀ t, 0 ≤ c.getMyNode.getVoteCount t) hmem hnonneg
      fun u _ => hb.nonneg u
  case count =>
    intro y r
    have hold := hb.count y r
    have hnew := htally y r
    unfold Network.tally at hnew
    by_cases hyr : y = x ∧ r = t
    · obtain ⟨rfl, rfl⟩ := hyr
      have hcast : support ids (fun u => h.note s' u r) y = support ids (fun u => h u r) y + 1 := by
        rw [← support_cast hnd hv hnone y]
        congr 1
        funext u
        rw [hnote]
        by_cases hu : u = v
        · simp [hu]
        · simp [hu]
      rw [hcast]
      rw [if_pos ⟨rfl, rfl⟩] at hnew
      push_cast
      omega
    · have hmono := support_mono ids (hgrow r) y
      rw [if_neg hyr] at hnew
      omega
  case sent => exact hsent

/-! ## Every step keeps the ballots -/

@[simp] theorem members_setMember (s : Network) (v : String) (c : Cluster) (u : String) :
    (s.setMember v c).members u = if u = v then c else s.members u := rfl

@[simp] theorem members_send (s : Network) (ps : List Packet) : (s.send ps).members = s.members := rfl

@[simp] theorem packets_send (s : Network) (ps : List Packet) :
    (s.send ps).packets = s.packets + ps := rfl

theorem inFlight_send {ps : List Packet} {x : String} {t : Int}
    (h : ∀ p ∈ ps, p.grants x t = false) : (s.send ps).inFlight x t = s.inFlight x t := by
  unfold Network.inFlight
  rw [packets_send, Multiset.countP_add, Multiset.coe_countP,
    List.countP_eq_zero.mpr fun p hp => by simp [h p hp], Nat.add_zero]

theorem getVoteCount_prune (n : Node) (t : Int) :
    n.prune.getVoteCount t = 0 ∨ n.prune.getVoteCount t = n.getVoteCount t := by
  unfold Node.getVoteCount Node.prune
  rw [lookup_pruneVotes]
  split_ifs
  · exact Or.inl rfl
  · exact Or.inr rfl

/-- The condition on a run: no heartbeat deletes a vote for the member's own term or a later one. -/
def PrunesBelow (s : Network) : Event → Prop
  | .act id _ .heartbeat => (s.members id).isReady = true → (s.members id).getMyNode.PrunesBelow
  | _ => True

theorem Ballots.same_votes (hb : Ballots ids s h) {ps : Multiset Packet}
    (hsame : Cluster.SameVotes (s.members v) c) (hs : s' = { s.setMember v c with packets := ps })
    (hflight : ∀ x t, s'.inFlight x t ≤ s.inFlight x t)
    (hsent : ∀ p ∈ s'.packets, p.src ∈ ids ∧ p.dst ∈ ids ∧ (p.request = true → p.msg.nodeId = p.src)) :
    Ballots ids s' (h.note s') := by
  have hcount : ∀ t, c.getMyNode.getVoteCount t = (s.members v).getMyNode.getVoteCount t := by
    intro t
    unfold Node.getVoteCount
    rw [hsame.count]
  have hmem : ∀ u, s'.members u = if u = v then c else s.members u := by
    intro u
    rw [hs]
    rfl
  refine hb.keep hmem hsame.my hsame.all ?_ ?_ ?_ ?_ hsent
  · intro t x hl
    rw [hsame.node] at hl
    exact hl
  · rintro t (hspent | hspent)
    · left
      unfold Node.getVoteToNode at hspent ⊢
      rw [hsame.node]
      exact hspent
    · exact Or.inr (lt_of_lt_of_le hspent hsame.term)
  · intro t
    rw [hcount]
    exact hb.nonneg v t
  · intro x t
    have hfl := hflight x t
    unfold Network.tally
    rw [hmem]
    split_ifs with hx
    · subst hx
      rw [hcount]
      omega
    · omega

theorem registry_setNode_self (c : Cluster) :
    (c.setNode c.nodeMy c.getMyNode).registry = c.registry := by
  unfold Cluster.registry
  simp only [Cluster.setNode_nodeMy, Cluster.setNode_nodesAll, Prod.mk.injEq, true_and]
  funext u
  rw [Cluster.setNode_nodes]
  split_ifs with hu
  · rw [hu]
    rfl
  · rfl

/-- What a step leaves of the identity of a member when it writes only its own record. -/
theorem of_registry_setMy {c₀ : Cluster} {n : Node}
    (hreg : c.registry = (c₀.setNode c₀.nodeMy n).registry) :
    c.nodeMy = c₀.nodeMy ∧ c.nodesAll = c₀.nodesAll ∧ c.getMyNode = n := by
  refine ⟨congrArg Prod.fst hreg, congrArg (fun r => r.2.1) hreg, ?_⟩
  rw [Cluster.getMyNode_of_registry hreg, Cluster.getMyNode_setNode, if_pos rfl]

theorem ballots_voteForMyself (hb : Ballots ids s h) (hnd : ids.Nodup) (hne : "" ∉ ids)
    (hv : v ∈ ids) {t : Int} (hreg : c.registry = ((s.members v).voteForMyself t).registry)
    {ps : Multiset Packet} (hs : s' = { s.setMember v c with packets := ps })
    (hflight : ∀ x t, s'.inFlight x t = s.inFlight x t)
    (hsent : ∀ p ∈ s'.packets, p.src ∈ ids ∧ p.dst ∈ ids ∧ (p.request = true → p.msg.nodeId = p.src)) :
    Ballots ids s' (h.note s') := by
  unfold Cluster.voteForMyself at hreg
  rcases voteToNode_cases (s.members v).getMyNode t (s.members v).nodeMy with hr | ⟨hfree, hr⟩
  · simp only [hr, Bool.false_eq_true, if_false] at hreg
    rw [registry_setNode_self] at hreg
    exact hb.same_votes (.of_registry hreg) hs (fun x t => (hflight x t).le) hsent
  · simp only [hr, if_true] at hreg
    have hmem : ∀ u, s'.members u = if u = v then c else s.members u := by
      intro u
      rw [hs]
      rfl
    obtain ⟨h₁, h₂, h₃⟩ := of_registry_setMy hreg
    have hcount : ∀ u, c.getMyNode.getVoteCount u =
        (s.members v).getMyNode.getVoteCount u + if u = t then 1 else 0 := by
      intro u
      rw [h₃, getVoteCount_addVoteCount]
      rfl
    refine hb.cast (x := v) hnd hv ?_ hfree hmem h₁ h₂ ?_ ?_ ?_ ?_ hsent
    · rintro rfl
      exact hne hv
    · simp only [h₃, Node.addVoteCount, hb.my v]
    · unfold Cluster.getMyTerm
      rw [h₃]
      rfl
    · intro u
      have hpos := hb.nonneg v u
      rw [hcount]
      split_ifs <;> omega
    · intro y u
      have hfl := hflight y u
      unfold Network.tally
      rw [hmem]
      by_cases hy : y = v
      · subst hy
        rw [if_pos rfl, hcount, hfl]
        simp only [true_and]
        omega
      · simp only [hy, if_false, false_and]
        omega

theorem ballots_prune (hb : Ballots ids s h)
    (hreg : c.registry =
      ((s.members v).setNode (s.members v).nodeMy (s.members v).getMyNode.prune).registry)
    (hok : (s.members v).getMyNode.PrunesBelow)
    {ps : Multiset Packet} (hs : s' = { s.setMember v c with packets := ps })
    (hflight : ∀ x t, s'.inFlight x t = s.inFlight x t)
    (hsent : ∀ p ∈ s'.packets, p.src ∈ ids ∧ p.dst ∈ ids ∧ (p.request = true → p.msg.nodeId = p.src)) :
    Ballots ids s' (h.note s') := by
  have hmem : ∀ u, s'.members u = if u = v then c else s.members u := by
    intro u
    rw [hs]
    rfl
  obtain ⟨h₁, h₂, h₃⟩ := of_registry_setMy hreg
  refine hb.keep hmem h₁ h₂ ?_ ?_ ?_ ?_ hsent
  · intro t x hl
    rw [h₃] at hl
    unfold Node.prune at hl
    rw [lookup_pruneVotes] at hl
    split_ifs at hl
    exact hl
  · intro t hspent
    rw [h₃]
    exact hspent.prune hok
  · intro t
    rw [h₃]
    rcases getVoteCount_prune (s.members v).getMyNode t with hz | hz
    · rw [hz]
    · rw [hz]
      exact hb.nonneg v t
  · intro x t
    have hfl := hflight x t
    unfold Network.tally
    rw [hmem]
    split_ifs with hx
    · subst hx
      have hpos := hb.nonneg x t
      rw [h₃]
      rcases getVoteCount_prune (s.members x).getMyNode t with hz | hz <;> rw [hz] <;> omega
    · omega

theorem grants_request {v x : String} {t : Int} {out : Out} {p : Packet}
    (hp : p ∈ Network.requests v out) : p.grants x t = false := by
  obtain ⟨m, -, rfl⟩ := List.mem_map.mp hp
  rfl

theorem ballots_act (hb : Ballots ids s h) (hnd : ids.Nodup) (hne : "" ∉ ids) (hv : v ∈ ids)
    {env : Env} {a : Action} {out : Out} (hacts : Cluster.Acts env (s.members v) a c out)
    (hok : PrunesBelow s (.act v env a)) (hs : s' = (s.setMember v c).send (Network.requests v out)) :
    Ballots ids s' (h.note s') := by
  have hflight : ∀ x t, s'.inFlight x t = s.inFlight x t := by
    intro x t
    rw [hs]
    exact inFlight_send fun p hp => grants_request hp
  have hsent : ∀ p ∈ s'.packets, p.src ∈ ids ∧ p.dst ∈ ids ∧
      (p.request = true → p.msg.nodeId = p.src) := by
    intro p hp
    rw [hs, packets_send, Multiset.mem_add] at hp
    rcases hp with hp | hp
    · exact hb.sent p hp
    · obtain ⟨m, hm, rfl⟩ := List.mem_map.mp hp
      obtain ⟨⟨hto, -, hfrom⟩, -⟩ := Cluster.acts_out hacts hm
      rw [hb.all v] at hto
      rw [hb.my v] at hfrom
      exact ⟨hv, hto, fun _ => hfrom⟩
  rcases Cluster.act_votes hacts with hsame | ⟨t, -, hreg⟩ | ⟨rfl, hready, hreg⟩
  · exact hb.same_votes hsame hs (fun x t => (hflight x t).le) hsent
  · exact ballots_voteForMyself hb hnd hne hv hreg hs hflight hsent
  · exact ballots_prune hb hreg (hok hready) hs hflight hsent

theorem inFlight_cons (s : Network) (p : Packet) (x : String) (t : Int) :
    Network.inFlight { s with packets := p ::ₘ s.packets } x t =
      s.inFlight x t + (p.grants x t).toNat := by
  unfold Network.inFlight
  rw [Multiset.countP_cons]
  cases p.grants x t <;> rfl

theorem inFlight_send_one (s : Network) (p : Packet) (x : String) (t : Int) :
    (s.send [p]).inFlight x t = s.inFlight x t + (p.grants x t).toNat := by
  rw [← inFlight_cons]
  unfold Network.inFlight
  rw [packets_send, Multiset.coe_singleton, Multiset.add_comm, Multiset.singleton_add]

theorem grants_answer {p : Packet} {x : String} {t : Int} {replies : List (Flag × NodeMsg)}
    (h : ∀ r ∈ replies, r.1 = .rGetVote → r.2.success ≠ some true) :
    ∀ p' ∈ Network.answers p replies, p'.grants x t = false := by
  intro p' hp'
  obtain ⟨r, hr, rfl⟩ := List.mem_map.mp hp'
  by_cases hf : r.1 = .rGetVote
  · simp [Packet.grants, h r hr hf]
  · simp [Packet.grants, hf]

/-- The answer that grants a vote is in flight for the candidate. -/
theorem inFlight_grant (s : Network) (p : Packet) {m : NodeMsg} (hterm : m.term = p.msg.term)
    (hyes : m.success = some true) (y : String) (u : Int) :
    (s.send (Network.answers p [(.rGetVote, m)])).inFlight y u =
      s.inFlight y u + if y = p.src ∧ u = p.msg.term then 1 else 0 := by
  refine (inFlight_send_one s _ y u).trans ?_
  by_cases hyu : y = p.src ∧ u = p.msg.term
  · rw [if_pos hyu]
    simp [Packet.grants, hyu, hterm, hyes]
  · have hno : ¬ (p.src = y ∧ p.msg.term = u) := fun hc => hyu ⟨hc.1.symm, hc.2.symm⟩
    rw [if_neg hyu]
    simpa [Packet.grants, hterm, hyes] using hno

theorem ballots_request {env : Env} {p : Packet}
    (hb : Ballots ids { s with packets := p ::ₘ s.packets } h) (hnd : ids.Nodup) (hne : "" ∉ ids)
    (hreq : p.request = true) : Ballots ids (s.handle env p) (h.note (s.handle env p)) := by
  obtain ⟨hsrc, hdst, hid⟩ := hb.sent p (Multiset.mem_cons_self p s.packets)
  have hid := hid hreq
  have hvotes := Cluster.acceptorReceived_votes (s.members p.dst) env p.flag p.msg
  unfold Network.handle
  rw [if_pos hreq]
  generalize (s.members p.dst).acceptorReceived env p.flag p.msg = r at hvotes ⊢
  have hbefore : ∀ x t, Network.inFlight { s with packets := p ::ₘ s.packets } x t = s.inFlight x t := by
    intro x t
    rw [inFlight_cons, show p.grants x t = false by simp [Packet.grants, hreq]]
    rfl
  have hsent : ∀ p' ∈ ((s.setMember p.dst r.1).send (Network.answers p r.2)).packets,
      p'.src ∈ ids ∧ p'.dst ∈ ids ∧ (p'.request = true → p'.msg.nodeId = p'.src) := by
    intro p' hp'
    rw [packets_send, Multiset.mem_add] at hp'
    rcases hp' with hp' | hp'
    · exact hb.sent p' (Multiset.mem_cons_of_mem hp')
    · obtain ⟨m, -, rfl⟩ := List.mem_map.mp hp'
      exact ⟨hdst, hsrc, fun h => by cases h⟩
  -- an answer that grants nothing adds nothing to what is in flight
  have hquiet : (∀ m ∈ r.2, m.1 = .rGetVote → m.2.success ≠ some true) → ∀ x t,
      ((s.setMember p.dst r.1).send (Network.answers p r.2)).inFlight x t ≤
        Network.inFlight { s with packets := p ::ₘ s.packets } x t := by
    intro hno x t
    rw [inFlight_send (grants_answer hno), hbefore]
    rfl
  rcases hvotes with ⟨hsame, hreplies⟩ | ⟨-, hreg, hreplies⟩
  · refine hb.same_votes hsame rfl (hquiet ?_) hsent
    exact fun m hm he => absurd he (hreplies m hm)
  · rcases voteToNode_cases (s.members p.dst).getMyNode p.msg.term p.msg.nodeId with
      hr | ⟨hfree, hr⟩
    · rw [hr] at hreg hreplies
      rw [registry_setNode_self] at hreg
      refine hb.same_votes (.of_registry hreg) rfl (hquiet ?_) hsent
      intro m hm _
      rw [hreplies, List.mem_singleton] at hm
      simp [hm]
    · rw [hr] at hreg hreplies
      obtain ⟨h₁, h₂, h₃⟩ := of_registry_setMy hreg
      have hcount : ∀ u, r.1.getMyNode.getVoteCount u =
          (s.members p.dst).getMyNode.getVoteCount u := by
        intro u
        rw [h₃]
        rfl
      refine hb.cast (x := p.src) hnd hdst ?_ hfree (fun u => rfl) h₁ h₂ ?_ ?_ ?_ ?_ hsent
      · rintro he
        exact hne (he ▸ hsrc)
      · simp only [h₃, hid]
      · unfold Cluster.getMyTerm
        rw [h₃]
      · intro u
        rw [hcount]
        exact hb.nonneg p.dst u
      · intro y u
        have hflight : ((s.setMember p.dst r.1).send (Network.answers p r.2)).inFlight y u =
            s.inFlight y u + if y = p.src ∧ u = p.msg.term then 1 else 0 := by
          rw [hreplies]
          refine inFlight_grant _ p ?_ ?_ y u
          · rfl
          · rfl
        unfold Network.tally
        rw [hflight, hbefore, members_send, members_setMember]
        have hsame : (if y = p.dst then r.1 else s.members y).getMyNode.getVoteCount u =
            (s.members y).getMyNode.getVoteCount u := by
          split_ifs with hy
          · rw [hcount, hy]
          · rfl
        rw [hsame]
        by_cases hyu : y = p.src ∧ u = p.msg.term
        · rw [if_pos hyu, if_pos hyu]
          push_cast
          exact (Int.add_assoc _ _ _).ge
        · rw [if_neg hyu, if_neg hyu]
          simp

theorem ballots_answer {env : Env} {p : Packet}
    (hb : Ballots ids { s with packets := p ::ₘ s.packets } h)
    (hreq : p.request = false) : Ballots ids (s.handle env p) (h.note (s.handle env p)) := by
  have hvotes := Cluster.nodeReceived_votes (s.members p.dst) env p.flag p.msg
  unfold Network.handle
  rw [if_neg (by simp [hreq])]
  generalize (s.members p.dst).nodeReceived env p.flag p.msg = c at hvotes ⊢
  have hsent : ∀ p' ∈ (s.setMember p.dst c).packets,
      p'.src ∈ ids ∧ p'.dst ∈ ids ∧ (p'.request = true → p'.msg.nodeId = p'.src) :=
    fun p' hp' => hb.sent p' (Multiset.mem_cons_of_mem hp')
  rcases hvotes with hsame | ⟨hflag, hyes, c₁, hsame, hreg⟩
  · refine hb.same_votes hsame rfl ?_ hsent
    intro x t
    rw [inFlight_cons]
    exact Nat.le_add_right _ _
  · obtain ⟨h₁, h₂, h₃⟩ := of_registry_setMy hreg
    have hcount : ∀ u, c.getMyNode.getVoteCount u =
        (s.members p.dst).getMyNode.getVoteCount u + if u = p.msg.term then 1 else 0 := by
      intro u
      rw [h₃, getVoteCount_addVoteCount]
      unfold Node.getVoteCount
      rw [hsame.count]
    refine hb.keep (fun u => rfl) (h₁.trans hsame.my) (h₂.trans hsame.all) ?_ ?_ ?_ ?_ hsent
    · intro t x hl
      rw [h₃] at hl
      exact hsame.node ▸ hl
    · intro t hspent
      rw [h₃]
      rcases hspent with hs | hs
      · left
        show (c₁.getMyNode.voteNode.lookup t).getD "" ≠ ""
        rw [hsame.node]
        exact hs
      · exact Or.inr (lt_of_lt_of_le hs hsame.term)
    · intro u
      have hpos := hb.nonneg p.dst u
      simp only at hpos
      rw [hcount]
      split_ifs <;> omega
    · intro x t
      unfold Network.tally
      rw [inFlight_cons]
      have hflight : (s.setMember p.dst c).inFlight x t = s.inFlight x t := rfl
      have hgrants : p.grants x t = decide (x = p.dst ∧ t = p.msg.term) := by
        simp [Packet.grants, hreq, hflag, hyes, eq_comm]
      rw [hflight, hgrants, members_setMember]
      by_cases hx : x = p.dst
      · rw [if_pos hx, hcount, hx]
        by_cases ht : t = p.msg.term
        · simp only [ht, and_self, decide_true, Bool.toNat_true, if_true]
          omega
        · simp [ht]
      · simp [hx]

theorem ballots_step (hnd : ids.Nodup) (hne : "" ∉ ids) {e : Event} (hb : Ballots ids s h)
    (hok : PrunesBelow s e) (hstep : Network.step ids s e = some s') : Ballots ids s' (h.note s') := by
  cases steps_of_step hstep with
  | act hid hacts => exact ballots_act hb hnd hne hid hacts hok rfl
  | receive s env p =>
    cases hreq : p.request with
    | true => exact ballots_request hb hnd hne hreq
    | false => exact ballots_answer hb hreq

theorem ids_ne_empty (conf : Conf) : "" ∉ conf.ids := by
  intro hmem
  obtain ⟨n, -, hn⟩ := List.mem_map.mp hmem
  have hlen := congrArg String.length hn
  simp [NodeConf.id] at hlen

theorem ballots_initial {conf : Conf} (hnd : conf.ids.Nodup) (now : Int) :
    Ballots conf.ids (Network.initial conf now) fun _ _ => none := by
  have hnew : ∀ v, ((Network.initial conf now).members v).Fresh _ v :=
    fun v => Cluster.fresh_create conf v now
  have hcount : ∀ v t, ((Network.initial conf now).members v).getMyNode.getVoteCount t = 0 := by
    intro v t
    obtain ⟨name, hname⟩ := (hnew v).nodes ((Network.initial conf now).members v).nodeMy
    unfold Cluster.getMyNode
    rw [hname]
    rfl
  constructor
  case my => exact fun v => (hnew v).my
  case all => exact fun v => Cluster.nodesAll_create hnd v now
  case recorded =>
    intro v t x hl
    obtain ⟨name, hname⟩ := (hnew v).nodes ((Network.initial conf now).members v).nodeMy
    unfold Cluster.getMyNode at hl
    rw [hname] at hl
    cases hl
  case spent => exact fun v t hc => absurd rfl hc
  case nonneg => exact fun v t => (hcount v t).ge
  case count =>
    intro v t
    rw [hcount]
    exact Int.natCast_nonneg _
  case sent => exact fun p hp => absurd hp (Multiset.notMem_zero p)

/-- The cluster of a configuration, with the votes given so far. -/
def ballotMachine (conf : Conf) : Machine (Network × Votes) Event :=
  (network conf).withHistory (fun _ _ => none) Votes.note

theorem ballots_reachable {conf : Conf} (hnd : conf.ids.Nodup) {ok : Network → Event → Prop}
    (hprune : ∀ s e s', ok s e → Network.step conf.ids s e = some s' → PrunesBelow s e)
    {x : Network × Votes} (hr : (ballotMachine conf).ReachableWhen (fun y e => ok y.1 e) x) :
    Ballots conf.ids x.1 x.2 := by
  refine hr.invariant (fun x => Ballots conf.ids x.1 x.2) ?_ ?_
  · rintro ⟨s, h⟩ ⟨⟨now, rfl⟩, rfl⟩
    exact ballots_initial hnd now
  · rintro ⟨s, h⟩ e ⟨s', h'⟩ - hb hok hs
    obtain ⟨s₁, hs₁, he⟩ := Option.map_eq_some_iff.mp hs
    cases he
    exact ballots_step hnd (ids_ne_empty conf) hb (hprune _ _ _ hok hs₁) hs₁

/-- A member whose counter exceeds half of the nodes has the votes of a majority. -/
theorem Ballots.majority (hb : Ballots ids s h) {x : String} {t : Int}
    (hwon : ((s.members x).getAllNodeNames.length / 2 : Nat) < (s.members x).getMyNode.getVoteCount t) :
    ids.length / 2 < support ids (fun u => h u t) x := by
  have hcount := hb.count x t
  have hlen : (s.members x).getAllNodeNames.length = ids.length := by
    rw [Cluster.getAllNodeNames, List.length_map, hb.all]
  rw [hlen] at hwon
  omega

/-- No table of votes holds more than 20 terms, so that the heartbeat deletes nothing. -/
def TablesSmall (ids : List String) (s : Network) : Prop :=
  ∀ v ∈ ids, (s.members v).getMyNode.voteNode.keys.length ≤ 20

instance (ids : List String) (s : Network) : Decidable (TablesSmall ids s) :=
  inferInstanceAs (Decidable (∀ v ∈ ids, _))

theorem PrunesBelow.of_small {e : Event} (hsmall : TablesSmall ids s)
    (hstep : Network.step ids s e = some s') : PrunesBelow s e := by
  cases steps_of_step hstep with
  | @act s id env a c out hid hacts =>
    cases a with
    | heartbeat =>
      intro _ t ht
      rw [prunedKeys_eq_nil (hsmall id hid)] at ht
      cases ht
    | _ => trivial
  | receive s env p => trivial

/-- In every term at most one member has counted the votes of more than half of the nodes, as long
as no member has voted in more than 20 terms. -/
theorem vote_winner_unique {conf : Conf} (hnd : conf.ids.Nodup) {s : Network}
    (hr : (network conf).ReachableWhen (fun s _ => TablesSmall conf.ids s) s) {t : Int} {x y : String}
    (hx : ((s.members x).getAllNodeNames.length / 2 : Nat) < (s.members x).getMyNode.getVoteCount t)
    (hy : ((s.members y).getAllNodeNames.length / 2 : Nat) < (s.members y).getMyNode.getVoteCount t) :
    x = y := by
  obtain ⟨h, hh⟩ := hr.withHistory (fun _ _ => none) Votes.note
  have hb : Ballots conf.ids s h :=
    ballots_reachable hnd (fun _ _ _ hsmall hstep => .of_small hsmall hstep) hh
  exact majority_unique (hb.majority hx) (hb.majority hy)

/-! ## Runs of three members -/

def threeNodes : Conf where
  model := "cluster"
  nodeTimeout := 10
  nodes := [⟨"", "a", 1⟩, ⟨"", "b", 1⟩, ⟨"", "c", 1⟩]

def acts (id uuid : String) (a : Action) : Event :=
  .act id { now := 0, uuid := uuid, writeOk := fun _ => true } a

def receives (p : Packet) : Event := .receive { now := 0, uuid := "", writeOk := fun _ => true } p

def starts (ids : List String) : List Event := ids.map fun id => acts id "" .startUp

def connects (x y : String) : List Event :=
  [acts x "" (.connect y), acts x "" .assignConnector]

/-- An election of `x` up to its request for votes, which has the id `uuid`. -/
def campaigns (x : String) (t : Int) (uuid : String) : List Event :=
  [acts x "ask" (.fight .start), acts x "" (.fight (.askLeader t)), acts x uuid (.fight (.settle t))]

/-- The node `y` votes for `x`. -/
def votes (y x : String) (t : Int) (uuid : String) : List Event :=
  [receives ⟨x, y, true, .sGetVote, { nodeId := x, term := t, reqId := uuid }⟩,
    receives ⟨y, x, false, .rGetVote,
      { nodeId := y, term := t, reqId := uuid, success := some true }⟩]

/-- The broadcast of `x` reaches `y`. -/
def hears (y x : String) (t : Int) (uuid : String) : Event :=
  receives ⟨x, y, true, .sBroadcastLeader,
    { nodeId := x, term := t, leaderId := x, reqId := uuid, flag := "1" }⟩

/-- The answer of `y` to that broadcast reaches `x`. -/
def confirms (y x : String) (t : Int) (uuid : String) : Event :=
  receives ⟨y, x, false, .rLeader, { nodeId := y, term := t, reqId := uuid, success := some true }⟩

/-- The node `a:1` wins the first term with the vote of `b:1`, and broadcasts itself. -/
def firstElection : List Event :=
  connects "a:1" "b:1" ++ campaigns "a:1" 1 "u1" ++ votes "b:1" "a:1" 1 "u1" ++
    [acts "a:1" "u2" (.fight (.getVote 1))]

theorem vote_winner_unique_first :
    ∃ s, (network threeNodes).ReachableWhen (fun s _ => TablesSmall threeNodes.ids s) s ∧
      (s.members "a:1").getMyNode.getVoteCount 1 = 2 ∧
      ∀ y, ((s.members y).getAllNodeNames.length / 2 : Nat) <
        (s.members y).getMyNode.getVoteCount 1 → y = "a:1" := by
  have hrun : (((network threeNodes).restrict fun s _ => TablesSmall threeNodes.ids s).run
      (Network.initial threeNodes 0) (starts threeNodes.ids ++ firstElection)).map (fun s =>
        ((s.members "a:1").getMyNode.getVoteCount 1, (s.members "a:1").getAllNodeNames.length)) =
      some (2, 3) := by
    decide
  obtain ⟨s, hr, he⟩ := Machine.observedWhen_of_run hrun ⟨0, rfl⟩
  simp only [Prod.mk.injEq] at he
  have hwon : ((s.members "a:1").getAllNodeNames.length / 2 : Nat) <
      (s.members "a:1").getMyNode.getVoteCount 1 := by
    rw [he.1, he.2]
    decide
  exact ⟨s, hr, he.1, fun y hy => vote_winner_unique (by decide) hr hy hwon⟩

end OwnX.Cluster
