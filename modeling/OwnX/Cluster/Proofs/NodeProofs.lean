import OwnX.Cluster.Node
import OwnX.Foundations.Proofs.MachineProofs

/-!
# Proofs: one vote per term

A vote for a term is spent when the table holds it or the node's own term has passed it. Nothing but a
pruning pass can make a spent vote available again, and only for a term the node has not passed.
-/

namespace OwnX.Cluster

/-! ## Pruning -/

theorem lookup_foldl_erase {β : Int → Type} (ks : List Int) (m : AList β) (k : Int) :
    (ks.foldl (fun m k => m.erase k) m).lookup k = if k ∈ ks then none else m.lookup k := by
  induction ks generalizing m with
  | nil => simp
  | cons a ks ih =>
    rw [List.foldl_cons, ih]
    by_cases hk : k ∈ ks
    · rw [if_pos hk, if_pos (List.mem_cons_of_mem a hk)]
    · rw [if_neg hk]
      by_cases ha : k = a
      · subst ha
        rw [AList.lookup_erase, if_pos List.mem_cons_self]
      · rw [AList.lookup_erase_ne ha, if_neg (by simp [ha, hk])]

/-- A pruning pass deletes the keys it names and nothing else. -/
theorem lookup_pruneVotes {β : Int → Type} (m : AList β) (k : Int) :
    (pruneVotes m).lookup k = if k ∈ prunedKeys m then none else m.lookup k :=
  lookup_foldl_erase (prunedKeys m) m k

theorem prunedKeys_eq_nil {β : Int → Type} {m : AList β} (h : m.keys.length ≤ 20) :
    prunedKeys m = [] := if_neg (by omega)

/-- The pruning pass of the node deletes no vote for its own term or a later one. -/
def Node.PrunesBelow (n : Node) : Prop := ∀ k ∈ prunedKeys n.voteNode, k < n.term

instance (n : Node) : Decidable n.PrunesBelow := inferInstanceAs (Decidable (∀ k ∈ _, _))

/-! ## Spent votes -/

/-- The node can no longer vote for the term. -/
def Node.Spent (n : Node) (term : Int) : Prop := n.getVoteToNode term ≠ "" ∨ term < n.term

theorem voteToNode_eq (n : Node) (term : Int) (id : String) :
    n.voteToNode term id =
      if n.getVoteToNode term = "" ∧ n.term ≤ term then
        ({ n with voteNode := n.voteNode.insert term id }, true)
      else (n, false) := by
  unfold Node.voteToNode
  split_ifs <;> simp_all

theorem voteToNode_cases (n : Node) (t : Int) (x : String) :
    (n.voteToNode t x = (n, false)) ∨
    (¬ n.Spent t ∧ n.voteToNode t x = ({ n with voteNode := n.voteNode.insert t x }, true)) := by
  rw [voteToNode_eq]
  split_ifs with hg
  · refine Or.inr ⟨?_, rfl⟩
    rintro (hs | hs)
    · exact hs hg.1
    · omega
  · exact Or.inl rfl

theorem term_voteToNode (n : Node) (t : Int) (x : String) : (n.voteToNode t x).1.term = n.term := by
  rcases voteToNode_cases n t x with hr | ⟨-, hr⟩
  · rw [hr]
  · rw [hr]

theorem getVoteToNode_insert (n : Node) (term t : Int) (id : String) :
    ({ n with voteNode := n.voteNode.insert term id } : Node).getVoteToNode t =
      if t = term then id else n.getVoteToNode t := by
  unfold Node.getVoteToNode
  by_cases h : t = term
  · subst h
    simp
  · simp [AList.lookup_insert_ne h, h]

theorem getVoteCount_addVoteCount (n : Node) (t u : Int) :
    (n.addVoteCount t).getVoteCount u = n.getVoteCount u + if u = t then 1 else 0 := by
  unfold Node.addVoteCount Node.getVoteCount
  by_cases hu : u = t
  · subst hu
    simp
  · simp [AList.lookup_insert_ne hu, hu]

theorem Node.Spent.vote {n : Node} {t : Int} (h : n.Spent t) {term : Int} {id : String}
    (hid : id ≠ "") : (n.voteToNode term id).1.Spent t := by
  rw [voteToNode_eq]
  split_ifs with hg
  · unfold Node.Spent
    rw [getVoteToNode_insert]
    split_ifs
    · exact Or.inl hid
    · exact h
  · exact h

theorem Node.Spent.setTerm {n : Node} {t : Int} (h : n.Spent t) (term : Int) :
    (n.setTerm term).1.Spent t := by
  unfold Node.setTerm
  split_ifs with hle
  · exact h
  · rcases h with h | h
    · exact Or.inl h
    · exact Or.inr (by simp only; omega)

theorem Node.Spent.prune {n : Node} {t : Int} (h : n.Spent t) (hp : n.PrunesBelow) :
    n.prune.Spent t := by
  rcases h with h | h
  · by_cases hk : t ∈ prunedKeys n.voteNode
    · exact Or.inr (hp t hk)
    · refine Or.inl ?_
      unfold Node.getVoteToNode Node.prune
      rw [lookup_pruneVotes, if_neg hk]
      exact h
  · exact Or.inr h

/-- A vote is granted only when it is not spent, and it is spent from then on. -/
theorem voteToNode_granted {n : Node} {term : Int} {id : String} (hid : id ≠ "")
    (h : (n.voteToNode term id).2 = true) :
    ¬ n.Spent term ∧ (n.voteToNode term id).1.Spent term := by
  rw [voteToNode_eq] at h ⊢
  split_ifs at h ⊢ with hg
  · refine ⟨?_, Or.inl ?_⟩
    · rintro (hs | hs)
      · exact hs hg.1
      · omega
    · rw [getVoteToNode_insert, if_pos rfl]
      exact hid

/-- A call of `voteToNode` names a node. -/
def VoteOp.named : VoteOp → Bool
  | .vote _ nodeId => nodeId ≠ ""
  | _ => true

/-- Votes are for named nodes, and no pruning pass deletes a vote for the node's own term or a later
one. -/
def VotesKept (s : Node × List Int) (op : VoteOp) : Prop :=
  op.named = true ∧ (op = .prune → s.1.PrunesBelow)

instance (s : Node × List Int) (op : VoteOp) : Decidable (VotesKept s op) :=
  inferInstanceAs (Decidable (_ ∧ _))

/-- In every sequence of calls in which each pruning pass deletes only votes for terms below the
node's own, each term is granted at most once. -/
theorem vote_granted_once {n : Node} {granted : List Int}
    (h : voteMachine.ReachableWhen VotesKept (n, granted)) : granted.Nodup := by
  suffices hi : granted.Nodup ∧ ∀ t ∈ granted, n.Spent t from hi.1
  apply h.invariant fun s => s.2.Nodup ∧ ∀ t ∈ s.2, s.1.Spent t
  · rintro ⟨n, granted⟩ rfl
    exact ⟨List.nodup_nil, fun t ht => absurd ht List.not_mem_nil⟩
  · rintro ⟨n, granted⟩ op s' - ⟨hnd, hspent⟩ hok hs
    cases op with
    | vote term id =>
      cases hs
      have hid : id ≠ "" := of_decide_eq_true hok.1
      cases hr : (n.voteToNode term id).2 with
      | false => exact ⟨hnd, fun t ht => (hspent t ht).vote hid⟩
      | true =>
        obtain ⟨hfree, hnow⟩ := voteToNode_granted hid hr
        refine ⟨List.nodup_cons.mpr ⟨fun hm => hfree (hspent term hm), hnd⟩, fun t ht => ?_⟩
        rcases List.mem_cons.mp ht with rfl | ht
        · exact hnow
        · exact (hspent t ht).vote hid
    | setTerm term =>
      cases hs
      exact ⟨hnd, fun t ht => (hspent t ht).setTerm term⟩
    | prune =>
      cases hs
      exact ⟨hnd, fun t ht => (hspent t ht).prune (hok.2 rfl)⟩

/-- A vote that a pruning pass deletes without the term being past is granted again, to anyone. -/
theorem granted_again_after_prune {n : Node} {term : Int} (hk : term ∈ prunedKeys n.voteNode)
    (hterm : n.term ≤ term) (id : String) : (n.prune.voteToNode term id).2 = true := by
  have hfree : n.prune.getVoteToNode term = "" := by
    unfold Node.getVoteToNode Node.prune
    rw [lookup_pruneVotes, if_pos hk]
    rfl
  rw [voteToNode_eq, if_pos ⟨hfree, hterm⟩]

/-- Votes for the terms `1` to `n`, all for the node `b`. -/
def votesUpTo (n : Nat) : List VoteOp := (List.range n).map fun i => .vote (i + 1 : Nat) "b"

/-- A node still in term `0` votes in the terms `1` to `21`; the pruning pass forgets the first ten,
and the vote of term `1` is granted a second time, to another node. -/
theorem vote_granted_twice :
    ∃ n granted, voteMachine.ReachableWhen (fun _ op => op.named = true) (n, granted) ∧
      granted.count 1 = 2 := by
  have hrun : ((voteMachine.restrict fun _ op => op.named = true).run ({}, [])
      (votesUpTo 21 ++ [.prune, .vote 1 "c"])).map (fun s => s.2.count 1) = some 2 := by
    decide +kernel
  obtain ⟨⟨n, granted⟩, hreach, hcount⟩ := Machine.observedWhen_of_run hrun rfl
  exact ⟨n, granted, hreach, hcount⟩

/-- The same votes, but the node reaches term `21` before the pruning pass: the vote of term `1` is
deleted and stays spent. -/
theorem vote_granted_once_pruned :
    ∃ n granted, voteMachine.ReachableWhen VotesKept (n, granted) ∧ n.getVoteToNode 1 = "" ∧
      1 ∈ granted ∧ granted.Nodup := by
  have hrun : ((voteMachine.restrict VotesKept).run ({}, [])
      (votesUpTo 21 ++ [.setTerm 21, .prune, .vote 1 "c"])).map
      (fun s => (s.1.getVoteToNode 1, decide (1 ∈ s.2))) = some ("", true) := by
    decide +kernel
  obtain ⟨⟨n, granted⟩, hreach, hobs⟩ := Machine.observedWhen_of_run hrun rfl
  obtain ⟨hfree, hmem⟩ := Prod.mk.inj hobs
  exact ⟨n, granted, hreach, hfree, of_decide_eq_true hmem, vote_granted_once hreach⟩

end OwnX.Cluster
