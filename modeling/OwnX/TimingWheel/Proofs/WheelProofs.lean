import OwnX.TimingWheel.Proofs.BucketProofs
import Mathlib.Logic.Function.Basic
import Mathlib.Data.List.Perm.Subperm

/-!
# Proofs: the wheel refines its buckets

`BucketLists w L` says that bucket `b` of the wheel `w` is the linked list `L b`, sorted, with no node in two
lists. `AddOnce` and the tick loop keep it, and act on the tiers as the abstract operations do.
-/

namespace OwnX.TimingWheel

variable {α : Type}

/-- The linked lists of the buckets of `w`. -/
structure BucketLists (w : Wheel α) (L : Nat → List (Nat × (Int × List α))) : Prop where
  /-- There are 32 buckets. -/
  length : w.buckets.length = 32
  /-- Bucket `b` is the linked list `L b`. -/
  spells : ∀ b, BucketSpells w.heap (w.buckets[b]?.join) (L b)
  /-- No list visits a node twice. -/
  nodup : ∀ b, (addrs (L b)).Nodup
  /-- No node is in two lists. -/
  disjoint : ∀ b b', b ≠ b' → ∀ a ∈ addrs (L b), a ∉ addrs (L b')
  /-- The head of a list has no `prev`. -/
  head_prev : ∀ (b p : Nat) (n : TierTask α), w.buckets[b]?.join = some p → w.heap[p]? = some n → n.prev = none
  /-- The tiers of a list are strictly increasing. -/
  sorted : ∀ b, Sorted (tiers (L b))

theorem head_mem_addrs {heap : List (TierTask α)} {p : Nat} {l : List (Nat × (Int × List α))}
    (h : BucketSpells heap (some p) l) : p ∈ addrs l := by
  cases l with
  | nil => exact absurd h (by simp [Spells])
  | cons x l =>
    obtain rfl : p = x.1 := by simpa using h.1
    exact List.mem_cons_self

/-- The wheel after a change of one bucket, whose list is now `l`. -/
theorem BucketLists.update {w w' : Wheel α} {L : Nat → List (Nat × (Int × List α))} (hR : BucketLists w L)
    {b : Nat} {l : List (Nat × (Int × List α))} (hlen : w'.buckets.length = 32)
    (hbuckets : ∀ b', b' ≠ b → w'.buckets[b']? = w.buckets[b']?)
    (hframe : ∀ a, a < w.heap.length → a ∉ addrs (L b) → w'.heap[a]? = w.heap[a]?)
    (hsp : BucketSpells w'.heap (w'.buckets[b]?.join) l) (hnd : (addrs l).Nodup)
    (hfresh : ∀ a ∈ addrs l, a ∈ addrs (L b) ∨ w.heap.length ≤ a)
    (hprev : ∀ (p : Nat) (n : TierTask α), w'.buckets[b]?.join = some p → w'.heap[p]? = some n → n.prev = none)
    (hsort : Sorted (tiers l)) : BucketLists w' (Function.update L b l) := by
  -- a node of another bucket is an old node outside the changed bucket
  have hother : ∀ b', b' ≠ b → ∀ a ∈ addrs (L b'), w'.heap[a]? = w.heap[a]? := fun b' hb a ha =>
    hframe a ((hR.spells b').lt_length a ha) (hR.disjoint b' b hb a ha)
  have hapart : ∀ b', b' ≠ b → ∀ a ∈ addrs (L b'), a ∉ addrs l := by
    intro b' hb a ha hl
    rcases hfresh a hl with h | h
    · exact hR.disjoint b' b hb a ha h
    · have := (hR.spells b').lt_length a ha
      omega
  refine ⟨hlen, fun b' => ?_, fun b' => ?_, fun b' b'' hne a ha => ?_, fun b' p n hp hn => ?_,
    fun b' => ?_⟩
  · by_cases hb : b' = b
    · subst hb
      rw [Function.update_self]
      exact hsp
    · rw [Function.update_of_ne hb, hbuckets b' hb]
      exact (hR.spells b').frame (hother b' hb)
  · by_cases hb : b' = b
    · subst hb
      rw [Function.update_self]
      exact hnd
    · rw [Function.update_of_ne hb]
      exact hR.nodup b'
  · by_cases hb : b' = b
    · subst hb
      rw [Function.update_self] at ha
      rw [Function.update_of_ne hne.symm]
      exact fun h => hapart b'' hne.symm a h ha
    · rw [Function.update_of_ne hb] at ha
      by_cases hb' : b'' = b
      · subst hb'
        rw [Function.update_self]
        exact hapart b' hb a ha
      · rw [Function.update_of_ne hb']
        exact hR.disjoint b' b'' hne a ha
  · by_cases hb : b' = b
    · subst hb
      exact hprev p n hp hn
    · rw [hbuckets b' hb] at hp
      rw [hother b' hb p (head_mem_addrs (hp ▸ hR.spells b'))] at hn
      exact hR.head_prev b' p n hp hn
  · by_cases hb : b' = b
    · subst hb
      rw [Function.update_self]
      exact hsort
    · rw [Function.update_of_ne hb]
      exact hR.sorted b'

theorem init_lists (now : Int) : BucketLists (init now : Wheel α) fun _ => [] := by
  have hnil : ∀ b : Nat, ((init now : Wheel α).buckets[b]?).join = none := by
    intro b
    show ((List.replicate 32 none : List (Option Nat))[b]?).join = none
    rw [List.getElem?_replicate]
    split_ifs <;> rfl
  refine ⟨by simp [init, defaultBucketLength], hnil, by simp, by simp, fun b p n hp => ?_,
    fun b => List.Pairwise.nil⟩
  rw [hnil] at hp
  simp at hp

/-! ## `AddOnce` -/

section AddOnce

variable {w : Wheel α} {L : Nat → List (Nat × (Int × List α))} {b head a : Nat} {n : TierTask α}
  {l₁ l₂ : List (Nat × (Int × List α))}

/-- A bucket list is not longer than the heap. -/
theorem BucketLists.length_le (hR : BucketLists w L) (b : Nat) : (L b).length ≤ w.heap.length := by
  have hsub : addrs (L b) ⊆ List.range w.heap.length := fun a ha =>
    List.mem_range.mpr ((hR.spells b).lt_length a ha)
  have := (List.subperm_of_subset (hR.nodup b) hsub).length_le
  rwa [addrs, List.length_map, List.length_range] at this

/-- The first task of a bucket. -/
theorem addOnce_empty (hR : BucketLists w L) (hempty : w.buckets[b]? = some none) (tier : Int) (task : α) :
    BucketLists { w with
        buckets := w.buckets.set b (some w.heap.length)
        heap := w.heap ++ [{ tier := tier, tasks := [task] }] }
      (Function.update L b [(w.heap.length, (tier, [task]))]) := by
  have hb : b < w.buckets.length := (List.getElem?_eq_some_iff.mp hempty).1
  have hnew : (w.heap ++ [({ tier := tier, tasks := [task] } : TierTask α)])[w.heap.length]? =
      some { tier := tier, tasks := [task] } := by
    rw [List.getElem?_append_right (le_refl _), Nat.sub_self]
    rfl
  have hbucket : (w.buckets.set b (some w.heap.length))[b]?.join = some w.heap.length := by
    rw [List.getElem?_set_self hb]
    rfl
  refine hR.update ?_ ?_ ?_ ?_ ?_ ?_ ?_ ?_
  · rw [List.length_set]
    exact hR.length
  · intro b' hb'
    exact List.getElem?_set_ne (Ne.symm hb')
  · intro a ha _
    exact List.getElem?_append_left ha
  · rw [hbucket]
    exact ⟨rfl, _, hnew, rfl, rfl⟩
  · simp
  · intro a ha
    right
    simp at ha
    omega
  · intro p m hp hm
    rw [hbucket, Option.some.injEq] at hp
    rw [← hp, hnew, Option.some.injEq] at hm
    rw [← hm]
  · exact List.pairwise_singleton _ _

/-- The tier is there: the task goes behind its tasks. -/
theorem append_lists (hR : BucketLists w L) (hhead : w.buckets[b]? = some (some head))
    (hsplit : L b = l₁ ++ (a, (n.tier, n.tasks)) :: l₂) (hn : w.heap[a]? = some n) (task : α)
    (hlow : ∀ x ∈ l₁, x.2.1 < n.tier) :
    BucketLists { w with heap := w.heap.set a { n with tasks := n.tasks ++ [task] } }
        (Function.update L b (l₁ ++ (a, (n.tier, n.tasks ++ [task])) :: l₂)) ∧
      tiers (l₁ ++ (a, (n.tier, n.tasks ++ [task])) :: l₂) =
        insertTier n.tier task (tiers (L b)) := by
  have hlt : a < w.heap.length := (List.getElem?_eq_some_iff.mp hn).1
  have hsp := hR.spells b
  have hnd := hR.nodup b
  rw [hsplit] at hsp hnd
  have htiers : tiers (l₁ ++ (a, (n.tier, n.tasks ++ [task])) :: l₂) =
      insertTier n.tier task (tiers (L b)) := by
    rw [hsplit, tiers_append, tiers_append, tiers_cons, tiers_cons, insertTier_found]
    intro y hy
    obtain ⟨z, hz, rfl⟩ := List.mem_map.mp hy
    exact hlow z hz
  refine ⟨hR.update hR.length (fun _ _ => rfl) ?_ ?_ ?_ ?_ ?_ ?_, htiers⟩
  · intro a' _ ha'
    rw [hsplit] at ha'
    refine List.getElem?_set_ne ?_
    rintro rfl
    exact ha' (by simp)
  · refine hsp.modify hnd hn (List.getElem?_set_self hlt) rfl rfl fun y _ hy => ?_
    exact List.getElem?_set_ne (Ne.symm hy)
  · simpa using hnd
  · intro a' ha'
    left
    rw [hsplit]
    simpa using ha'
  · intro p m hp hm
    rw [hhead] at hp
    by_cases hpa : p = a
    · rw [hpa, List.getElem?_set_self hlt, Option.some.injEq] at hm
      rw [← hm]
      exact hR.head_prev b p n (by rw [hhead]; exact hp) (hpa ▸ hn)
    · rw [List.getElem?_set_ne (Ne.symm hpa)] at hm
      exact hR.head_prev b p m (by rw [hhead]; exact hp) hm
  · rw [htiers]
    exact insertTier_sorted (hR.sorted b)

/-- The tier is new: a node is linked in behind the last lower one. -/
theorem insertAfter_lists (hR : BucketLists w L) (hhead : w.buckets[b]? = some (some head))
    (hsplit : L b = l₁ ++ (a, (n.tier, n.tasks)) :: l₂) (hn : w.heap[a]? = some n) (tier : Int)
    (task : α) (hlow : ∀ x ∈ l₁, x.2.1 < tier) (hlt' : n.tier < tier)
    (hnext : ∀ x ∈ l₂.head?, tier < x.2.1) :
    BucketLists { w with heap := insertAfter w.heap a n tier task }
        (Function.update L b
          (l₁ ++ (a, (n.tier, n.tasks)) :: (w.heap.length, (tier, [task])) :: l₂)) ∧
      tiers (l₁ ++ (a, (n.tier, n.tasks)) :: (w.heap.length, (tier, [task])) :: l₂) =
        insertTier tier task (tiers (L b)) := by
  have hlt : a < w.heap.length := (List.getElem?_eq_some_iff.mp hn).1
  have hsp := hR.spells b
  have hnd := hR.nodup b
  rw [hsplit] at hsp hnd
  have hfresh : w.heap.length ∉ addrs (l₁ ++ (a, (n.tier, n.tasks)) :: l₂) := fun h => by
    have := hsp.lt_length _ h
    omega
  have hset : (w.heap.set a { n with next := some w.heap.length }).length = w.heap.length :=
    List.length_set
  -- the three kinds of addresses of the new heap
  have hself : (insertAfter w.heap a n tier task)[a]? =
      some { n with next := some w.heap.length } := by
    rw [insertAfter, List.getElem?_append_left (by omega), List.getElem?_set_self hlt]
  have hnew : (insertAfter w.heap a n tier task)[w.heap.length]? =
      some { tier := tier, tasks := [task], prev := some a, next := n.next } := by
    rw [insertAfter, List.getElem?_append_right (by omega), hset, Nat.sub_self]
    rfl
  have hold : ∀ x, x < w.heap.length → x ≠ a →
      (insertAfter w.heap a n tier task)[x]? = w.heap[x]? := by
    intro x hx hxa
    rw [insertAfter, List.getElem?_append_left (by omega), List.getElem?_set_ne (Ne.symm hxa)]
  have htiers : tiers (l₁ ++ (a, (n.tier, n.tasks)) :: (w.heap.length, (tier, [task])) :: l₂) =
      insertTier tier task (tiers (L b)) := by
    have hcut : tiers (L b) = (tiers l₁ ++ [(n.tier, n.tasks)]) ++ tiers l₂ := by
      rw [hsplit, tiers_append, tiers_cons, List.append_assoc, List.singleton_append]
    rw [hcut, insertTier_new]
    · rw [tiers_append, tiers_cons, tiers_cons, List.append_assoc, List.singleton_append]
    · intro y hy
      rcases List.mem_append.mp hy with hy | hy
      · obtain ⟨z, hz, rfl⟩ := List.mem_map.mp hy
        exact hlow z hz
      · rw [List.mem_singleton.mp hy]
        exact hlt'
    · intro y hy
      rw [tiers, List.head?_map, Option.mem_map] at hy
      obtain ⟨z, hz, rfl⟩ := hy
      exact hnext z hz
  refine ⟨hR.update hR.length (fun _ _ => rfl) ?_ ?_ ?_ ?_ ?_ ?_, htiers⟩
  · intro a' hlt'' ha'
    rw [hsplit] at ha'
    refine hold a' hlt'' ?_
    rintro rfl
    exact ha' (by simp)
  · exact hsp.insert_after hnd hn hself rfl rfl hnew rfl rfl fun y hy hya =>
      hold y (hsp.lt_length y hy) hya
  · have hperm : (addrs (l₁ ++ (a, (n.tier, n.tasks)) :: (w.heap.length, (tier, [task])) :: l₂)).Perm
        (w.heap.length :: addrs (l₁ ++ (a, (n.tier, n.tasks)) :: l₂)) := by
      simp only [addrs_append, addrs_cons]
      refine (List.Perm.append_left _ (List.Perm.swap _ _ _)).trans ?_
      exact List.perm_middle
    exact hperm.nodup_iff.mpr (List.nodup_cons.mpr ⟨hfresh, hnd⟩)
  · intro a' ha'
    simp only [addrs_append, addrs_cons, List.mem_append, List.mem_cons] at ha'
    rw [hsplit]
    simp only [addrs_append, addrs_cons, List.mem_append, List.mem_cons]
    rcases ha' with h | h | h | h
    · exact Or.inl (Or.inl h)
    · exact Or.inl (Or.inr (Or.inl h))
    · exact Or.inr (by omega)
    · exact Or.inl (Or.inr (Or.inr h))
  · intro p m hp hm
    rw [hhead] at hp
    have hplt : p < w.heap.length :=
      (hR.spells b).lt_length p (head_mem_addrs (by rw [← hp, ← hhead]; exact hR.spells b))
    by_cases hpa : p = a
    · rw [hpa, hself, Option.some.injEq] at hm
      rw [← hm]
      exact hR.head_prev b p n (by rw [hhead]; exact hp) (hpa ▸ hn)
    · rw [hold p hplt hpa] at hm
      exact hR.head_prev b p m (by rw [hhead]; exact hp) hm
  · rw [htiers]
    exact insertTier_sorted (hR.sorted b)

/-- What a completed `AddOnce` does with the task: it opens the bucket `k`, or files the task behind
those of its tier, or links a new node in behind the last lower one. `l` is the bucket afterwards. -/
inductive Adds (w : Wheel α) (L : Nat → List (Nat × (Int × List α))) (tier : Int) (k : Nat) (task : α) :
    Wheel α → List (Nat × (Int × List α)) → Prop where
  | opens (hempty : w.buckets[k]? = some none) :
      Adds w L tier k task
        { w with
          buckets := w.buckets.set k (some w.heap.length)
          heap := w.heap ++ [{ tier := tier, tasks := [task] }] }
        [(w.heap.length, (tier, [task]))]
  | files {head a : Nat} {n : TierTask α} {l₁ l₂ : List (Nat × (Int × List α))}
      (hhead : w.buckets[k]? = some (some head)) (hsplit : L k = l₁ ++ (a, (n.tier, n.tasks)) :: l₂)
      (hn : w.heap[a]? = some n) (hlow : ∀ x ∈ l₁, x.2.1 < tier) (htier : n.tier = tier) :
      Adds w L tier k task { w with heap := w.heap.set a { n with tasks := n.tasks ++ [task] } }
        (l₁ ++ (a, (n.tier, n.tasks ++ [task])) :: l₂)
  | links {head a : Nat} {n : TierTask α} {l₁ l₂ : List (Nat × (Int × List α))}
      (hhead : w.buckets[k]? = some (some head)) (hsplit : L k = l₁ ++ (a, (n.tier, n.tasks)) :: l₂)
      (hn : w.heap[a]? = some n) (hlow : ∀ x ∈ l₁, x.2.1 < tier) (hlt : n.tier < tier)
      (hnext : ∀ x ∈ l₂.head?, tier < x.2.1) :
      Adds w L tier k task { w with heap := insertAfter w.heap a n tier task }
        (l₁ ++ (a, (n.tier, n.tasks)) :: (w.heap.length, (tier, [task])) :: l₂)

theorem BucketLists.eq_nil (hR : BucketLists w L) {k : Nat} (h : w.buckets[k]? = some none) :
    L k = [] := by
  have hsp := hR.spells k
  rw [h] at hsp
  cases hL : L k with
  | nil => rfl
  | cons x l => rw [hL] at hsp; exact absurd hsp.1 (by simp)

theorem addOnce_of_empty {task : α} {timestamp tier : Int} {k : Nat}
    (hslot : w.current.slot timestamp = (tier, (k : Int))) (hp : w.buckets[k]? = some none) :
    addOnce w task timestamp = some { w with
      buckets := w.buckets.set k (some w.heap.length)
      heap := w.heap ++ [{ tier := tier, tasks := [task] }] } := by
  rw [addOnce, hslot]
  simp only [Int.toNat_natCast, hp, Option.bind_some]
  exact if_neg (not_lt.mpr (Int.natCast_nonneg k))

theorem addOnce_of_head {task : α} {timestamp tier : Int} {k : Nat}
    (hslot : w.current.slot timestamp = (tier, (k : Int))) (hp : w.buckets[k]? = some (some head)) :
    addOnce w task timestamp =
      (addLoop tier task (w.heap.length + 1) w.heap (some head)).map fun heap =>
        { w with heap := heap } := by
  rw [addOnce, hslot]
  simp only [Int.toNat_natCast, hp, Option.bind_some]
  exact if_neg (not_lt.mpr (Int.natCast_nonneg k))

/-- `AddOnce` dereferences a nil pointer exactly if the head of the bucket is above the tier of the
slot. -/
theorem addOnce_cases (hR : BucketLists w L) (task : α) {timestamp : Int} {tier : Int} {k : Nat}
    (hslot : w.current.slot timestamp = (tier, (k : Int))) (hk : k < 32) :
    ((∃ x ∈ (L k).head?, tier < x.2.1) ∧ addOnce w task timestamp = none) ∨
    ((∀ x ∈ (L k).head?, x.2.1 ≤ tier) ∧
      ∃ w' l, addOnce w task timestamp = some w' ∧ Adds w L tier k task w' l) := by
  obtain ⟨p, hp⟩ : ∃ p, w.buckets[k]? = some p :=
    ⟨_, List.getElem?_eq_getElem (by rw [hR.length]; exact hk)⟩
  cases p with
  | none =>
    refine Or.inr ⟨?_, _, _, addOnce_of_empty hslot hp, .opens hp⟩
    rw [hR.eq_nil hp]
    simp
  | some head =>
    have hsp := hR.spells k
    have hle := hR.length_le k
    rw [hp, Option.join_some] at hsp
    rw [addOnce_of_head hslot hp]
    cases hL : L k with
    | nil => rw [hL] at hsp; exact absurd hsp (by simp [Spells])
    | cons x l =>
      rw [hL] at hsp hle
      simp only [List.head?_cons, Option.mem_some_iff, exists_eq_left', forall_eq']
      by_cases hlt : tier < x.2.1
      · -- the loop stops at the head, and the head has no `prev`
        obtain ⟨hhead, n, hn, hv, -⟩ := hsp
        obtain rfl : head = x.1 := by simpa using hhead
        have htier : n.tier = x.2.1 := congrArg Prod.fst hv
        have hprev := hR.head_prev k x.1 n (by rw [hp]; rfl) hn
        refine Or.inl ⟨hlt, ?_⟩
        rw [addLoop_above task hn hprev (by omega)]
        rfl
      · obtain ⟨l₁, a, n, l₂, hsplit, hn, hlow, hcase⟩ := addLoop_cases tier task _ hsp (by simp)
          (by simpa using not_lt.mp hlt) (Nat.lt_succ_of_le hle)
        refine Or.inr ⟨not_lt.mp hlt, ?_⟩
        rcases hcase with ⟨htier, hdone⟩ | ⟨hlt', hnext, hdone⟩
        · refine ⟨_, _, ?_, .files hp (hL.trans hsplit) hn hlow htier⟩
          rw [hdone, Option.map_some]
        · refine ⟨_, _, ?_, .links hp (hL.trans hsplit) hn hlow hlt' hnext⟩
          rw [hdone, Option.map_some]

/-- The bucket of the task is the abstract one after the call, and the others are left alone. -/
theorem Adds.lists (hR : BucketLists w L) {tier : Int} {k : Nat} {task : α} {w' : Wheel α}
    {l : List (Nat × (Int × List α))} (h : Adds w L tier k task w' l) :
    BucketLists w' (Function.update L k l) ∧ tiers l = insertTier tier task (tiers (L k)) ∧
      w'.current = w.current ∧ w'.i = w.i := by
  cases h with
  | opens hempty =>
    refine ⟨addOnce_empty hR hempty tier task, ?_, rfl, rfl⟩
    rw [hR.eq_nil hempty]
    rfl
  | files hhead hsplit hn hlow htier =>
    subst htier
    obtain ⟨hlists, htiers⟩ := append_lists hR hhead hsplit hn task hlow
    exact ⟨hlists, htiers, rfl, rfl⟩
  | links hhead hsplit hn hlow hlt hnext =>
    obtain ⟨hlists, htiers⟩ := insertAfter_lists hR hhead hsplit hn tier task hlow hlt hnext
    exact ⟨hlists, htiers, rfl, rfl⟩

theorem tiers_update {k : Nat} {l : List (Nat × (Int × List α))} (b : Nat) :
    tiers (Function.update L k l b) = if b = k then tiers l else tiers (L b) := by
  by_cases hb : b = k
  · rw [hb, Function.update_self, if_pos rfl]
  · rw [Function.update_of_ne hb, if_neg hb]

end AddOnce

/-! ## The tick -/

theorem resetHead_getElem? (heap : List (TierTask α)) (next : Option Nat) (a : Nat) :
    (resetHead heap next)[a]? =
      if next = some a then (heap[a]?).map fun n => { n with prev := none } else heap[a]? := by
  cases next with
  | none => simp [resetHead]
  | some p =>
    rw [resetHead, List.getElem?_modify]
    by_cases h : p = a
    · subst h
      simp
    · have : ¬ (some p = some a) := fun e => h (Option.some.inj e)
      simp [h]

/-- The tasks of a bucket do not depend on `prev`. -/
theorem resetHead_spells {heap : List (TierTask α)} {p next : Option Nat}
    {l : List (Nat × (Int × List α))} (h : BucketSpells heap p l) :
    BucketSpells (resetHead heap next) p l := by
  induction l generalizing p with
  | nil => exact h
  | cons x l ih =>
    obtain ⟨hp, n, hn, hv, hl⟩ := h
    by_cases hnext : next = some x.1
    · refine ⟨hp, { n with prev := none }, ?_, hv, ih hl⟩
      show (resetHead heap next)[x.1]? = _
      rw [resetHead_getElem?, if_pos hnext, show heap[x.1]? = some n from hn]
      rfl
    · refine ⟨hp, n, ?_, hv, ih hl⟩
      show (resetHead heap next)[x.1]? = _
      rw [resetHead_getElem?, if_neg hnext]
      exact hn

/-- What a tick does: it leaves the bucket of its turn alone, or takes the head off it and runs its
tasks. It looks for the tier of the clock *after* `Incr`. -/
inductive Ticks (w : Wheel α) (L : Nat → List (Nat × (Int × List α))) :
    Wheel α → List α → (Nat → List (Nat × (Int × List α))) → Prop where
  | rests (hhead : ∀ x ∈ (L w.i).head?, x.2.1 ≠ w.current.incr.tier) :
      Ticks w L { w with current := w.current.incr, i := if w.i + 1 < 32 then w.i + 1 else 0 } [] L
  | takes {head : Nat} {n : TierTask α} {l : List (Nat × (Int × List α))}
      (hL : L w.i = (head, (n.tier, n.tasks)) :: l) (hn : w.heap[head]? = some n)
      (hl : BucketSpells w.heap n.next l) (htier : w.current.incr.tier = n.tier) :
      Ticks w L
        { current := w.current.incr, buckets := w.buckets.set w.i n.next,
          heap := resetHead w.heap n.next, i := if w.i + 1 < 32 then w.i + 1 else 0 }
        n.tasks (Function.update L w.i l)

/-- A tick always completes. -/
theorem tick_cases {w : Wheel α} {L : Nat → List (Nat × (Int × List α))} (hR : BucketLists w L)
    (hi : w.i < 32) : ∃ w' out L', tick w = some (w', out) ∧ Ticks w L w' out L' := by
  have hlt : w.i < w.buckets.length := by rw [hR.length]; exact hi
  obtain ⟨p, hp⟩ : ∃ p, w.buckets[w.i]? = some p := ⟨_, List.getElem?_eq_getElem hlt⟩
  cases p with
  | none =>
    refine ⟨_, _, _, by rw [tick, hp]; rfl, .rests ?_⟩
    rw [hR.eq_nil hp]
    simp
  | some head =>
    have hsp := hR.spells w.i
    rw [hp, Option.join_some] at hsp
    cases hL : L w.i with
    | nil => rw [hL] at hsp; exact absurd hsp (by simp [Spells])
    | cons x l =>
      obtain ⟨a, tier, tasks⟩ := x
      rw [hL] at hsp
      obtain ⟨hhead, n, hn, hv, hl⟩ := hsp
      obtain rfl : head = a := by simpa using hhead
      obtain ⟨rfl, rfl⟩ : n.tier = tier ∧ n.tasks = tasks := by simpa using hv
      have hn' : w.heap[head]? = some n := hn
      by_cases htier : w.current.incr.tier = n.tier
      · refine ⟨_, _, _, ?_, .takes hL hn' hl htier⟩
        rw [tick, hp, Option.bind_some]
        simp only [hn', Option.map_some, if_pos htier]
        rfl
      · refine ⟨_, _, _, ?_, .rests ?_⟩
        · rw [tick, hp, Option.bind_some]
          simp only [hn', Option.map_some, if_neg htier]
          rfl
        · rw [hL]
          simpa using Ne.symm htier

/-- A tick takes one tier off the bucket of its turn, or nothing. -/
theorem Ticks.lists {w w' : Wheel α} {L L' : Nat → List (Nat × (Int × List α))} {out : List α}
    (hR : BucketLists w L) (hi : w.i < 32) (h : Ticks w L w' out L') :
    BucketLists w' L' ∧ w'.current = w.current.incr ∧
      w'.i = (if w.i + 1 < 32 then w.i + 1 else 0) ∧
      ((∃ rest, tiers (L w.i) = (w.current.incr.tier, out) :: rest ∧
          ∀ b, tiers (L' b) = if b = w.i then rest else tiers (L b)) ∨
        (out = [] ∧ (∀ x ∈ (tiers (L w.i)).head?, x.1 ≠ w.current.incr.tier) ∧
          ∀ b, tiers (L' b) = tiers (L b))) := by
  have hlt : w.i < w.buckets.length := by rw [hR.length]; exact hi
  cases h with
  | rests hhead =>
    refine ⟨⟨hR.length, hR.spells, hR.nodup, hR.disjoint, hR.head_prev, hR.sorted⟩, rfl, rfl,
      Or.inr ⟨rfl, ?_, fun _ => rfl⟩⟩
    intro y hy
    rw [tiers, List.head?_map, Option.mem_map] at hy
    obtain ⟨x, hx, rfl⟩ := hy
    exact hhead x hx
  | @takes head n l hL hn hl htier =>
    have hset : (w.buckets.set w.i n.next)[w.i]?.join = n.next := by
      rw [List.getElem?_set_self hlt]
      rfl
    have hnd := hR.nodup w.i
    have hsort := hR.sorted w.i
    rw [hL] at hnd hsort
    refine ⟨hR.update ?_ ?_ ?_ ?_ ?_ ?_ ?_ ?_, rfl, rfl, Or.inl ⟨tiers l, ?_, tiers_update⟩⟩
    · rw [List.length_set]
      exact hR.length
    · intro b hb
      exact List.getElem?_set_ne (Ne.symm hb)
    · intro a _ ha
      show (resetHead w.heap n.next)[a]? = _
      rw [resetHead_getElem?, if_neg]
      intro hnext
      rw [hnext] at hl
      rw [hL] at ha
      exact ha (List.mem_cons_of_mem _ (head_mem_addrs hl))
    · rw [hset]
      exact resetHead_spells hl
    · exact (List.nodup_cons.mp hnd).2
    · intro a ha
      left
      rw [hL]
      exact List.mem_cons_of_mem _ ha
    · intro p m hp hm
      rw [hset] at hp
      change (resetHead w.heap n.next)[p]? = some m at hm
      rw [resetHead_getElem?, if_pos hp, Option.map_eq_some_iff] at hm
      obtain ⟨m', -, rfl⟩ := hm
      rfl
    · exact (List.pairwise_cons.mp hsort).2
    · rw [hL, tiers_cons, htier]

end OwnX.TimingWheel
