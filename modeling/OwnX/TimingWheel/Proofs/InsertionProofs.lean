import OwnX.TimingWheel.Proofs.ScheduleProofs
import Mathlib.Data.List.Chain

/-!
# Proofs: the lists of the buckets

What `AddOnce` leaves in the buckets, read off by walking along `next`. It fails exactly when the task
belongs in front of the head of its bucket. The nodes are linked in both directions until a task is
filed under a new tier between two others: the later one of them keeps its old `prev`.
-/

namespace OwnX.TimingWheel

variable {α : Type}

/-! ## The walk -/

theorem getElem?_of_mem_walk {heap : List (TierTask α)} {x : Nat × TierTask α} :
    ∀ {fuel : Nat} {p : Option Nat}, x ∈ walk heap fuel p → heap[x.1]? = some x.2 := by
  intro fuel
  induction fuel with
  | zero => intro p hx; simp [walk] at hx
  | succ fuel ih =>
    intro p hx
    cases p with
    | none => simp [walk] at hx
    | some a =>
      rw [walk] at hx
      cases hn : heap[a]? with
      | none => rw [hn] at hx; simp at hx
      | some n =>
        rw [hn] at hx
        rcases List.mem_cons.mp hx with rfl | hx
        · exact hn
        · exact ih hx

/-- The walk visits the nodes of the list. -/
theorem walk_spells {heap : List (TierTask α)} {l : List (Nat × (Int × List α))} :
    ∀ {fuel : Nat} {p : Option Nat}, BucketSpells heap p l → l.length ≤ fuel →
      (walk heap fuel p).map (fun x => (x.1, (x.2.tier, x.2.tasks))) = l := by
  induction l with
  | nil =>
    intro fuel p hsp _
    have hp : p = none := hsp
    subst hp
    cases fuel <;> rfl
  | cons y l ih =>
    intro fuel p hsp hfuel
    obtain ⟨rfl, n, hn, hv, hl⟩ := hsp
    obtain ⟨fuel, rfl⟩ : ∃ f, fuel = f + 1 := ⟨fuel - 1, by simp at hfuel; omega⟩
    have hn' : heap[y.1]? = some n := hn
    have hrest := ih hl (by simpa using hfuel)
    simp only [walk, hn', List.map_cons, hrest]
    rw [show (n.tier, n.tasks) = y.2 from hv]

section Lists

variable {w w' : Wheel α} {L : Nat → List (Nat × (Int × List α))}

theorem BucketLists.nodes_eq (hR : BucketLists w L) (b : Nat) :
    (w.nodes b).map (fun x => (x.1, (x.2.tier, x.2.tasks))) = L b :=
  walk_spells (hR.spells b) (hR.length_le b)

theorem BucketLists.bucket_eq (hR : BucketLists w L) (b : Nat) : w.bucket b = tiers (L b) := by
  rw [← hR.nodes_eq b, tiers, List.map_map]
  rfl

theorem BucketLists.addrs_eq (hR : BucketLists w L) (b : Nat) :
    addrs (L b) = (w.nodes b).map Prod.fst := by
  rw [← hR.nodes_eq b, addrs, List.map_map]
  rfl

end Lists

/-! ## `AddOnce` on a reachable wheel -/

/-- The slot of a timestamp is in one of the buckets. -/
theorem slot_bucket {now : Int} {c : Current} (h : c.Clock now) (timestamp : Int) :
    ∃ (tier : Int) (k : Nat), c.slot timestamp = (tier, (k : Int)) ∧ k < 32 := by
  obtain ⟨h0, h1, -⟩ := slot_time h timestamp
  refine ⟨(c.slot timestamp).1, (c.slot timestamp).2.toNat, ?_, by omega⟩
  rw [Int.toNat_of_nonneg h0]

/-- `AddOnce` completes exactly if no tier in front of the slot's would have to become the head of a
list. Then every list is sorted, and the task is the last one under its tier. -/
theorem addOnce_completes_iff {now : Int} {s : Wheel (α × Nat) × Log α}
    (h : (machine now).Reachable s) (task : α × Nat) (timestamp : Int) :
    ((addOnce s.1 task timestamp).isSome ↔
      ∀ x ∈ (s.1.bucket (s.1.current.slot timestamp).2.toNat).head?,
        x.1 ≤ (s.1.current.slot timestamp).1) ∧
    ∀ w', addOnce s.1 task timestamp = some w' →
      (∀ b, Sorted (w'.bucket b)) ∧
      ∀ b tier, filed tier (w'.bucket b) =
        if b = (s.1.current.slot timestamp).2.toNat ∧ tier = (s.1.current.slot timestamp).1 then
          filed tier (s.1.bucket b) ++ [task]
        else filed tier (s.1.bucket b) := by
  obtain ⟨L, hL, hclock, -, -⟩ := inv_reachable h
  obtain ⟨tier, k, hslot, hk⟩ := slot_bucket hclock timestamp
  have hhead : (∀ x ∈ (s.1.bucket k).head?, x.1 ≤ tier) ↔ ∀ x ∈ (L k).head?, x.2.1 ≤ tier := by
    rw [hL.bucket_eq]
    cases L k with
    | nil => simp [tiers]
    | cons x l => simp [tiers]
  rw [hslot]
  simp only [Int.toNat_natCast]
  rw [hhead]
  rcases addOnce_cases hL task hslot hk with ⟨⟨x, hx, hlt⟩, hnone⟩ | ⟨hle, w₁, l, hsome, hadds⟩
  · rw [hnone]
    refine ⟨iff_of_false (by simp) fun hle => ?_, fun w' hw' => by cases hw'⟩
    have hxle := hle x hx
    omega
  · rw [hsome]
    refine ⟨iff_of_true rfl hle, fun w' hw' => ?_⟩
    obtain rfl : w₁ = w' := Option.some.inj hw'
    obtain ⟨hL', htiers, -, -⟩ := hadds.lists hL
    refine ⟨fun b => by rw [hL'.bucket_eq]; exact hL'.sorted b, fun b t => ?_⟩
    rw [hL'.bucket_eq, hL.bucket_eq, tiers_update, htiers]
    by_cases hb : b = k
    · subst hb
      by_cases ht : t = tier
      · subst ht
        simp [filed_insertTier_self (hL.sorted b)]
      · simp [ht, filed_insertTier_of_ne ht]
    · simp [hb]

/-- A task for second `137` is filed, then one for second `105`, which is in the same bucket and nearer:
`AddOnce` dereferences the nil `prev` of the head. -/
theorem addOnce_nearer_panics :
    ∃ s, (machine 100 : Machine (Wheel (String × Nat) × Log String) (Op String)).Reachable s ∧
      addOnce s.1 ("backup", 1) 105 = none := by
  have hrun : ((machine 100).run ((init 100, {}) : Wheel (String × Nat) × Log String)
      [.addOnce "report" 137]).map (fun s => (addOnce s.1 ("backup", 1) 105).isNone) = some true := by
    decide
  obtain ⟨s, hreach, hobs⟩ := Machine.observed_of_run hrun rfl
  exact ⟨s, hreach, Option.isNone_iff_eq_none.mp hobs⟩

/-- The other way round both are filed. -/
theorem addOnce_completes_iff_farther :
    ∃ s w', (machine 100 : Machine (Wheel (String × Nat) × Log String) (Op String)).Reachable s ∧
      addOnce s.1 ("report", 1) 137 = some w' ∧ Sorted (w'.bucket 5) := by
  have hrun : ((machine 100).run ((init 100, {}) : Wheel (String × Nat) × Log String)
      [.addOnce "backup" 105]).map (fun s => (addOnce s.1 ("report", 1) 137).isSome) = some true := by
    decide
  obtain ⟨s, hreach, hobs⟩ := Machine.observed_of_run hrun rfl
  obtain ⟨w', hw'⟩ := Option.isSome_iff_exists.mp hobs
  exact ⟨s, w', hreach, hw', ((addOnce_completes_iff hreach ("report", 1) 137).2 w' hw').1 5⟩

/-! ## The links back -/

/-- The `prev` of the node at an address. -/
def prevAt (heap : List (TierTask α)) (a : Nat) : Option Nat := heap[a]?.bind TierTask.prev

/-- Each address of a list is the `prev` of the next one. -/
def LinkedBack (heap : List (TierTask α)) (as : List Nat) : Prop :=
  as.IsChain fun a b => prevAt heap b = some a

theorem prevAt_of_some {heap : List (TierTask α)} {a : Nat} {n : TierTask α}
    (h : heap[a]? = some n) : prevAt heap a = n.prev := by
  rw [prevAt, h, Option.bind_some]

/-- The `prev` of the first node does not matter. -/
theorem LinkedBack.frame {heap heap' : List (TierTask α)} {as : List Nat} (h : LinkedBack heap as)
    (hsame : ∀ a ∈ as.tail, prevAt heap' a = prevAt heap a) : LinkedBack heap' as := by
  cases as with
  | nil => exact List.isChain_nil
  | cons a as =>
    induction as generalizing a with
    | nil => exact List.isChain_singleton a
    | cons b as ih =>
      obtain ⟨hab, hrest⟩ := List.isChain_cons_cons.mp h
      refine List.isChain_cons_cons.mpr ⟨(hsame b List.mem_cons_self).trans hab, ?_⟩
      exact ih b hrest fun c hc => hsame c (List.mem_cons_of_mem _ hc)

theorem linkedBack_iff {heap : List (TierTask α)} {l : List (Nat × (Int × List α))} :
    ∀ {p : Option Nat}, BucketSpells heap p l → (LinkedBack heap (addrs l) ↔
      ∀ a ∈ addrs l, ∀ n ∈ heap[a]?, ∀ q ∈ n.next, ∀ m ∈ heap[q]?, m.prev = some a) := by
  induction l with
  | nil => intro p _; simp [LinkedBack]
  | cons x l ih =>
    rintro p ⟨-, n, hn, -, hl⟩
    have hn' : heap[x.1]? = some n := hn
    rw [addrs_cons, List.forall_mem_cons, ← ih hl]
    simp only [hn', Option.mem_some_iff, forall_eq']
    cases l with
    | nil =>
      have hnext : n.next = none := hl
      simp [LinkedBack, hnext]
    | cons y l =>
      obtain ⟨hnext, m, hm, -, -⟩ := hl
      have hm' : heap[y.1]? = some m := hm
      rw [addrs_cons, LinkedBack, List.isChain_cons_cons, prevAt_of_some hm', hnext]
      simp only [Option.mem_some_iff, forall_eq', hm']
      rfl

theorem head_walk {heap : List (TierTask α)} {fuel : Nat} {p : Option Nat} {x : Nat × TierTask α}
    (h : x ∈ (walk heap fuel p).head?) : p = some x.1 := by
  cases fuel with
  | zero => simp [walk] at h
  | succ fuel =>
    cases p with
    | none => simp [walk] at h
    | some a =>
      rw [walk] at h
      split at h
      · simp at h
      · obtain rfl := Option.some.inj h
        rfl

section Links

variable {w w' : Wheel α} {L : Nat → List (Nat × (Int × List α))}

/-- A wheel is doubly linked if its lists are linked back. The heads have no `prev` anyway. -/
theorem BucketLists.doublyLinked_iff (hR : BucketLists w L) :
    w.DoublyLinked ↔ ∀ b, LinkedBack w.heap (addrs (L b)) := by
  have hnodes : ∀ b, LinkedBack w.heap (addrs (L b)) ↔
      ∀ x ∈ w.nodes b, ∀ next ∈ x.2.next, ∀ node ∈ w.heap[next]?, node.prev = some x.1 := by
    intro b
    rw [linkedBack_iff (hR.spells b), hR.addrs_eq, List.forall_mem_map]
    refine forall₂_congr fun x hx => ?_
    rw [getElem?_of_mem_walk hx]
    simp
  have hheads : ∀ b, ∀ x ∈ (w.nodes b).head?, x.2.prev = none := by
    intro b x hx
    exact hR.head_prev b x.1 x.2 (head_walk hx) (getElem?_of_mem_walk (List.mem_of_mem_head? hx))
  constructor
  · intro h b
    by_cases hb : b < w.buckets.length
    · exact (hnodes b).mpr (h b hb).2
    · have hsp := hR.spells b
      rw [List.getElem?_eq_none (Nat.not_lt.mp hb)] at hsp
      rw [linkedBack_iff hsp]
      intro a ha
      cases hL : L b with
      | nil => rw [hL] at ha; simp at ha
      | cons x l => rw [hL] at hsp; exact absurd hsp.1 (by simp)
  · intro h b _
    exact ⟨hheads b, (hnodes b).mp (h b)⟩

/-- A tier is new, and belongs between two others. -/
def Between (tier : Int) (ts : List Int) : Prop :=
  tier ∉ ts ∧ (∃ t ∈ ts, t < tier) ∧ ∃ t ∈ ts, tier < t

instance (tier : Int) (ts : List Int) : Decidable (Between tier ts) :=
  inferInstanceAs (Decidable (_ ∧ _ ∧ _))

/-- A tier that belongs right behind `t` is between two others unless `t` is the last tier. -/
theorem between_split_iff {l₁ l₂ : List Int} {t tier : Int} (hsort : l₂.Pairwise (· < ·))
    (hlow : ∀ x ∈ l₁, x < tier) (hlt : t < tier) (hnext : ∀ y ∈ l₂.head?, tier < y) :
    Between tier (l₁ ++ t :: l₂) ↔ l₂ ≠ [] := by
  constructor
  · rintro ⟨-, -, u, hu, hgt⟩ rfl
    rcases List.mem_append.mp hu with hu | hu
    · exact absurd (hlow u hu) (not_lt.mpr hgt.le)
    · rw [List.mem_singleton.mp hu] at hgt
      exact absurd hlt (not_lt.mpr hgt.le)
  · intro hne
    obtain ⟨y, l, rfl⟩ := List.exists_cons_of_ne_nil hne
    have hy : tier < y := hnext y rfl
    refine ⟨fun hmem => ?_, ⟨t, by simp, hlt⟩, ⟨y, by simp, hy⟩⟩
    rcases List.mem_append.mp hmem with hmem | hmem
    · exact absurd (hlow tier hmem) (lt_irrefl tier)
    · rcases List.mem_cons.mp hmem with rfl | hmem
      · exact absurd hlt (lt_irrefl tier)
      · rcases List.mem_cons.mp hmem with rfl | hmem
        · exact absurd hy (lt_irrefl tier)
        · exact absurd ((List.pairwise_cons.mp hsort).1 tier hmem) (not_lt.mpr hy.le)

/-- `AddOnce` leaves the `prev` of every node it finds alone. -/
theorem Adds.prevAt {tier : Int} {k : Nat} {task : α} {l : List (Nat × (Int × List α))}
    (h : Adds w L tier k task w' l) {a : Nat} (ha : a < w.heap.length) :
    TimingWheel.prevAt w'.heap a = TimingWheel.prevAt w.heap a := by
  cases h with
  | opens =>
    unfold TimingWheel.prevAt
    rw [List.getElem?_append_left ha]
  | @files head b n l₁ l₂ _ _ hn _ _ =>
    by_cases hab : a = b
    · subst hab
      rw [prevAt_of_some hn, prevAt_of_some (List.getElem?_set_self ha)]
    · unfold TimingWheel.prevAt
      rw [List.getElem?_set_ne (Ne.symm hab)]
  | @links head b n l₁ l₂ _ _ hn _ _ _ =>
    have hlen : a < (w.heap.set b { n with next := some w.heap.length }).length := by
      rwa [List.length_set]
    have hold : (insertAfter w.heap b n tier task)[a]? =
        (w.heap.set b { n with next := some w.heap.length })[a]? :=
      List.getElem?_append_left hlen
    by_cases hab : a = b
    · subst hab
      rw [prevAt_of_some hn, prevAt_of_some (hold.trans (List.getElem?_set_self ha))]
    · unfold TimingWheel.prevAt
      rw [hold, List.getElem?_set_ne (Ne.symm hab)]

/-- The list of the task is linked back unless its tier is new and between two others. -/
theorem Adds.linkedBack_iff {tier : Int} {k : Nat} {task : α} {l : List (Nat × (Int × List α))}
    (hR : BucketLists w L) (hback : LinkedBack w.heap (addrs (L k)))
    (h : Adds w L tier k task w' l) :
    LinkedBack w'.heap (addrs l) ↔ ¬ Between tier ((tiers (L k)).map Prod.fst) := by
  have hsame : ∀ as : List Nat, (∀ a ∈ as, a ∈ addrs (L k)) → LinkedBack w.heap as →
      LinkedBack w'.heap as := by
    intro as hsub has
    refine has.frame fun a ha => h.prevAt ?_
    exact (hR.spells k).lt_length a (hsub a (List.mem_of_mem_tail ha))
  cases h with
  | opens hempty =>
    rw [hR.eq_nil hempty]
    exact iff_of_true (List.isChain_singleton _) (by simp [Between, tiers])
  | @files head a n l₁ l₂ _ hsplit hn hlow htier =>
    refine iff_of_true (hsame _ ?_ ?_) ?_
    · rw [hsplit]
      simp
    · rw [hsplit] at hback
      simpa using hback
    · rw [hsplit]
      simp [Between, htier]
  | @links head a n l₁ l₂ hhead hsplit hn hlow hlt hnext =>
    have hlen : (w.heap.set a { n with next := some w.heap.length }).length = w.heap.length :=
      List.length_set
    have hnew : TimingWheel.prevAt (insertAfter w.heap a n tier task) w.heap.length = some a := by
      apply prevAt_of_some (n := { tier := tier, tasks := [task], prev := some a, next := n.next })
      rw [insertAfter, List.getElem?_append_right (by omega), hlen, Nat.sub_self]
      rfl
    have hbetween : Between tier ((tiers (L k)).map Prod.fst) ↔ l₂ ≠ [] := by
      have hsort := hR.sorted k
      rw [hsplit, tiers_append, tiers_cons] at hsort
      rw [hsplit, tiers_append, tiers_cons, List.map_append, List.map_cons]
      refine (between_split_iff ?_ ?_ hlt ?_).trans ?_
      · exact List.pairwise_map.mpr (List.pairwise_cons.mp (List.pairwise_append.mp hsort).2.1).2
      · intro x hx
        simp only [tiers, List.map_map, List.mem_map] at hx
        obtain ⟨y, hy, rfl⟩ := hx
        exact hlow y hy
      · intro y hy
        cases l₂ with
        | nil => cases hy
        | cons z l₂ =>
          cases hy
          exact hnext z rfl
      · simp [tiers]
    rw [hbetween, not_not]
    rw [hsplit] at hback hsame
    simp only [addrs_append, addrs_cons] at hback hsame ⊢
    obtain ⟨hfront, hrest⟩ := List.isChain_split.mp hback
    rw [LinkedBack, List.isChain_append_cons_cons]
    cases l₂ with
    | nil =>
      -- the new node is the last one
      refine iff_of_true ⟨hsame _ ?_ hfront, hnew, List.isChain_singleton _⟩ rfl
      simp
    | cons y l₂ =>
      -- the node behind it still has the node before it as its `prev`
      refine iff_of_false ?_ (List.cons_ne_nil y l₂)
      rintro ⟨-, -, hchain⟩
      have hstale : TimingWheel.prevAt w.heap y.1 = some a := (List.isChain_cons_cons.mp hrest).1
      have hwant := (List.isChain_cons_cons.mp hchain).1
      have hylt : y.1 < w.heap.length := by
        refine (hR.spells k).lt_length _ ?_
        rw [hsplit]
        simp
      rw [(Adds.links hhead hsplit hn hlow hlt hnext).prevAt hylt, hstale] at hwant
      have halt : a < w.heap.length := (List.getElem?_eq_some_iff.mp hn).1
      exact absurd (Option.some.inj hwant) halt.ne

/-- `AddOnce` files the task under a new tier between two others. -/
def Wheel.InsertsBetween (w : Wheel α) (timestamp : Int) : Prop :=
  Between (w.current.slot timestamp).1
    ((w.bucket (w.current.slot timestamp).2.toNat).map Prod.fst)

instance (w : Wheel α) (timestamp : Int) : Decidable (w.InsertsBetween timestamp) :=
  inferInstanceAs (Decidable (Between _ _))

theorem addOnce_doublyLinked_iff {now : Int} (hR : BucketLists w L) (hclock : w.current.Clock now)
    (hlinked : w.DoublyLinked) {task : α} {timestamp : Int}
    (h : addOnce w task timestamp = some w') :
    w'.DoublyLinked ↔ ¬ w.InsertsBetween timestamp := by
  obtain ⟨tier, k, hslot, hk⟩ := slot_bucket hclock timestamp
  rcases addOnce_cases hR task hslot hk with ⟨-, hnone⟩ | ⟨-, w₁, l, hsome, hadds⟩
  · cases hnone.symm.trans h
  · obtain rfl : w₁ = w' := Option.some.inj (hsome.symm.trans h)
    have hback := hR.doublyLinked_iff.mp hlinked
    have hbetween : w.InsertsBetween timestamp ↔ Between tier ((tiers (L k)).map Prod.fst) := by
      unfold Wheel.InsertsBetween
      rw [hslot, Int.toNat_natCast, hR.bucket_eq]
    rw [hbetween, (hadds.lists hR).1.doublyLinked_iff, ← hadds.linkedBack_iff hR (hback k)]
    constructor
    · intro hall
      have hk' := hall k
      rwa [Function.update_self] at hk'
    · intro hl b
      by_cases hb : b = k
      · rw [hb, Function.update_self]
        exact hl
      · rw [Function.update_of_ne hb]
        refine (hback b).frame fun a ha => hadds.prevAt ?_
        exact (hR.spells b).lt_length a (List.mem_of_mem_tail ha)

theorem prevAt_resetHead {heap : List (TierTask α)} {next : Option Nat} {a : Nat}
    (h : next ≠ some a) : prevAt (resetHead heap next) a = prevAt heap a := by
  rw [prevAt, resetHead_getElem?, if_neg h, prevAt]

/-- Taking the head off keeps the links of the rest. -/
theorem Ticks.doublyLinked {L' : Nat → List (Nat × (Int × List α))} {out : List α}
    (hR : BucketLists w L) (hi : w.i < 32) (hlinked : w.DoublyLinked) (h : Ticks w L w' out L') :
    w'.DoublyLinked := by
  rw [(h.lists hR hi).1.doublyLinked_iff]
  have hback := hR.doublyLinked_iff.mp hlinked
  cases h with
  | rests => exact hback
  | @takes head n l hL hn hl htier =>
    have hnd := hR.nodup w.i
    have hown := hback w.i
    rw [hL, addrs_cons] at hnd hown
    intro b
    by_cases hb : b = w.i
    · rw [hb, Function.update_self]
      refine LinkedBack.frame (List.IsChain.tail hown) fun a ha => prevAt_resetHead fun hnext => ?_
      cases l with
      | nil => simp at ha
      | cons y l =>
        obtain rfl : y.1 = a := Option.some.inj (hl.1.symm.trans hnext)
        exact (List.nodup_cons.mp (List.nodup_cons.mp hnd).2).1 ha
    · rw [Function.update_of_ne hb]
      refine (hback b).frame fun a ha => prevAt_resetHead fun hnext => ?_
      have hmem : a ∈ addrs (L w.i) := by
        rw [hL]
        exact List.mem_cons_of_mem _ (head_mem_addrs (hnext ▸ hl))
      exact hR.disjoint b w.i hb a (List.mem_of_mem_tail ha) hmem

end Links

/-- The operations that file no task under a new tier between two others. -/
def NoneBetween (s : Wheel (α × Nat) × Log α) : Op α → Prop
  | .addOnce _ timestamp => ¬ s.1.InsertsBetween timestamp
  | .tick => True

instance (s : Wheel (α × Nat) × Log α) (op : Op α) : Decidable (NoneBetween s op) :=
  match op with
  | .addOnce _ timestamp => inferInstanceAs (Decidable (¬ s.1.InsertsBetween timestamp))
  | .tick => inferInstanceAs (Decidable True)

theorem doublyLinked_init (now : Int) : (init now : Wheel α).DoublyLinked :=
  (init_lists now).doublyLinked_iff.mpr fun _ => List.isChain_nil

theorem doublyLinked_step {now : Int} {s s' : Wheel (α × Nat) × Log α} {op : Op α} (h : Inv now s)
    (hlinked : s.1.DoublyLinked) (hok : NoneBetween s op) (hs : step s op = some s') :
    s'.1.DoublyLinked := by
  obtain ⟨L, hL, hclock, hi, -⟩ := h
  cases op with
  | addOnce task timestamp =>
    obtain ⟨w', hadd, rfl⟩ := Option.map_eq_some_iff.mp hs
    exact (addOnce_doublyLinked_iff hL hclock hlinked hadd).mpr hok
  | tick =>
    obtain ⟨⟨w', out⟩, htick, rfl⟩ := Option.map_eq_some_iff.mp hs
    have hilt : s.1.i < 32 := by
      have := hclock.index_lt
      omega
    obtain ⟨w₁, out₁, L', htick', hticks⟩ := tick_cases hL hilt
    obtain ⟨rfl, rfl⟩ := Prod.mk.inj (Option.some.inj (htick.symm.trans htick'))
    exact hticks.doublyLinked hL hilt hlinked

/-- The wheel is doubly linked as long as no task is filed under a new tier between two others, and
the first task that is breaks the links. -/
theorem doublyLinked_until_between {now : Int} {s : Wheel (α × Nat) × Log α}
    (h : (machine now).ReachableWhen NoneBetween s) :
    s.1.DoublyLinked ∧ ∀ (task : α × Nat) timestamp w', addOnce s.1 task timestamp = some w' →
      (w'.DoublyLinked ↔ ¬ s.1.InsertsBetween timestamp) := by
  have hinv : Inv now s ∧ s.1.DoublyLinked := by
    refine h.invariant (fun s => Inv now s ∧ s.1.DoublyLinked) ?_ ?_
    · intro s hs
      rw [show s = (init now, {}) from hs]
      exact ⟨inv_init now, doublyLinked_init now⟩
    · intro s op s' _ ⟨hs, hlinked⟩ hok hstep
      exact ⟨inv_step hs hstep, doublyLinked_step hs hlinked hok hstep⟩
  obtain ⟨⟨L, hL, hclock, -, -⟩, hlinked⟩ := hinv
  exact ⟨hlinked, fun task timestamp w' hadd => addOnce_doublyLinked_iff hL hclock hlinked hadd⟩

/-- Three tasks of one bucket, each farther than the one before, and six ticks: the first one is gone,
and the list is doubly linked. -/
theorem doublyLinked_until_between_rising :
    ∃ s, (machine 100 : Machine (Wheel (String × Nat) × Log String) (Op String)).ReachableWhen
        NoneBetween s ∧ (s.1.bucket 5).map Prod.fst = [1, 2] ∧ s.1.DoublyLinked := by
  have hrun : (((machine 100).restrict NoneBetween).run
      ((init 100, {}) : Wheel (String × Nat) × Log String)
      ([.addOnce "backup" 105, .addOnce "report" 137, .addOnce "audit" 169] ++
        List.replicate 6 .tick)).map (fun s => (s.1.bucket 5).map Prod.fst) = some [1, 2] := by
    decide
  obtain ⟨s, hreach, hobs⟩ := Machine.observedWhen_of_run hrun rfl
  exact ⟨s, hreach, hobs, (doublyLinked_until_between hreach).1⟩

/-- Tiers `0` and `2` of a bucket, then tier `1`: the `prev` of tier `2` is still tier `0`. -/
theorem prev_stale_between :
    ∃ s, (machine 100 : Machine (Wheel (String × Nat) × Log String) (Op String)).Reachable s ∧
      ¬ s.1.DoublyLinked := by
  have hrun : ((machine 100).run ((init 100, {}) : Wheel (String × Nat) × Log String)
      [.addOnce "backup" 105, .addOnce "audit" 169, .addOnce "report" 137]).map
        (fun s => decide s.1.DoublyLinked) = some false := by
    decide
  obtain ⟨s, hreach, hobs⟩ := Machine.observed_of_run hrun rfl
  exact ⟨s, hreach, of_decide_eq_false hobs⟩

end OwnX.TimingWheel
