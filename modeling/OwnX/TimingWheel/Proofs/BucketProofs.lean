import OwnX.TimingWheel.Wheel
import OwnX.Foundations.Proofs.LinkedProofs
import Mathlib.Tactic.Set
import Mathlib.Algebra.Order.Ring.Int

/-!
# Proofs: a bucket list refines a sorted list of tiers

The abstract bucket is the list of its tiers, each with its tasks. The loop of `AddOnce` walks the
linked list and performs `insertTier` on it; it cannot put a tier in front of the head, where it
dereferences a nil `prev`.
-/

namespace OwnX.TimingWheel

variable {α : Type}

/-! ## The abstract bucket -/

/-- Adding a task under a tier: behind the tasks of that tier, or as a new tier at its place. -/
def insertTier (tier : Int) (task : α) : List (Int × List α) → List (Int × List α)
  | [] => [(tier, [task])]
  | (k, tasks) :: l =>
    if tier < k then (tier, [task]) :: (k, tasks) :: l
    else if k = tier then (k, tasks ++ [task]) :: l
    else (k, tasks) :: insertTier tier task l

/-- The tiers of a bucket are strictly increasing. -/
def Sorted (l : List (Int × List α)) : Prop := l.Pairwise fun x y => x.1 < y.1

/-- The tasks filed under a tier. -/
def filed (tier : Int) : List (Int × List α) → List α
  | [] => []
  | (k, tasks) :: l => if k = tier then tasks else filed tier l

theorem filed_eq_nil {tier : Int} {l : List (Int × List α)} (h : ∀ x ∈ l, x.1 ≠ tier) :
    filed tier l = [] := by
  induction l with
  | nil => rfl
  | cons x l ih =>
    rw [filed, if_neg (h x List.mem_cons_self), ih fun y hy => h y (List.mem_cons_of_mem _ hy)]

theorem mem_insertTier {tier : Int} {task : α} {l : List (Int × List α)} {x : Int × List α}
    (h : x ∈ insertTier tier task l) :
    x ∈ l ∨ (x.1 = tier ∧ ∀ t ∈ x.2, t = task ∨ ∃ y ∈ l, y.1 = tier ∧ t ∈ y.2) := by
  induction l with
  | nil =>
    obtain rfl := List.mem_singleton.mp h
    exact Or.inr ⟨rfl, fun t ht => Or.inl (List.mem_singleton.mp ht)⟩
  | cons y l ih =>
    obtain ⟨k, tasks⟩ := y
    rw [insertTier] at h
    split_ifs at h with h1 h2
    · rcases List.mem_cons.mp h with rfl | h
      · exact Or.inr ⟨rfl, fun t ht => Or.inl (List.mem_singleton.mp ht)⟩
      · exact Or.inl h
    · rcases List.mem_cons.mp h with rfl | h
      · refine Or.inr ⟨h2, fun t ht => ?_⟩
        rcases List.mem_append.mp ht with ht | ht
        · exact Or.inr ⟨_, List.mem_cons_self, h2, ht⟩
        · exact Or.inl (List.mem_singleton.mp ht)
      · exact Or.inl (List.mem_cons_of_mem _ h)
    · rcases List.mem_cons.mp h with rfl | h
      · exact Or.inl List.mem_cons_self
      · rcases ih h with h | ⟨h, ht⟩
        · exact Or.inl (List.mem_cons_of_mem _ h)
        · refine Or.inr ⟨h, fun t hmem => (ht t hmem).imp_right ?_⟩
          rintro ⟨z, hz, hz'⟩
          exact ⟨z, List.mem_cons_of_mem _ hz, hz'⟩

theorem insertTier_sorted {tier : Int} {task : α} {l : List (Int × List α)} (h : Sorted l) :
    Sorted (insertTier tier task l) := by
  induction l with
  | nil => exact List.pairwise_singleton _ _
  | cons y l ih =>
    obtain ⟨k, tasks⟩ := y
    obtain ⟨hk, hl⟩ := List.pairwise_cons.mp h
    rw [insertTier]
    split_ifs with h1 h2
    · refine List.pairwise_cons.mpr ⟨fun x hx => ?_, h⟩
      rcases List.mem_cons.mp hx with rfl | hx
      · exact h1
      · exact lt_trans h1 (hk x hx)
    · exact List.pairwise_cons.mpr ⟨hk, hl⟩
    · refine List.pairwise_cons.mpr ⟨fun x hx => ?_, ih hl⟩
      rcases mem_insertTier hx with hx | ⟨hx, -⟩
      · exact hk x hx
      · rw [hx]
        show k < tier
        omega

theorem filed_insertTier_self {tier : Int} {task : α} {l : List (Int × List α)} (h : Sorted l) :
    filed tier (insertTier tier task l) = filed tier l ++ [task] := by
  induction l with
  | nil => simp [insertTier, filed]
  | cons y l ih =>
    obtain ⟨k, tasks⟩ := y
    obtain ⟨hk, hl⟩ := List.pairwise_cons.mp h
    rw [insertTier]
    split_ifs with h1 h2
    · have hnone : filed tier ((k, tasks) :: l) = [] := by
        refine filed_eq_nil fun x hx => ?_
        rcases List.mem_cons.mp hx with rfl | hx
        · exact ne_of_gt h1
        · exact ne_of_gt (lt_trans h1 (hk x hx))
      rw [hnone, filed, if_pos rfl, List.nil_append]
    · rw [filed, filed, if_pos h2, if_pos h2]
    · rw [filed, filed, if_neg h2, if_neg h2, ih hl]

theorem filed_insertTier_of_ne {tier k : Int} {task : α} {l : List (Int × List α)} (h : k ≠ tier) :
    filed k (insertTier tier task l) = filed k l := by
  induction l with
  | nil => simp [insertTier, filed, Ne.symm h]
  | cons y l ih =>
    obtain ⟨k', tasks⟩ := y
    rw [insertTier]
    split_ifs with h1 h2
    · rw [filed, if_neg (Ne.symm h)]
    · rw [filed, filed, h2, if_neg (Ne.symm h), if_neg (Ne.symm h)]
    · rw [filed, filed, ih]

/-- The place of a tier that is found in the list. -/
theorem insertTier_found {tier : Int} {task : α} {l₁ l₂ : List (Int × List α)} {tasks : List α}
    (h : ∀ x ∈ l₁, x.1 < tier) :
    insertTier tier task (l₁ ++ (tier, tasks) :: l₂) = l₁ ++ (tier, tasks ++ [task]) :: l₂ := by
  induction l₁ with
  | nil => simp [insertTier]
  | cons y l₁ ih =>
    have hy := h y List.mem_cons_self
    rw [List.cons_append, insertTier, if_neg (by omega), if_neg (by omega),
      ih fun x hx => h x (List.mem_cons_of_mem _ hx), List.cons_append]

/-- The place of a tier that is new in the list. -/
theorem insertTier_new {tier : Int} {task : α} {l₁ l₂ : List (Int × List α)}
    (h : ∀ x ∈ l₁, x.1 < tier) (h₂ : ∀ x ∈ l₂.head?, tier < x.1) :
    insertTier tier task (l₁ ++ l₂) = l₁ ++ (tier, [task]) :: l₂ := by
  induction l₁ with
  | nil =>
    cases l₂ with
    | nil => rfl
    | cons y l₂ => rw [List.nil_append, insertTier, if_pos (h₂ y (by simp)), List.nil_append]
  | cons y l₁ ih =>
    have hy := h y List.mem_cons_self
    rw [List.cons_append, insertTier, if_neg (by omega), if_neg (by omega),
      ih fun x hx => h x (List.mem_cons_of_mem _ hx), List.cons_append]

/-! ## The linked bucket -/

/-- The linked list from `p` holds the tiers of `l` at the addresses of `l`. -/
abbrev BucketSpells (heap : List (TierTask α)) : Option Nat → List (Nat × (Int × List α)) → Prop :=
  Spells TierTask.next (fun n => (n.tier, n.tasks)) (fun a => heap[a]?)

/-- The tiers of a linked bucket. -/
def tiers (l : List (Nat × (Int × List α))) : List (Int × List α) := l.map Prod.snd

@[simp] theorem tiers_append (l₁ l₂ : List (Nat × (Int × List α))) :
    tiers (l₁ ++ l₂) = tiers l₁ ++ tiers l₂ := List.map_append

@[simp] theorem tiers_cons (x : Nat × (Int × List α)) (l : List (Nat × (Int × List α))) :
    tiers (x :: l) = x.2 :: tiers l := rfl

theorem BucketSpells.lt_length {heap : List (TierTask α)} {p : Option Nat}
    {l : List (Nat × (Int × List α))} (h : BucketSpells heap p l) : ∀ a ∈ addrs l, a < heap.length := by
  induction l generalizing p with
  | nil => intro a ha; simp at ha
  | cons x l ih =>
    obtain ⟨-, c, hc, -, hl⟩ := h
    intro a ha
    rcases List.mem_cons.mp ha with rfl | ha
    · exact (List.getElem?_eq_some_iff.mp hc).1
    · exact ih hl a ha

/-- What the loop of `AddOnce` does on a list whose head is not above the new tier: it finds the last
node that is not above it, and appends there or links a new node in behind it. -/
theorem addLoop_cases (tier : Int) (task : α) {heap : List (TierTask α)} :
    ∀ {l : List (Nat × (Int × List α))} {p : Option Nat} (fuel : Nat), BucketSpells heap p l →
      l ≠ [] → (∀ x ∈ l.head?, x.2.1 ≤ tier) → l.length < fuel →
      ∃ l₁ a n l₂, l = l₁ ++ (a, (n.tier, n.tasks)) :: l₂ ∧ heap[a]? = some n ∧
        (∀ x ∈ l₁, x.2.1 < tier) ∧
        ((n.tier = tier ∧ addLoop tier task fuel heap p =
            some (heap.set a { n with tasks := n.tasks ++ [task] })) ∨
          (n.tier < tier ∧ (∀ x ∈ l₂.head?, tier < x.2.1) ∧
            addLoop tier task fuel heap p = some (insertAfter heap a n tier task))) := by
  intro l
  induction l with
  | nil => intro p fuel _ hne; exact absurd rfl hne
  | cons x l ih =>
    intro p fuel h _ hhead hfuel
    obtain ⟨hp, n, hn, hv, hl⟩ := h
    obtain ⟨a, k, tasks⟩ := x
    simp only at hp hn
    obtain ⟨rfl, rfl⟩ : n.tier = k ∧ n.tasks = tasks := by simpa using hv
    obtain ⟨fuel, rfl⟩ : ∃ f, fuel = f + 1 := ⟨fuel - 1, by simp at hfuel; omega⟩
    have hle : n.tier ≤ tier := by simpa using hhead
    subst hp
    by_cases heq : n.tier = tier
    · refine ⟨[], a, n, l, rfl, hn, by simp, Or.inl ⟨heq, ?_⟩⟩
      rw [addLoop, hn, Option.bind_some, if_neg (by omega), if_pos heq]
    · cases l with
      | nil =>
        -- the end of the list
        have hnext : n.next = none := hl
        refine ⟨[], a, n, [], rfl, hn, by simp, Or.inr ⟨by omega, by simp, ?_⟩⟩
        rw [addLoop, hn, Option.bind_some, if_neg (by omega), if_neg heq, if_pos (by simp [hnext])]
      | cons y l =>
        have hl' := hl
        obtain ⟨hnext, n', hn', hv', -⟩ := hl'
        by_cases hlt : tier < n'.tier
        · refine ⟨[], a, n, y :: l, rfl, hn, by simp, Or.inr ⟨by omega, ?_, ?_⟩⟩
          · simp only [List.head?_cons, Option.mem_some_iff, forall_eq']
            rw [← hv']
            exact hlt
          · rw [addLoop, hn, Option.bind_some, if_neg (by omega), if_neg heq,
              if_pos (by simp [hnext, hn', hlt])]
        · obtain ⟨l₁, a', m, l₂, hsplit, hm, hlow, hcase⟩ := ih fuel hl (by simp)
            (by simp only [List.head?_cons, Option.mem_some_iff, forall_eq']
                rw [← hv']
                show n'.tier ≤ tier
                omega)
            (by simp only [List.length_cons] at hfuel ⊢; omega)
          have hloop : addLoop tier task (fuel + 1) heap (some a) =
              addLoop tier task fuel heap n.next := by
            rw [addLoop, hn, Option.bind_some, if_neg (by omega), if_neg heq,
              if_neg (by simp [hnext, hn', hlt])]
          refine ⟨(a, (n.tier, n.tasks)) :: l₁, a', m, l₂, by rw [hsplit]; rfl, hm, ?_, ?_⟩
          · intro z hz
            rcases List.mem_cons.mp hz with rfl | hz
            · show n.tier < tier
              omega
            · exact hlow z hz
          · rw [hloop]
            exact hcase

/-- A list whose head is above the new tier makes `AddOnce` dereference the nil `prev` of the head. -/
theorem addLoop_above {tier : Int} (task : α) {heap : List (TierTask α)} {a : Nat} {n : TierTask α}
    (hn : heap[a]? = some n) (hprev : n.prev = none) (hlt : tier < n.tier) (fuel : Nat) :
    addLoop tier task fuel heap (some a) = none := by
  cases fuel with
  | zero => rfl
  | succ fuel => rw [addLoop, hn, Option.bind_some, if_pos hlt, insertBefore, hprev, Option.bind_none]

end OwnX.TimingWheel
