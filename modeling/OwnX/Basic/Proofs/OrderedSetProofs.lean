import OwnX.Basic.OrderedSet
import OwnX.Basic.Proofs.OrderedMapProofs
import OwnX.Foundations.Proofs.LinearizabilityProofs

/-!
# The representation of an ordered set

`store` is a list of numbered items, and `index` is the same list read the other way. A section under
the lock keeps this if what the lookup found still holds.
-/

namespace OwnX.Basic.OrderedSet

open OrderedMap (Distinct)

variable {T : Type} [BEq T] {s : OrderedSet T} {l : List (Int × T)} {x : T} {i : Int}

/-- The set consists of the numbered items of `l`. -/
structure Rep (s : OrderedSet T) (l : List (Int × T)) : Prop where
  store : s.store.Represents l
  index : ∀ x, s.index.get? x = assocGet (l.map Prod.swap) x
  bound : ∀ e ∈ l, e.1 < s.currentIndex
  items : Distinct (l.map Prod.snd)

theorem rep_empty : Rep ({} : OrderedSet T) [] :=
  ⟨OrderedMap.represents_empty, fun _ => rfl, by simp, List.Pairwise.nil⟩

@[simp]
theorem index_put (s : OrderedSet T) (x : T) : (s.put x).index = s.index.set x s.currentIndex := rfl

@[simp]
theorem index_removeLocked (s : OrderedSet T) (i : Int) (x : T) :
    (s.removeLocked i x).index = s.index.delete x := rfl

@[simp]
theorem store_removeLocked (s : OrderedSet T) (i : Int) (x : T) :
    (s.removeLocked i x).store = s.store.remove i := rfl

omit [BEq T] in
theorem map_fst_swap (l : List (Int × T)) : (l.map Prod.swap).map Prod.fst = l.map Prod.snd := by
  rw [List.map_map]
  rfl

theorem any_items (l : List (Int × T)) (x : T) :
    (assocGet (l.map Prod.swap) x).isSome = (l.map Prod.snd).any (· == x) := by
  rw [Bool.eq_iff_iff, assocGet_isSome_iff, ← map_fst_swap, List.any_map, List.any_eq_true]
  rfl

/-- An item that is in `index` is in the list. -/
theorem Rep.mem_of_index (h : Rep s l) (hx : s.index.get? x = some i) : ∃ y, (i, y) ∈ l ∧ y == x := by
  rw [h.index] at hx
  obtain ⟨e, he, hex, hei⟩ := assocGet_eq_some hx
  obtain ⟨e', he', rfl⟩ := List.mem_map.1 he
  exact ⟨e'.2, by rwa [← hei], hex⟩

theorem Rep.store_of_mem (h : Rep s l) {e : Int × T} (he : e ∈ l) :
    s.store.store.get? e.1 = some e.2 := by
  rw [h.store.store]
  exact assocGet_of_mem h.store.distinct he BEq.rfl

variable [PartialEquivBEq T]

theorem Rep.index_of_mem (h : Rep s l) {e : Int × T} (he : e ∈ l) (hrefl : e.2 == e.2) :
    s.index.get? e.2 = some e.1 := by
  have hd : Distinct ((l.map Prod.swap).map Prod.fst) := by
    rw [map_fst_swap]
    exact h.items
  rw [h.index]
  exact assocGet_of_mem (e := e.swap) hd (List.mem_map.2 ⟨e, he, rfl⟩) hrefl

/-- Number and item of an entry go together. -/
theorem Rep.number_iff (h : Rep s l) (hx : s.index.get? x = some i) {e : Int × T} (he : e ∈ l) :
    (e.1 == i) = (e.2 == x) := by
  obtain ⟨y, hy, hyx⟩ := h.mem_of_index hx
  rw [Bool.eq_iff_iff, beq_iff_eq]
  constructor
  · intro hei
    have hstore := h.store_of_mem he
    rw [hei, h.store_of_mem hy] at hstore
    rw [← Option.some.inj hstore]
    exact hyx
  · intro hex
    have hindex := h.index_of_mem he (BEq.trans hex (BEq.symm hex))
    rw [GoMap.get?_congr hex, hx] at hindex
    exact (Option.some.inj hindex).symm

theorem Rep.injective (h : Rep s l) {y : T} (hx : s.index.get? x = some i)
    (hy : s.index.get? y = some i) : x == y := by
  obtain ⟨x', hx', hxx⟩ := h.mem_of_index hx
  obtain ⟨y', hy', hyy⟩ := h.mem_of_index hy
  have hstore := h.store_of_mem hx'
  rw [h.store_of_mem hy'] at hstore
  obtain rfl : y' = x' := Option.some.inj hstore
  exact BEq.trans (BEq.symm hxx) hyy

/-! ## The sections under the lock -/

omit [PartialEquivBEq T] in
/-- An item gets a new number. -/
theorem Rep.store_put (h : Rep s l) (x : T) :
    (s.put x).store.Represents (l ++ [(s.currentIndex, x)]) := by
  have hnew : assocGet l s.currentIndex = none := by
    refine assocGet_eq_none_iff.2 fun e he => ?_
    have hlt := h.bound e he
    simp only [beq_eq_false_iff_ne, ne_eq]
    omega
  have hput := h.store.put s.currentIndex x
  rw [OrderedMap.assocPut, hnew] at hput
  exact hput

theorem Rep.put (h : Rep s l) (habsent : s.index.get? x = none) :
    Rep (s.put x) (l ++ [(s.currentIndex, x)]) where
  store := h.store_put x
  index := by
    intro y
    rw [index_put, GoMap.get?_set, List.map_append, assocGet_append, ← h.index, List.map_singleton,
      Prod.swap_prod_mk, assocGet_singleton]
    by_cases hxy : x == y
    · rw [if_pos hxy, if_pos hxy, ← GoMap.get?_congr hxy, habsent, Option.none_or]
    · rw [if_neg hxy, if_neg hxy, Option.or_none]
  bound := by
    intro e he
    rcases List.mem_append.1 he with he | he
    · exact Int.lt_add_one_of_le (Int.le_of_lt (h.bound e he))
    · rw [List.mem_singleton.1 he]
      exact Int.lt_succ _
  items := by
    have hnew := assocGet_eq_none_iff.1 ((h.index x).symm.trans habsent)
    rw [List.map_append, Distinct, List.pairwise_append]
    refine ⟨h.items, List.pairwise_singleton _ _, ?_⟩
    intro a ha b hb
    obtain ⟨e, he, rfl⟩ := List.mem_map.1 ha
    rw [List.map_singleton, List.mem_singleton] at hb
    rw [hb, BEq.comm]
    exact hnew e.swap (List.mem_map.2 ⟨e, he, rfl⟩)

/-- An item with its number is removed. -/
theorem Rep.removeLocked (h : Rep s l) (hx : s.index.get? x = some i) :
    Rep (s.removeLocked i x) (OrderedMap.assocRemove l i) where
  store := h.store.remove i
  index := by
    intro y
    have hfilter : OrderedMap.assocRemove l i = l.filter fun e => !(e.2 == x) := by
      rw [OrderedMap.assocRemove, eraseP_eq_filter h.store.distinct]
      refine List.filter_congr fun e he => ?_
      rw [h.number_iff hx he]
    have hswap : (l.filter fun e => !(e.2 == x)).map Prod.swap =
        (l.map Prod.swap).filter fun e => !(e.1 == x) := by
      rw [List.filter_map]
      rfl
    rw [index_removeLocked, GoMap.get?_delete, hfilter, hswap, assocGet_filter, h.index]
  bound := fun e he => h.bound e (List.mem_of_mem_eraseP he)
  items := h.items.sublist (List.eraseP_sublist.map Prod.snd)

/-- Nothing changes when the item and its number are gone. -/
theorem Rep.removeGone (h : Rep s l) (hx : s.index.get? x = none)
    (hi : ∀ e ∈ l, e.1 ≠ i) : Rep (s.removeLocked i x) l where
  store := by
    have hnone : assocGet l i = none :=
      assocGet_eq_none_iff.2 fun e he => beq_eq_false_iff_ne.2 (hi e he)
    have hsame : s.store.remove i = s.store := by
      rw [OrderedMap.remove, h.store.store, hnone]
      rfl
    rw [store_removeLocked, hsame]
    exact h.store
  index := by
    intro y
    rw [index_removeLocked, GoMap.get?_delete, ← h.index]
    split
    · next hxy => rw [← GoMap.get?_congr hxy, hx]
    · rfl
  bound := h.bound
  items := h.items

/-! ## Sequences of calls -/

omit [PartialEquivBEq T] in
theorem Rep.isSome_index (h : Rep s l) (x : T) :
    (s.index.get? x).isSome = (l.map Prod.snd).any (· == x) := by
  rw [h.index, any_items]

theorem Rep.add (h : Rep s l) (items : List T) :
    ∃ l', Rep (s.add items) l' ∧ l'.map Prod.snd = listAdd (l.map Prod.snd) items := by
  induction items generalizing s l with
  | nil => exact ⟨l, h, rfl⟩
  | cons item items ih =>
    rw [OrderedSet.add, listAdd, h.isSome_index]
    split
    · exact ih h
    · next habsent =>
      rw [← h.isSome_index, Option.not_isSome_iff_eq_none] at habsent
      obtain ⟨l', hrep, hl'⟩ := ih (h.put habsent)
      rw [List.map_append, List.map_singleton] at hl'
      exact ⟨l', hrep, hl'⟩

/-- The items without the one whose number is removed. -/
theorem Rep.items_removeLocked (h : Rep s l) (hx : s.index.get? x = some i) :
    (OrderedMap.assocRemove l i).map Prod.snd = (l.map Prod.snd).eraseP (· == x) := by
  have hnumber : ∀ l' : List (Int × T), (∀ e ∈ l', e ∈ l) →
      (l'.eraseP fun e => e.1 == i) = l'.eraseP fun e => e.2 == x := by
    intro l' hl'
    induction l' with
    | nil => rfl
    | cons e l' ih =>
      rw [List.eraseP_cons, List.eraseP_cons, h.number_iff hx (hl' e List.mem_cons_self),
        ih fun e' he' => hl' e' (List.mem_cons_of_mem e he')]
  rw [OrderedMap.assocRemove, hnumber l fun _ he => he, List.eraseP_map]
  rfl

theorem Rep.remove (h : Rep s l) (items : List T) :
    ∃ l', Rep (s.remove items) l' ∧ l'.map Prod.snd = listRemove (l.map Prod.snd) items := by
  induction items generalizing s l with
  | nil => exact ⟨l, h, rfl⟩
  | cons item items ih =>
    rw [OrderedSet.remove, listRemove, ← h.isSome_index]
    cases hindex : s.index.get? item with
    | none => exact ⟨l, h, rfl⟩
    | some i =>
      obtain ⟨l', hrep, hl'⟩ := ih (h.removeLocked hindex)
      rw [h.items_removeLocked hindex] at hl'
      exact ⟨l', hrep, hl'⟩

theorem Rep.run (h : Rep s l) (calls : List (Call T)) :
    ∃ l', Rep (s.run calls) l' ∧ l'.map Prod.snd = listRun (l.map Prod.snd) calls := by
  induction calls generalizing s l with
  | nil => exact ⟨l, h, rfl⟩
  | cons c calls ih =>
    have hcall : ∃ l', Rep (s.call c) l' ∧ l'.map Prod.snd = listCall (l.map Prod.snd) c := by
      cases c with
      | add items => exact h.add items
      | remove items => exact h.remove items
    obtain ⟨l₁, hrep₁, hl₁⟩ := hcall
    obtain ⟨l₂, hrep₂, hl₂⟩ := ih hrep₁
    rw [hl₁] at hl₂
    exact ⟨l₂, hrep₂, hl₂⟩

/-! ## What the representation means -/

/-- `index` and `store` belong together, and the items `vs` of `Values` are those `Contains` finds. -/
structure Faithful [Inhabited T] (s : OrderedSet T) (vs : List T) : Prop where
  injective : ∀ x y i, s.index.get? x = some i → s.index.get? y = some i → x == y
  bound : ∀ x i, s.index.get? x = some i → i < s.currentIndex
  numbers : ∀ i, (s.store.store.get? i).isSome ↔ ∃ x, s.index.get? x = some i
  inverse : ∀ x i, s.index.get? x = some i → ∃ y, s.store.store.get? i = some y ∧ y == x
  values : s.values = some vs
  distinct : Distinct vs
  sound : ∀ y ∈ vs, s.contains [y]
  complete : ∀ x, s.contains [x] → ∃ y ∈ vs, y == x
  size : s.size = vs.length

omit [PartialEquivBEq T] in
theorem contains_singleton (s : OrderedSet T) (x : T) :
    s.contains [x] = (s.index.get? x).isSome := by
  rw [contains, List.all_cons, List.all_nil, Bool.and_true]

/-- A set of items that are equal to themselves is represented as it should be. -/
theorem Rep.faithful [Inhabited T] (h : Rep s l) (hrefl : ∀ y ∈ l.map Prod.snd, y == y) :
    Faithful s (l.map Prod.snd) where
  injective := fun _ _ _ => h.injective
  bound := by
    intro x i hx
    obtain ⟨y, hy, -⟩ := h.mem_of_index hx
    exact h.bound _ hy
  numbers := by
    intro i
    rw [h.store.store, assocGet_isSome_iff]
    constructor
    · rintro ⟨e, he, hei⟩
      rw [← beq_iff_eq.1 hei]
      exact ⟨e.2, h.index_of_mem he (hrefl _ (List.mem_map.2 ⟨e, he, rfl⟩))⟩
    · rintro ⟨x, hx⟩
      obtain ⟨y, hy, -⟩ := h.mem_of_index hx
      exact ⟨_, hy, BEq.rfl⟩
  inverse := by
    intro x i hx
    obtain ⟨y, hy, hyx⟩ := h.mem_of_index hx
    exact ⟨y, h.store_of_mem hy, hyx⟩
  values := h.store.values
  distinct := h.items
  sound := by
    intro y hy
    rw [contains_singleton, h.isSome_index, List.any_eq_true]
    exact ⟨y, hy, hrefl y hy⟩
  complete := by
    intro x hx
    rw [contains_singleton, h.isSome_index, List.any_eq_true] at hx
    exact hx
  size := by
    rw [OrderedSet.size, OrderedMap.size, h.store.size, List.length_map]

/-! ## Items that are not equal to themselves

Such an item is added whenever it is asked for, and never found again. -/

omit [PartialEquivBEq T] in
theorem mem_of_mem_listAdd {l items : List T} {y : T} (h : y ∈ listAdd l items) :
    y ∈ l ∨ y ∈ items := by
  induction items generalizing l with
  | nil => exact Or.inl h
  | cons item items ih =>
    rw [listAdd] at h
    split at h
    · rcases ih h with hl | hitems
      · exact Or.inl hl
      · exact Or.inr (List.mem_cons_of_mem item hitems)
    · rcases ih h with hl | hitems
      · rcases List.mem_append.1 hl with hl | hitem
        · exact Or.inl hl
        · exact Or.inr (List.mem_singleton.1 hitem ▸ List.mem_cons_self)
      · exact Or.inr (List.mem_cons_of_mem item hitems)

omit [PartialEquivBEq T] in
theorem mem_of_mem_listRemove {l items : List T} {y : T} (h : y ∈ listRemove l items) : y ∈ l := by
  induction items generalizing l with
  | nil => exact h
  | cons item items ih =>
    rw [listRemove] at h
    split at h
    · exact List.mem_of_mem_eraseP (ih h)
    · exact h

omit [PartialEquivBEq T] in
theorem mem_of_mem_listRun {l : List T} {calls : List (Call T)} {y : T} (h : y ∈ listRun l calls) :
    y ∈ l ∨ ∃ items, .add items ∈ calls ∧ y ∈ items := by
  induction calls generalizing l with
  | nil => exact Or.inl h
  | cons c calls ih =>
    rcases ih h with hl | ⟨items, hmem, hy⟩
    · cases c with
      | add items =>
        rcases mem_of_mem_listAdd hl with hl | hy
        · exact Or.inl hl
        · exact Or.inr ⟨items, List.mem_cons_self, hy⟩
      | remove items => exact Or.inl (mem_of_mem_listRemove hl)
    · exact Or.inr ⟨items, List.mem_cons_of_mem c hmem, hy⟩

omit [PartialEquivBEq T] in
theorem mem_listAdd {l : List T} (items : List T) {y : T} (h : y ∈ l) : y ∈ listAdd l items := by
  induction items generalizing l with
  | nil => exact h
  | cons item items ih =>
    rw [listAdd]
    split
    · exact ih h
    · exact ih (List.mem_append_left [item] h)

/-- It is not equal to any item, so it is added. -/
theorem mem_listAdd_irrefl {l items : List T} (hx : ¬(x == x)) (h : x ∈ items) :
    x ∈ listAdd l items := by
  induction items generalizing l with
  | nil => simp at h
  | cons item items ih =>
    rw [listAdd]
    rcases List.mem_cons.1 h with rfl | h
    · have habsent : ¬l.any (· == x) = true := by
        rw [List.any_eq_true]
        rintro ⟨y, -, hyx⟩
        exact hx (BEq.trans (BEq.symm hyx) hyx)
      rw [if_neg habsent]
      exact mem_listAdd items (List.mem_append_right l (List.mem_singleton.2 rfl))
    · split
      · exact ih h
      · exact ih h

/-- Nor is it removed. -/
theorem mem_listRemove_irrefl {l : List T} (items : List T) (hx : ¬(x == x)) (h : x ∈ l) :
    x ∈ listRemove l items := by
  induction items generalizing l with
  | nil => exact h
  | cons item items ih =>
    rw [listRemove]
    split
    · have hne : ¬(x == item) = true := fun heq => hx (BEq.trans heq (BEq.symm heq))
      exact ih ((List.mem_eraseP_of_neg (p := (· == item)) hne).2 h)
    · exact h

theorem mem_listRun_irrefl {l : List T} (calls : List (Call T)) (hx : ¬(x == x))
    (h : x ∈ l ∨ ∃ items, .add items ∈ calls ∧ x ∈ items) : x ∈ listRun l calls := by
  induction calls generalizing l with
  | nil =>
    rcases h with h | ⟨items, hmem, -⟩
    · exact h
    · exact absurd hmem (by simp)
  | cons c calls ih =>
    refine ih ?_
    rcases h with h | ⟨items, hmem, hitems⟩
    · cases c with
      | add items => exact Or.inl (mem_listAdd items h)
      | remove items => exact Or.inl (mem_listRemove_irrefl items hx h)
    · rcases List.mem_cons.1 hmem with rfl | hmem
      · exact Or.inl (mem_listAdd_irrefl hx hitems)
      · exact Or.inr ⟨items, hmem, hitems⟩

/-- After any calls of `Add` and `Remove` on a new set the representation is as it should be, and
`Values` lists the items that are present in the order of their latest insertion, exactly if no item
that is not equal to itself was added. -/
theorem orderedSet_faithful_iff [Inhabited T] (calls : List (Call T)) :
    Faithful (run {} calls) (listRun [] calls) ↔ ∀ items, .add items ∈ calls → ∀ x ∈ items, x == x := by
  obtain ⟨l, hrep, hl⟩ := rep_empty.run calls
  rw [← show l.map Prod.snd = listRun [] calls from hl]
  constructor
  · intro hfaithful items hmem x hx
    by_contra hirrefl
    have hlisted : x ∈ l.map Prod.snd := by
      rw [hl]
      exact mem_listRun_irrefl calls hirrefl (Or.inr ⟨items, hmem, hx⟩)
    have hfound := hfaithful.sound x hlisted
    rw [contains_singleton] at hfound
    obtain ⟨i, hi⟩ := Option.isSome_iff_exists.1 hfound
    obtain ⟨y, -, hyx⟩ := hrep.mem_of_index hi
    exact hirrefl (BEq.trans (BEq.symm hyx) hyx)
  · intro hrefl
    refine hrep.faithful fun y hy => ?_
    rw [hl] at hy
    rcases mem_of_mem_listRun hy with hnil | ⟨items, hmem, hy⟩
    · exact absurd hnil (by simp)
    · exact hrefl items hmem y hy

/-- `Remove(1, 4, 3)` ends at 4, so 3 stays, and 1 is the last one after it is added again. -/
theorem orderedSet_faithful_again :
    Faithful (run {} [.add [1, 2, 3], .remove [1, 4, 3], .add [3, 1]]) [2, 3, 1] := by
  have hiff := orderedSet_faithful_iff [.add [1, 2, 3], .remove [1, 4, 3], .add [3, 1]]
  exact hiff.2 fun _ _ x _ => beq_self_eq_true x

/-- Numbers with a value that is not equal to itself. -/
inductive Floating where
  | nan
  | num (n : Nat)
  deriving Repr

instance : BEq Floating where
  beq
    | .num m, .num n => m == n
    | _, _ => false

instance : Inhabited Floating := ⟨.nan⟩

theorem floating_beq_iff {a b : Floating} : a == b ↔ ∃ n, a = .num n ∧ b = .num n := by
  constructor
  · intro h
    cases a with
    | nan => exact absurd h (by simp [BEq.beq])
    | num m =>
      cases b with
      | nan => exact absurd h (by simp [BEq.beq])
      | num n =>
        have hmn : (m == n) = true := h
        exact ⟨m, rfl, congrArg Floating.num (beq_iff_eq.1 hmn).symm⟩
  · rintro ⟨n, rfl, rfl⟩
    exact beq_self_eq_true n

instance : PartialEquivBEq Floating where
  symm := by
    intro a b h
    obtain ⟨n, rfl, rfl⟩ := floating_beq_iff.1 h
    exact h
  trans := by
    intro a b c hab hbc
    obtain ⟨n, rfl, rfl⟩ := floating_beq_iff.1 hab
    exact hbc

/-- After `Add(NaN)`, `Values` lists a NaN that `Contains` does not find. -/
theorem nan_listed :
    (run {} [.add [Floating.nan]]).values = some [.nan] ∧
      (run {} [.add [Floating.nan]]).contains [.nan] = false ∧
      ¬Faithful (run {} [.add [Floating.nan]]) (listRun [] [.add [Floating.nan]]) := by
  refine ⟨rfl, rfl, fun h => ?_⟩
  have hfound := h.sound .nan (List.mem_singleton.2 rfl)
  exact absurd hfound (by decide)

/-! ## Clients -/

/-- What a call relies on between its lookup and the lock: the number it found belongs to its item. -/
def Owns (s : OrderedSet T) : Stage T → Prop
  | .remove i item _ => i < s.currentIndex ∧ ∀ x, s.index.get? x = some i → x == item
  | _ => True

theorem Owns.put {stage : Stage T} (h : s.Owns stage) (x : T) : (s.put x).Owns stage := by
  cases stage with
  | remove i item rest =>
    refine ⟨Int.lt_add_one_of_le (Int.le_of_lt h.1), fun y hy => ?_⟩
    rw [index_put, GoMap.get?_set] at hy
    split at hy
    · -- the new number is not the old one
      exact absurd (Option.some.inj hy) (Int.ne_of_gt h.1)
    · exact h.2 y hy
  | _ => trivial

theorem Owns.removeLocked {stage : Stage T} (h : s.Owns stage) (i : Int) (x : T) :
    (s.removeLocked i x).Owns stage := by
  cases stage with
  | remove j item rest =>
    refine ⟨h.1, fun y hy => ?_⟩
    rw [index_removeLocked, GoMap.get?_delete] at hy
    split at hy
    · exact absurd hy (by simp)
    · exact h.2 y hy
  | _ => trivial

/-- The set consists of items that are equal to themselves. -/
def Sound (s : OrderedSet T) : Prop := ∃ l, Rep s l ∧ ∀ e ∈ l, e.2 == e.2

theorem Sound.put (h : s.Sound) (hrefl : x == x) (habsent : s.index.get? x = none) :
    (s.put x).Sound := by
  obtain ⟨l, hrep, hl⟩ := h
  refine ⟨_, hrep.put habsent, fun e he => ?_⟩
  rcases List.mem_append.1 he with he | he
  · exact hl e he
  · rw [List.mem_singleton.1 he]
    exact hrefl

theorem Sound.removeLocked {rest : List T} (h : s.Sound) (howns : s.Owns (.remove i x rest))
    (hx : s.index.get? x = some i ∨ s.index.get? x = none) : (s.removeLocked i x).Sound := by
  obtain ⟨l, hrep, hl⟩ := h
  rcases hx with hx | hx
  · exact ⟨_, hrep.removeLocked hx, fun e he => hl e (List.mem_of_mem_eraseP he)⟩
  · refine ⟨l, hrep.removeGone hx fun e he hei => ?_, hl⟩
    -- an entry with this number would belong to the item, which is gone
    have hindex := hrep.index_of_mem he (hl e he)
    rw [hei] at hindex
    have hsame := howns.2 e.2 hindex
    rw [GoMap.get?_congr hsame, hx] at hindex
    exact absurd hindex (by simp)

/-- A lookup finds a number that belongs to its item. -/
theorem Sound.owns_removeNext (h : s.Sound) {items : List T} {stage : Stage T}
    (hstage : s.removeNext items = .inl stage) : s.Owns stage := by
  obtain ⟨l, hrep, -⟩ := h
  cases items with
  | nil => exact absurd hstage (by simp [removeNext])
  | cons item rest =>
    rw [removeNext] at hstage
    split at hstage
    · exact absurd hstage (by simp)
    · next i hi =>
      obtain rfl := Sum.inl.inj hstage
      obtain ⟨y, hy, -⟩ := hrep.mem_of_index hi
      exact ⟨hrep.bound _ hy, fun x hx => hrep.injective hx hi⟩

omit [PartialEquivBEq T] in
theorem owns_addNext {items : List T} {stage : Stage T} (hstage : s.addNext items = .inl stage) :
    s.Owns stage := by
  cases items with
  | nil => exact absurd hstage (by simp [addNext])
  | cons item rest =>
    obtain rfl := Sum.inl.inj hstage
    split <;> trivial

/-- One step of a call keeps the set sound, and what every call relies on. -/
theorem Sound.callStep {s' : OrderedSet T} {op : Op T} {stage : Stage T} {res : Stage T ⊕ Ret}
    (h : s.Sound) (howns : s.Owns stage) (hfit : s.LookupHolds op stage)
    (hs : s.callStep op stage = some (s', res)) :
    s'.Sound ∧ (∀ stage', res = .inl stage' → s'.Owns stage') ∧
      ∀ stage', s.Owns stage' → s'.Owns stage' := by
  unfold OrderedSet.callStep at hs
  split at hs
  all_goals simp only [Option.some.injEq, Prod.mk.injEq, reduceCtorEq] at hs
  all_goals obtain ⟨rfl, rfl⟩ := hs
  · exact ⟨h, fun _ => owns_addNext, fun _ => id⟩
  · exact ⟨h, fun _ => owns_addNext, fun _ => id⟩
  · refine ⟨h.put hfit.1 hfit.2, ?_, fun _ howns' => howns'.put _⟩
    rintro _ ⟨⟩
    trivial
  · exact ⟨h, fun _ => h.owns_removeNext, fun _ => id⟩
  · exact ⟨h, fun _ => h.owns_removeNext, fun _ => id⟩
  · refine ⟨h.removeLocked howns hfit, ?_, fun _ howns' => howns'.removeLocked _ _⟩
    rintro _ ⟨⟩
    trivial
  · refine ⟨h, ?_, fun _ => id⟩
    rintro _ ⟨⟩

section Listed

variable [Inhabited T]

/-- `Values` lists no item twice, and lists exactly the items that `Contains` finds. -/
def IsSet (s : OrderedSet T) : Prop :=
  ∃ vs, s.values = some vs ∧ Distinct vs ∧ (∀ y ∈ vs, s.contains [y]) ∧
    ∀ x, s.contains [x] → ∃ y ∈ vs, y == x

theorem Sound.isSet (h : s.Sound) : s.IsSet := by
  obtain ⟨l, hrep, hl⟩ := h
  have hfaithful := hrep.faithful fun y hy => by
    obtain ⟨e, he, rfl⟩ := List.mem_map.1 hy
    exact hl e he
  exact ⟨_, hfaithful.values, hfaithful.distinct, hfaithful.sound, hfaithful.complete⟩

/-- An item that is put when it is present is listed twice; one that is not equal to itself is listed
and not found. -/
theorem Sound.isSet_put_iff (h : s.Sound) (x : T) :
    (s.put x).IsSet ↔ x == x ∧ s.index.get? x = none := by
  constructor
  · rintro ⟨vs, hvs, hdistinct, hfound, -⟩
    obtain ⟨l, hrep, -⟩ := h
    obtain rfl : vs = (l ++ [(s.currentIndex, x)]).map Prod.snd :=
      Option.some.inj (hvs.symm.trans (hrep.store_put x).values)
    rw [List.map_append, List.map_singleton] at hdistinct hfound
    have habsent : s.index.get? x = none := by
      rw [← Option.not_isSome_iff_eq_none, hrep.isSome_index, List.any_eq_true]
      rintro ⟨y, hy, hyx⟩
      have hne := (List.pairwise_append.1 hdistinct).2.2 y hy x (List.mem_singleton.2 rfl)
      rw [BEq.symm hyx] at hne
      exact Bool.noConfusion hne
    have hx := hfound x (List.mem_append_right _ (List.mem_singleton.2 rfl))
    rw [contains_singleton, index_put, GoMap.get?_set, habsent] at hx
    by_cases hrefl : x == x
    · exact ⟨hrefl, habsent⟩
    · rw [if_neg hrefl] at hx
      exact absurd hx (by simp)
  · rintro ⟨hrefl, habsent⟩
    exact (h.put hrefl habsent).isSet

/-- An item that is removed under an old number is listed and not found. -/
theorem Sound.isSet_removeLocked_iff {rest : List T} (h : s.Sound) (howns : s.Owns (.remove i x rest)) :
    (s.removeLocked i x).IsSet ↔ s.index.get? x = some i ∨ s.index.get? x = none := by
  constructor
  · rintro ⟨vs, hvs, -, hfound, -⟩
    cases hx : s.index.get? x with
    | none => exact Or.inr rfl
    | some j =>
      refine Or.inl ?_
      by_contra hji
      obtain ⟨l, hrep, -⟩ := h
      obtain rfl : vs = (OrderedMap.assocRemove l i).map Prod.snd :=
        Option.some.inj (hvs.symm.trans (hrep.store.remove i).values)
      obtain ⟨y, hy, hyx⟩ := hrep.mem_of_index hx
      have hkept : (j, y) ∈ OrderedMap.assocRemove l i :=
        (List.mem_eraseP_of_neg (p := fun e : Int × T => e.1 == i) (by simpa using hji)).2 hy
      have hlisted := hfound y (List.mem_map.2 ⟨_, hkept, rfl⟩)
      rw [contains_singleton, index_removeLocked, GoMap.get?_delete, if_pos (BEq.symm hyx)] at hlisted
      exact absurd hlisted (by simp)
  · intro hx
    exact (h.removeLocked howns hx).isSet

/-- In every run in which the lookups still hold under the lock and the items that are put are equal to
themselves, `Values` lists no item twice, and lists exactly the items that `Contains` finds. -/
theorem clients_keep_set {c : Clients (OrderedSet T) (Op T) (Stage T) Ret}
    (h : (shared T).clients.ReachableWhen (SharedObject.Fitting LookupHolds) c) : c.object.IsSet := by
  have hsound : c.object.Sound := by
    refine SharedObject.clients_invariant Sound Owns ⟨[], rep_empty, by simp⟩ ?_ ?_ h
    · exact fun _ => trivial
    · intro s op stage s' res hs howns hfit hstep
      exact hs.callStep howns hfit hstep
  exact hsound.isSet

end Listed

/-- Two clients find the item 7 and remove it one after the other, while a third adds 8. -/
theorem clients_keep_set_removed_twice :
    ∃ c, (shared Nat).clients.ReachableWhen (SharedObject.Fitting LookupHolds) c ∧
      c.object.values = some [8] ∧ c.object.contains [8] ∧ ¬c.object.contains [7] := by
  have hrun : (((shared Nat).clients.restrict (SharedObject.Fitting LookupHolds)).run { object := {} }
      [.invoke (.add [7]), .advance 0, .advance 0,
       .invoke (.remove [7]), .invoke (.remove [7]), .invoke (.add [8]),
       .advance 1, .advance 2, .advance 3, .advance 1, .advance 2, .advance 3]).map
        (fun c => c.object.values) = some (some [8]) := by
    decide
  obtain ⟨c, hc, hvalues⟩ := Machine.observedWhen_of_run hrun rfl
  obtain ⟨vs, hvs, -, hsound, hcomplete⟩ := clients_keep_set hc
  obtain rfl : vs = [8] := Option.some.inj (hvs.symm.trans hvalues)
  refine ⟨c, hc, hvalues, hsound 8 (by simp), fun h7 => ?_⟩
  obtain ⟨y, hy, hy7⟩ := hcomplete 7 h7
  rw [List.mem_singleton.1 hy] at hy7
  exact absurd hy7 (by decide)

/-- Two clients look for an item that neither of them finds, and both put it: `Values` lists it twice. -/
theorem clients_add_twice :
    ∃ c, (shared Nat).clients.Reachable c ∧ c.object.values = some [7, 7] ∧ ¬c.object.IsSet := by
  have hrun : ((shared Nat).clients.run { object := {} }
      [.invoke (.add [7]), .invoke (.add [7]), .advance 0, .advance 1, .advance 0, .advance 1]).map
        (fun c => c.object.values) = some (some [7, 7]) := by
    decide
  obtain ⟨c, hc, hvalues⟩ := Machine.observed_of_run hrun rfl
  refine ⟨c, hc, hvalues, ?_⟩
  rintro ⟨vs, hvs, hdistinct, -⟩
  obtain rfl : vs = [7, 7] := Option.some.inj (hvs.symm.trans hvalues)
  exact absurd hdistinct (by decide)

end OwnX.Basic.OrderedSet
