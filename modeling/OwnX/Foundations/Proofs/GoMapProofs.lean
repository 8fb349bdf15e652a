import OwnX.Foundations.GoMap

/-!
# Proofs: association lists and Go maps

The equality of keys is symmetric and transitive, as equality in Go is on all comparable values.
-/

namespace OwnX

variable {K V : Type} [BEq K] {l : List (K × V)} {m : GoMap K V} {k k' : K}

/-! ## Association lists -/

@[simp]
theorem assocGet_nil (k : K) : assocGet ([] : List (K × V)) k = none := rfl

theorem assocGet_singleton (k : K) (v : V) (k' : K) :
    assocGet [(k, v)] k' = if k == k' then some v else none := by
  rw [assocGet, List.find?_singleton]
  split <;> rfl

theorem assocGet_eq_some {v : V} (h : assocGet l k = some v) : ∃ e ∈ l, e.1 == k ∧ e.2 = v := by
  obtain ⟨e, he, hv⟩ := Option.map_eq_some_iff.1 h
  exact ⟨e, List.mem_of_find?_eq_some he, by simpa using List.find?_some he, hv⟩

theorem assocGet_append (l l' : List (K × V)) (k : K) :
    assocGet (l ++ l') k = (assocGet l k).or (assocGet l' k) := by
  rw [assocGet, List.find?_append, Option.map_or]
  rfl

theorem length_assocReplace (l : List (K × V)) (k : K) (v : V) :
    (assocReplace l k v).length = l.length := List.length_map _

section Equality

variable [PartialEquivBEq K]

/-- Equal keys have the same value. -/
theorem assocGet_congr (h : k == k') : assocGet l k = assocGet l k' := by
  have hsame : ∀ e : K × V, (e.1 == k) = (e.1 == k') := fun e => BEq.congr_right h
  simp only [assocGet, hsame]

theorem assocGet_replace (hfound : (assocGet l k).isSome) (v : V) (k' : K) :
    assocGet (assocReplace l k v) k' = if k == k' then some v else assocGet l k' := by
  have hfst : ((fun e : K × V => e.1 == k') ∘ fun e => if e.1 == k then (e.1, v) else e) =
      fun e => e.1 == k' := by
    funext e
    simp only [Function.comp_apply]
    split <;> rfl
  simp only [assocGet, assocReplace, List.find?_map, hfst, Option.map_map]
  by_cases hk : k == k'
  · rw [assocGet_congr hk, assocGet, Option.isSome_map] at hfound
    obtain ⟨e, he⟩ := Option.isSome_iff_exists.1 hfound
    have hek' : (e.1 == k') = true := by simpa using List.find?_some he
    have hek : (e.1 == k) = true := BEq.trans hek' (BEq.symm hk)
    simp [he, hek, hk]
  · rw [if_neg hk]
    cases he : l.find? fun e => e.1 == k' with
    | none => rfl
    | some e =>
      have hek' : (e.1 == k') = true := by simpa using List.find?_some he
      have hek : ¬(e.1 == k) = true := fun hek => hk (BEq.trans (BEq.symm hek) hek')
      simp [hek]

theorem assocGet_filter (l : List (K × V)) (k k' : K) :
    assocGet (l.filter fun e => !(e.1 == k)) k' = if k == k' then none else assocGet l k' := by
  simp only [assocGet, List.find?_filter]
  by_cases hk : k == k'
  · have hnone : ∀ e : K × V, (!(e.1 == k) && (e.1 == k')) = false := by
      intro e
      rw [BEq.congr_right hk, Bool.not_and_self]
    simp [hnone, hk]
  · have hsame : ∀ e : K × V, (!(e.1 == k) && (e.1 == k')) = (e.1 == k') := by
      intro e
      cases hek' : e.1 == k' with
      | false => rw [Bool.and_false]
      | true =>
        have hek : (e.1 == k) = false :=
          Bool.eq_false_iff.2 fun hek => hk (BEq.trans (BEq.symm hek) hek')
        rw [hek]
        rfl
    simp [hsame, hk]

/-- Of distinct keys at most one is equal to `k`. -/
theorem eraseP_eq_filter {α : Type} {f : α → K} {l : List α}
    (hd : (l.map f).Pairwise fun a b => (b == a) = false) (k : K) :
    (l.eraseP fun e => f e == k) = l.filter fun e => !(f e == k) := by
  induction l with
  | nil => rfl
  | cons a l ih =>
    rw [List.map_cons, List.pairwise_cons] at hd
    by_cases ha : f a == k
    · have hrest : ∀ e ∈ l, (!(f e == k)) = true := by
        intro e he
        rw [← BEq.congr_right ha, hd.1 (f e) (List.mem_map.2 ⟨e, he, rfl⟩)]
        rfl
      rw [List.eraseP_cons_of_pos (p := fun e => f e == k) ha, List.filter_cons_of_neg (by simp [ha]),
        List.filter_eq_self.2 hrest]
    · rw [List.eraseP_cons_of_neg (p := fun e => f e == k) ha, List.filter_cons_of_pos (by simp [ha]),
        ih hd.2]

/-- A key of the list has its own value. -/
theorem assocGet_of_mem {e : K × V} (hd : (l.map Prod.fst).Pairwise fun a b => (b == a) = false)
    (he : e ∈ l) (hrefl : e.1 == e.1) : assocGet l e.1 = some e.2 := by
  induction l with
  | nil => simp at he
  | cons a l ih =>
    rw [List.map_cons, List.pairwise_cons] at hd
    rcases List.mem_cons.1 he with rfl | he
    · simp [assocGet, hrefl]
    · have hne : ¬(a.1 == e.1) = true := by
        intro hae
        have hea := hd.1 e.1 (List.mem_map.2 ⟨e, he, rfl⟩)
        rw [BEq.symm hae] at hea
        exact Bool.noConfusion hea
      rw [assocGet, List.find?_cons_of_neg (p := fun e' : K × V => e'.1 == e.1) hne]
      exact ih hd.2 he

end Equality

/-! ## Go maps -/

namespace GoMap

theorem size_set (m : GoMap K V) (k : K) (v : V) :
    (m.set k v).size = if (m.get? k).isSome then m.size else m.size + 1 := by
  unfold set
  split
  · exact length_assocReplace _ _ _
  · rfl

variable [PartialEquivBEq K]

theorem get?_congr (h : k == k') : m.get? k = m.get? k' := assocGet_congr h

theorem get?_set (m : GoMap K V) (k : K) (v : V) (k' : K) :
    (m.set k v).get? k' = if k == k' then some v else m.get? k' := by
  unfold set
  split
  · next hfound => exact assocGet_replace hfound v k'
  · simp only [get?, assocGet, List.find?_cons]
    split
    · next hk => rw [if_pos hk, Option.map_some]
    · next hk => rw [if_neg (by simp [hk])]

theorem get?_delete (m : GoMap K V) (k k' : K) :
    (m.delete k).get? k' = if k == k' then none else m.get? k' := assocGet_filter m.entries k k'

/-- The last assignment to a key counts. -/
theorem get?_setAll (m : GoMap K V) (l : List (K × V)) (k : K) :
    (m.setAll l).get? k = (assocGet l.reverse k).or (m.get? k) := by
  induction l generalizing m with
  | nil => rfl
  | cons e l ih =>
    have hstep : m.setAll (e :: l) = (m.set e.1 e.2).setAll l := rfl
    rw [hstep, ih, get?_set, List.reverse_cons, assocGet_append, Option.or_assoc, assocGet_singleton]
    congr 1
    split <;> rfl

/-- Assignments that agree on equal keys may be made in any order. -/
theorem get?_setAll_perm {l l' : List (K × V)} (hperm : l.Perm l')
    (hagree : ∀ e ∈ l, ∀ e' ∈ l, e.1 == e'.1 → e.2 = e'.2) (m : GoMap K V) (k : K) :
    (m.setAll l).get? k = (m.setAll l').get? k := by
  rw [get?_setAll, get?_setAll]
  congr 1
  -- the lookups find entries of the same list, with equal keys
  have hmem : ∀ e, e ∈ l'.reverse ↔ e ∈ l.reverse := by
    intro e
    rw [List.mem_reverse, List.mem_reverse, hperm.mem_iff]
  cases hfound : assocGet l.reverse k with
  | none =>
    refine (assocGet_eq_none_iff.2 fun e he => ?_).symm
    exact assocGet_eq_none_iff.1 hfound e ((hmem e).1 he)
  | some v =>
    obtain ⟨e, he, hek, rfl⟩ := assocGet_eq_some hfound
    obtain ⟨v', hv'⟩ := Option.isSome_iff_exists.1
      (assocGet_isSome_iff.2 ⟨e, (hmem e).2 he, hek⟩)
    obtain ⟨e', he', hek', rfl⟩ := assocGet_eq_some hv'
    rw [hv', hagree e (List.mem_reverse.1 he) e' (List.mem_reverse.1 ((hmem e').1 he'))
      (BEq.trans hek (BEq.symm hek'))]

theorem size_delete (h : (m.get? k).isSome) : (m.delete k).size + 1 = m.size := by
  obtain ⟨e, he, hek⟩ := assocGet_isSome_iff.1 h
  have hlen := List.length_eraseP_add_one (p := fun e : K × V => e.1 == k) he hek
  rw [eraseP_eq_filter m.distinct k] at hlen
  exact hlen

theorem mem_entries_iff {K V : Type} [BEq K] [LawfulBEq K] {m : GoMap K V} {k : K} {v : V} :
    (k, v) ∈ m.entries ↔ m.get? k = some v := by
  constructor
  · intro h
    exact assocGet_of_mem m.distinct h (beq_self_eq_true k)
  · intro h
    obtain ⟨e, he, hk, rfl⟩ := assocGet_eq_some h
    rw [← beq_iff_eq.1 hk]
    exact he

end GoMap

end OwnX
