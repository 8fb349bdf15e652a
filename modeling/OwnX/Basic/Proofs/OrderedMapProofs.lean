import OwnX.Basic.OrderedMap
import OwnX.Foundations.Proofs.GoMapProofs
import OwnX.Foundations.Proofs.RefinementProofs

/-!
# The ordered map refines an association list

`keys` are the keys of the list in its order, `store` gives their values.
-/

namespace OwnX.Basic.OrderedMap

variable {K V : Type} [BEq K] {m : OrderedMap K V} {l : List (K × V)}

/-- No two keys are equal. -/
abbrev Distinct (keys : List K) : Prop := keys.Pairwise fun a b => (b == a) = false

/-- The map stands for the association list. -/
structure Represents (m : OrderedMap K V) (l : List (K × V)) : Prop where
  keys : m.keys = l.map Prod.fst
  store : ∀ k, m.store.get? k = assocGet l k
  size : m.store.size = l.length
  distinct : Distinct (l.map Prod.fst)

theorem represents_empty : ({} : OrderedMap K V).Represents [] :=
  ⟨rfl, fun _ => rfl, rfl, List.Pairwise.nil⟩

theorem distinct_remove (hd : Distinct (l.map Prod.fst)) (key : K) :
    Distinct ((assocRemove l key).map Prod.fst) :=
  hd.sublist (List.eraseP_sublist.map Prod.fst)

section Changes

variable [PartialEquivBEq K]

theorem assocGet_put (l : List (K × V)) (key : K) (value : V) (k : K) :
    assocGet (assocPut l key value) k = if key == k then some value else assocGet l k := by
  unfold assocPut
  split
  · next hfound => exact assocGet_replace hfound value k
  · next habsent =>
    rw [assocGet_append, assocGet_singleton]
    by_cases hk : key == k
    · rw [assocGet_congr hk, Option.not_isSome_iff_eq_none] at habsent
      rw [if_pos hk, if_pos hk, habsent, Option.none_or]
    · rw [if_neg hk, if_neg hk, Option.or_none]

theorem distinct_put (hd : Distinct (l.map Prod.fst)) (key : K) (value : V) :
    Distinct ((assocPut l key value).map Prod.fst) := by
  unfold assocPut
  split
  · rw [map_fst_assocReplace]
    exact hd
  · next habsent =>
    have hnew := assocGet_eq_none_iff.1 (Option.not_isSome_iff_eq_none.1 habsent)
    rw [List.map_append, Distinct, List.pairwise_append]
    refine ⟨hd, List.pairwise_singleton _ _, ?_⟩
    intro a ha b hb
    obtain ⟨e, he, rfl⟩ := List.mem_map.1 ha
    rw [List.map_singleton, List.mem_singleton] at hb
    rw [hb, BEq.comm]
    exact hnew e he

theorem assocGet_remove (hd : Distinct (l.map Prod.fst)) (key k : K) :
    assocGet (assocRemove l key) k = if key == k then none else assocGet l k := by
  rw [assocRemove, eraseP_eq_filter hd key, assocGet_filter]

theorem Represents.put (h : m.Represents l) (key : K) (value : V) :
    (m.put key value).Represents (assocPut l key value) where
  keys := by
    rw [OrderedMap.put, h.store, assocPut, h.keys]
    split
    · rw [map_fst_assocReplace]
    · rw [List.map_append, List.map_singleton]
  store := by
    intro k
    rw [assocGet_put, ← h.store]
    exact GoMap.get?_set m.store key value k
  size := by
    have hsize := m.store.size_set key value
    rw [h.store, h.size] at hsize
    unfold assocPut
    split
    · next hfound =>
      rw [if_pos hfound] at hsize
      rw [length_assocReplace]
      exact hsize
    · next habsent =>
      rw [if_neg habsent] at hsize
      rw [List.length_append]
      exact hsize
  distinct := distinct_put h.distinct key value

theorem Represents.remove (h : m.Represents l) (key : K) :
    (m.remove key).Represents (assocRemove l key) := by
  unfold OrderedMap.remove
  split
  · next hfound =>
    refine ⟨?_, ?_, ?_, distinct_remove h.distinct key⟩
    · rw [h.keys, List.eraseP_map]
      rfl
    · intro k
      rw [assocGet_remove h.distinct, ← h.store]
      exact GoMap.get?_delete m.store key k
    · have hsize := GoMap.size_delete hfound
      rw [h.store] at hfound
      obtain ⟨e, he, hek⟩ := assocGet_isSome_iff.1 hfound
      have hlen := List.length_eraseP_add_one (p := fun e : K × V => e.1 == key) he hek
      rw [h.size, ← hlen] at hsize
      exact Nat.succ.inj hsize
  · next habsent =>
    -- nothing is removed from the list either
    rw [h.store] at habsent
    have hnone := assocGet_eq_none_iff.1 (Option.not_isSome_iff_eq_none.1 habsent)
    have hsame : assocRemove l key = l := List.eraseP_of_forall_not fun e he => by simp [hnone e he]
    rw [hsame]
    exact h

end Changes

/-! ## Reading -/

theorem Represents.empty (h : m.Represents l) : m.empty = l.isEmpty := by
  rw [OrderedMap.empty, h.size]
  cases l <;> rfl

section Reading

variable [Inhabited V]

/-- The loop of `Values` overwrites as many places as there are keys. -/
theorem fill_append (m : OrderedMap K V) {keys : List K} (done : List V) {rest : List V}
    (h : keys.length = rest.length) :
    m.fill done.length keys (done ++ rest) = some (done ++ keys.map fun k => (m.get k).1) := by
  induction keys generalizing done rest with
  | nil =>
    rw [List.eq_nil_of_length_eq_zero h.symm]
    rfl
  | cons key keys ih =>
    obtain ⟨r, rest, rfl⟩ := List.exists_cons_of_length_eq_add_one h.symm
    have hset : (done ++ r :: rest).set done.length (m.get key).1 =
        (done ++ [(m.get key).1]) ++ rest := by
      rw [List.set_append_right _ _ (Nat.le_refl _), Nat.sub_self, List.set_cons_zero,
        List.append_assoc, List.singleton_append]
    have hnext := ih (done ++ [(m.get key).1]) (Nat.succ.inj h)
    rw [List.length_append, List.length_singleton] at hnext
    rw [fill, if_pos (by simp), hset, hnext, List.append_assoc, List.singleton_append, List.map_cons]

variable [EquivBEq K]

theorem Represents.values (h : m.Represents l) : m.values = some (l.map Prod.snd) := by
  have hlen : m.keys.length = (List.replicate m.store.size (default : V)).length := by
    rw [h.keys, h.size, List.length_map, List.length_replicate]
  have hvalue : ∀ e ∈ l, ((fun k => (m.get k).1) ∘ Prod.fst) e = e.2 := by
    intro e he
    rw [Function.comp_apply, get, h.store, assocGet_of_mem h.distinct he BEq.rfl]
    rfl
  calc m.values = some (m.keys.map fun k => (m.get k).1) := m.fill_append [] hlen
    _ = some (l.map Prod.snd) := by rw [h.keys, List.map_map, List.map_congr_left hvalue]

end Reading

/-! ## The order of insertion -/

/-- The keys present at the time `t` are in the order in which they were inserted. -/
structure Stamped (l : List (K × V)) (time : K → Option Nat) (t : Nat) : Prop where
  distinct : Distinct (l.map Prod.fst)
  sorted : (l.map Prod.fst).Pairwise fun a b => ∃ s u, time a = some s ∧ time b = some u ∧ s < u
  bound : ∀ k s, time k = some s → s < t
  present : ∀ k, (time k).isSome = (assocGet l k).isSome

variable {time : K → Option Nat} {t : Nat}

/-- An operation that changes nothing. -/
theorem Stamped.later (h : Stamped l time t) : Stamped l time (t + 1) :=
  ⟨h.distinct, h.sorted, fun k s hs => Nat.lt_succ_of_lt (h.bound k s hs), h.present⟩

section Order

variable [EquivBEq K]

theorem assocGet_key {a : K} (ha : a ∈ l.map Prod.fst) : (assocGet l a).isSome := by
  obtain ⟨e, he, rfl⟩ := List.mem_map.1 ha
  exact assocGet_isSome_iff.2 ⟨e, he, BEq.rfl⟩

/-- A present key keeps its time. -/
theorem Stamped.stamp_put (h : Stamped l time t) (key : K) (value : V) {a : K}
    (ha : a ∈ l.map Prod.fst) : stamp t time (.put key value) a = time a := by
  have hsome : (time a).isSome := by
    rw [h.present]
    exact assocGet_key ha
  have hnone : ¬(time a).isNone := by
    rw [Option.isNone_iff_eq_none, ← Option.not_isSome_iff_eq_none]
    exact fun hn => hn hsome
  rw [stamp, if_neg fun hc => hnone hc.2]

theorem Stamped.put (h : Stamped l time t) (key : K) (value : V) :
    Stamped (assocPut l key value) (stamp t time (.put key value)) (t + 1) where
  distinct := distinct_put h.distinct key value
  sorted := by
    have hold : (l.map Prod.fst).Pairwise fun a b => ∃ s u, stamp t time (.put key value) a = some s ∧
        stamp t time (.put key value) b = some u ∧ s < u := by
      refine h.sorted.imp_of_mem fun {a b} ha hb hab => ?_
      rw [h.stamp_put key value ha, h.stamp_put key value hb]
      exact hab
    unfold assocPut
    split
    · rw [map_fst_assocReplace]
      exact hold
    · next habsent =>
      -- the new key is the last one, and its time is `t`
      rw [← h.present, Option.not_isSome_iff_eq_none] at habsent
      rw [List.map_append, List.pairwise_append]
      refine ⟨hold, List.pairwise_singleton _ _, ?_⟩
      intro a ha b hb
      rw [List.map_singleton, List.mem_singleton] at hb
      subst hb
      have hsome : (time a).isSome := by
        rw [h.present]
        exact assocGet_key ha
      obtain ⟨s, hs⟩ := Option.isSome_iff_exists.1 hsome
      refine ⟨s, t, ?_, ?_, h.bound a s hs⟩
      · rw [h.stamp_put b value ha, hs]
      · rw [stamp, if_pos ⟨BEq.rfl, by rw [habsent]; rfl⟩]
  bound := by
    intro k s hs
    rw [stamp] at hs
    split at hs
    · exact Option.some.inj hs ▸ Nat.lt_succ_self t
    · exact Nat.lt_succ_of_lt (h.bound k s hs)
  present := by
    intro k
    rw [stamp, assocGet_put]
    by_cases hk : key == k
    · rw [if_pos hk]
      cases htime : time k with
      | none => simp [hk]
      | some s => simp
    · rw [if_neg hk, if_neg fun hc => hk hc.1, h.present]

theorem Stamped.remove (h : Stamped l time t) (key : K) :
    Stamped (assocRemove l key) (stamp (V := V) t time (.remove key)) (t + 1) where
  distinct := distinct_remove h.distinct key
  sorted := by
    have hkept : ∀ a ∈ (assocRemove l key).map Prod.fst,
        stamp (V := V) t time (.remove key) a = time a := by
      intro a ha
      have hsome := assocGet_key ha
      rw [assocGet_remove h.distinct] at hsome
      split at hsome
      · exact absurd hsome (by simp)
      · next hk => rw [stamp, if_neg hk]
    refine (h.sorted.sublist (List.eraseP_sublist.map Prod.fst)).imp_of_mem fun {a b} ha hb hab => ?_
    rw [hkept a ha, hkept b hb]
    exact hab
  bound := by
    intro k s hs
    rw [stamp] at hs
    split at hs
    · exact absurd hs (by simp)
    · exact Nat.lt_succ_of_lt (h.bound k s hs)
  present := by
    intro k
    rw [stamp, assocGet_remove h.distinct]
    split
    · rfl
    · exact h.present k

end Order

/-! ## All operations -/

variable [Inhabited V] [EquivBEq K]

theorem simulates : (dataType K V).Simulates (assocType K V) Represents where
  init := represents_empty
  exec := by
    rintro m l op l' r h hexec
    obtain ⟨rfl, rfl⟩ := Prod.mk.inj (Option.some.inj hexec)
    cases op with
    | put key value => exact ⟨_, rfl, h.put key value⟩
    | remove key => exact ⟨_, rfl, h.remove key⟩
    | get key =>
      refine ⟨m, ?_, h⟩
      simp only [dataType, exec, OrderedMap.get, h.store]
    | size =>
      refine ⟨m, ?_, h⟩
      simp only [dataType, exec, OrderedMap.size, h.size]
    | empty =>
      refine ⟨m, ?_, h⟩
      simp only [dataType, exec, h.empty]
    | keys =>
      refine ⟨m, ?_, h⟩
      simp only [dataType, exec, h.keys]
    | values =>
      refine ⟨m, ?_, h⟩
      simp only [dataType, exec, h.values, Option.map_some]

theorem Stamped.exec (h : Stamped l time t) (op : Op K V) :
    Stamped (execAssoc l op).1 (stamp t time op) (t + 1) := by
  cases op with
  | put key value => exact h.put key value
  | remove key => exact h.remove key
  | _ => exact h.later

theorem Stamped.run (h : Stamped l time t) {ops : List (Op K V)} {l' : List (K × V)}
    {rs : List (Ret K V)} (hrun : (assocType K V).run l ops = some (l', rs)) :
    Stamped l' (stampsFrom t time ops) (t + ops.length) := by
  induction ops generalizing l time t rs with
  | nil =>
    obtain ⟨rfl, rfl⟩ := Prod.mk.inj (Option.some.inj hrun)
    exact h
  | cons op ops ih =>
    obtain ⟨⟨l₁, r⟩, hexec, hmap⟩ := Option.bind_eq_some_iff.1 hrun
    obtain ⟨⟨l₂, rs₂⟩, hrest, heq⟩ := Option.map_eq_some_iff.1 hmap
    obtain ⟨rfl, rfl⟩ := Prod.mk.inj heq
    have hl₁ : (execAssoc l op).1 = l₁ := congrArg Prod.fst (Option.some.inj hexec)
    have hnext := ih (hl₁ ▸ h.exec op) hrest
    rw [Nat.add_right_comm] at hnext
    exact hnext

/-- Every sequence of operations on a new map succeeds, `Values` included, and returns what it returns on
an association list. At its end `keys` has no two equal keys, holds exactly the keys of `store`, and is in
the order in which its keys were inserted; `Keys` and `Values` are the two sides of the list. -/
theorem orderedMap_refines_assoc (ops : List (Op K V)) :
    ∃ (m : OrderedMap K V) (l : List (K × V)) (rs : List (Ret K V)),
      (assocType K V).run [] ops = some (l, rs) ∧ (dataType K V).run {} ops = some (m, rs) ∧
      m.keys = l.map Prod.fst ∧ m.values = some (l.map Prod.snd) ∧ Distinct m.keys ∧
      (∀ k, (m.store.get? k).isSome ↔ ∃ a ∈ m.keys, a == k) ∧ m.store.size = m.keys.length ∧
      m.keys.Pairwise fun a b =>
        ∃ s t, insertedAt ops a = some s ∧ insertedAt ops b = some t ∧ s < t := by
  have htotal := (assocType K V).run_isSome (fun _ _ => rfl) [] ops
  obtain ⟨⟨l, rs⟩, hrun⟩ := Option.isSome_iff_exists.1 htotal
  obtain ⟨m, hrun', hm⟩ := simulates.run hrun
  have hstamped : Stamped l (insertedAt ops) (0 + ops.length) :=
    Stamped.run ⟨List.Pairwise.nil, List.Pairwise.nil, by simp, by simp⟩ hrun
  refine ⟨m, l, rs, hrun, hrun', hm.keys, hm.values, ?_, ?_, ?_, ?_⟩
  · rw [hm.keys]
    exact hm.distinct
  · intro k
    rw [hm.store, assocGet_isSome_iff, hm.keys]
    simp
  · rw [hm.size, hm.keys, List.length_map]
  · rw [hm.keys]
    exact hstamped.sorted

/-- An overwritten key keeps its place, and a key that was removed and put again is the last one. -/
theorem orderedMap_refines_assoc_again :
    ∃ (m : OrderedMap Nat Nat) (rs : List (Ret Nat Nat)),
      (dataType Nat Nat).run {} [.put 1 10, .put 2 20, .put 3 30, .put 2 21, .remove 1, .put 1 11] =
        some (m, rs) ∧
      m.keys = [2, 3, 1] ∧ m.values = some [21, 30, 11] := by
  obtain ⟨m, l, rs, hassoc, hrun, hkeys, hvalues, -⟩ := orderedMap_refines_assoc (K := Nat) (V := Nat)
    [.put 1 10, .put 2 20, .put 3 30, .put 2 21, .remove 1, .put 1 11]
  obtain rfl : [(2, 21), (3, 30), (1, 11)] = l := congrArg Prod.fst (Option.some.inj hassoc)
  exact ⟨m, rs, hrun, hkeys, hvalues⟩

end OwnX.Basic.OrderedMap
