import OwnX.Basic.Proofs.OrderedSetProofs

/-!
# What a call of `Remove` removes

The loop of `Remove` ends at the first item that it does not find. It has then removed the items before
that one, which are present and distinct, and nothing else.
-/

namespace OwnX.Basic.OrderedSet

open OrderedMap (Distinct)

variable {T : Type} [BEq T] [PartialEquivBEq T] {s : OrderedSet T} {l items pre post : List T} {x y : T}

/-- The items of `l` other than those of `items`. -/
def dropAll (l items : List T) : List T := l.filter fun v => !items.any (v == ·)

omit [PartialEquivBEq T] in
theorem dropAll_cons (l : List T) (x : T) (items : List T) :
    dropAll l (x :: items) = dropAll (l.filter fun v => !(v == x)) items := by
  rw [dropAll, dropAll, List.filter_filter]
  refine List.filter_congr fun v _ => ?_
  rw [List.any_cons, Bool.not_or, Bool.and_comm]

omit [PartialEquivBEq T] in
theorem any_dropAll (l items : List T) (x : T) :
    (dropAll l items).any (· == x) = true ↔ ∃ v ∈ l, v == x ∧ ∀ p ∈ items, (v == p) = false := by
  rw [List.any_eq_true]
  constructor
  · rintro ⟨v, hv, hvx⟩
    obtain ⟨hmem, hnot⟩ := List.mem_filter.1 hv
    rw [Bool.not_eq_true', List.any_eq_false] at hnot
    exact ⟨v, hmem, hvx, fun p hp => Bool.eq_false_iff.2 (hnot p hp)⟩
  · rintro ⟨v, hmem, hvx, hnot⟩
    refine ⟨v, List.mem_filter.2 ⟨hmem, ?_⟩, hvx⟩
    rw [Bool.not_eq_true', List.any_eq_false]
    exact fun p hp => Bool.eq_false_iff.1 (hnot p hp)

/-- The loop removes `pre`, all of whose items it finds, and does not get to `post`. -/
structure StopsAfter (l pre post : List T) : Prop where
  found : ∀ p ∈ pre, l.any (· == p) = true
  distinct : pre.Pairwise fun a b => (a == b) = false
  missed : ∀ x ∈ post.head?, l.any (· == x) = false ∨ ∃ p ∈ pre, p == x

/-- Every call ends this way. -/
theorem listRemove_stops (hd : Distinct l) (items : List T) :
    ∃ pre post, items = pre ++ post ∧ listRemove l items = dropAll l pre ∧ StopsAfter l pre post := by
  induction items generalizing l with
  | nil =>
    refine ⟨[], [], rfl, ?_, by simp, List.Pairwise.nil, by simp⟩
    simp [listRemove, dropAll]
  | cons item items ih =>
    rw [listRemove]
    split
    · next hitem =>
      have hids : (l.map id).Pairwise fun a b => (b == a) = false := by
        rw [List.map_id]
        exact hd
      have herase : l.eraseP (· == item) = l.filter fun v => !(v == item) := eraseP_eq_filter hids item
      rw [herase]
      have hd' : Distinct (l.filter fun v => !(v == item)) := hd.sublist List.filter_sublist
      obtain ⟨pre, post, rfl, hremove, hstops⟩ := ih hd'
      -- what the rest of the loop finds is in `l` and differs from `item`
      have hfound : ∀ p ∈ pre, l.any (· == p) = true ∧ (item == p) = false := by
        intro p hp
        obtain ⟨v, hv, hvp⟩ := List.any_eq_true.1 (hstops.found p hp)
        obtain ⟨hvl, hvitem⟩ := List.mem_filter.1 hv
        refine ⟨List.any_eq_true.2 ⟨v, hvl, hvp⟩, Bool.eq_false_iff.2 fun hitemp => ?_⟩
        rw [BEq.trans hvp (BEq.symm hitemp)] at hvitem
        exact Bool.noConfusion hvitem
      refine ⟨item :: pre, post, rfl, by rw [hremove, dropAll_cons], ?_, ?_, ?_⟩
      · intro p hp
        rcases List.mem_cons.1 hp with rfl | hp
        · exact hitem
        · exact (hfound p hp).1
      · exact List.pairwise_cons.2 ⟨fun p hp => (hfound p hp).2, hstops.distinct⟩
      · intro x hx
        rcases hstops.missed x hx with hmissed | ⟨p, hp, hpx⟩
        · by_cases hitemx : item == x
          · exact Or.inr ⟨item, List.mem_cons_self, hitemx⟩
          · refine Or.inl (Bool.eq_false_iff.2 fun hany => ?_)
            obtain ⟨v, hv, hvx⟩ := List.any_eq_true.1 hany
            have hne : (v == item) = false :=
              Bool.eq_false_iff.2 fun hvitem => hitemx (BEq.trans (BEq.symm hvitem) hvx)
            have hkept : v ∈ l.filter fun v => !(v == item) := List.mem_filter.2 ⟨hv, by simp [hne]⟩
            exact Bool.eq_false_iff.1 hmissed (List.any_eq_true.2 ⟨v, hkept, hvx⟩)
        · exact Or.inr ⟨p, List.mem_cons_of_mem item hp, hpx⟩
    · next hitem =>
      refine ⟨[], item :: items, rfl, by simp [dropAll], by simp, List.Pairwise.nil, ?_⟩
      rintro x ⟨⟩
      exact Or.inl (Bool.eq_false_iff.2 hitem)

omit [PartialEquivBEq T] in
/-- The loop stops at or before any item that it would miss. -/
theorem StopsAfter.subset_of_missed (h : StopsAfter l pre post) {pre' post' : List T}
    (hsplit : pre ++ post = pre' ++ x :: post')
    (hx : l.any (· == x) = false ∨ ∃ p ∈ pre', p == x) : ∀ p ∈ pre, p ∈ pre' := by
  rcases List.append_eq_append_iff.1 hsplit with ⟨rest, rfl, -⟩ | ⟨rest, rfl, hrest⟩
  · exact fun p hp => List.mem_append_left rest hp
  · cases rest with
    | nil => simp
    | cons a rest =>
      obtain ⟨rfl, -⟩ := List.cons.inj hrest
      rcases hx with habsent | ⟨p, hp, hpx⟩
      · have hfound := h.found x (List.mem_append_right pre' List.mem_cons_self)
        rw [habsent] at hfound
        exact Bool.noConfusion hfound
      · have hne := (List.pairwise_append.1 h.distinct).2.2 p hp x List.mem_cons_self
        rw [hpx] at hne
        exact Bool.noConfusion hne

omit [PartialEquivBEq T] in
theorem Rep.contains_eq {ln : List (Int × T)} (h : Rep s ln) (x : T) :
    s.contains [x] = (ln.map Prod.snd).any (· == x) := by
  rw [contains_singleton, h.isSome_index]

/-- If the loop does not stop short, each item that is present is equal to one that it removes. -/
theorem StopsAfter.reaches {ln : List (Int × T)} (hrep : Rep s ln)
    (h : StopsAfter (ln.map Prod.snd) pre post) (hreach : ¬s.StopsShort (pre ++ post))
    (hy : y ∈ pre ++ post) (hpresent : (ln.map Prod.snd).any (· == y) = true) : ∃ p ∈ pre, p == y := by
  rcases List.mem_append.1 hy with hy | hy
  · obtain ⟨v, -, hvy⟩ := List.any_eq_true.1 hpresent
    exact ⟨y, hy, BEq.trans (BEq.symm hvy) hvy⟩
  · cases post with
    | nil => simp at hy
    | cons x post =>
      have hmissed := h.missed x rfl
      rcases List.mem_cons.1 hy with rfl | hy
      · rcases hmissed with habsent | hpre
        · rw [hpresent] at habsent
          exact Bool.noConfusion habsent
        · exact hpre
      · by_contra hnew
        refine hreach ⟨pre, x, post, rfl, ?_, y, hy, ?_, fun p hp => ?_⟩
        · rw [hrep.contains_eq]
          exact hmissed
        · rw [hrep.contains_eq]
          exact hpresent
        · exact Bool.eq_false_iff.2 fun hpy => hnew ⟨p, hp, hpy⟩

/-- After any calls of `Add` and `Remove` on a new set, one more call of `Remove` removes all its items
and nothing else, exactly if no item that is present is kept out of its reach by one that is not. -/
theorem remove_without_iff [Inhabited T] (calls : List (Call T)) (items : List T) :
    Without (run {} calls) ((run {} calls).remove items) items ↔ ¬(run {} calls).StopsShort items := by
  obtain ⟨ln, hrep, -⟩ := rep_empty.run calls
  generalize run {} calls = s at hrep ⊢
  obtain ⟨ln', hrep', hitems'⟩ := hrep.remove items
  obtain ⟨pre, post, rfl, hremove, hstops⟩ := listRemove_stops hrep.items items
  rw [hremove] at hitems'
  have hcontains : ∀ z, (s.remove (pre ++ post)).contains [z] = true ↔
      ∃ v ∈ ln.map Prod.snd, v == z ∧ ∀ p ∈ pre, (v == p) = false := by
    intro z
    rw [hrep'.contains_eq, hitems', any_dropAll]
  constructor
  · rintro hwithout ⟨pre', x, post', hsplit, hx, y, hy, hpresent, hnew⟩
    rw [hrep.contains_eq] at hx hpresent
    obtain ⟨v, hv, hvy⟩ := List.any_eq_true.1 hpresent
    have hgone := hwithout.gone y (hsplit ▸ List.mem_append_right pre' (List.mem_cons_of_mem x hy))
    refine Bool.eq_false_iff.1 hgone ((hcontains y).2 ⟨v, hv, hvy, fun p hp => ?_⟩)
    refine Bool.eq_false_iff.2 fun hvp => ?_
    exact Bool.eq_false_iff.1 (hnew p (hstops.subset_of_missed hsplit hx p hp))
      (BEq.trans (BEq.symm hvp) hvy)
  · intro hreach
    -- an item of the set that is equal to one in the list is equal to one that is removed
    have hremoved : ∀ v ∈ ln.map Prod.snd, ∀ z ∈ pre ++ post, v == z → ∃ p ∈ pre, v == p := by
      intro v hv z hz hvz
      obtain ⟨p, hp, hpz⟩ := hstops.reaches hrep hreach hz (List.any_eq_true.2 ⟨v, hv, hvz⟩)
      exact ⟨p, hp, BEq.trans hvz (BEq.symm hpz)⟩
    refine ⟨fun z hz => ?_, fun z hz => ?_, ?_⟩
    · refine Bool.eq_false_iff.2 fun hfound => ?_
      obtain ⟨v, hv, hvz, hnot⟩ := (hcontains z).1 hfound
      obtain ⟨p, hp, hvp⟩ := hremoved v hv z hz hvz
      exact Bool.eq_false_iff.1 (hnot p hp) hvp
    · rw [Bool.eq_iff_iff, hcontains, hrep.contains_eq, List.any_eq_true]
      constructor
      · rintro ⟨v, hv, hvz, -⟩
        exact ⟨v, hv, hvz⟩
      · rintro ⟨v, hv, hvz⟩
        refine ⟨v, hv, hvz, fun p hp => Bool.eq_false_iff.2 fun hvp => ?_⟩
        exact Bool.eq_false_iff.1 (hz p (List.mem_append_left post hp)) (BEq.trans (BEq.symm hvp) hvz)
    · have hvalues : s.values = some (ln.map Prod.snd) := hrep.store.values
      have hvalues' : (s.remove (pre ++ post)).values = some (ln'.map Prod.snd) := hrep'.store.values
      rw [hvalues', hitems', hvalues, Option.map_some]
      refine congrArg some (List.filter_congr fun v hv => ?_)
      rw [Bool.not_inj_iff, Bool.eq_iff_iff, List.any_eq_true, List.any_eq_true]
      constructor
      · rintro ⟨p, hp, hvp⟩
        exact ⟨p, List.mem_append_left post hp, hvp⟩
      · rintro ⟨z, hz, hvz⟩
        exact hremoved v hv z hz hvz

/-- `Remove(3, 1, 7)` on the set of 1, 2 and 3: what it does not find comes last. -/
theorem remove_without_iff_absent_last :
    Without (run {} [.add [1, 2, 3]]) ((run {} [.add [1, 2, 3]]).remove [3, 1, 7]) [3, 1, 7] := by
  refine (remove_without_iff [.add [1, 2, 3]] [3, 1, 7]).2 ?_
  rintro ⟨pre, x, post, hsplit, hx, y, hy, -⟩
  rcases pre with _ | ⟨a, _ | ⟨b, _ | ⟨c, pre⟩⟩⟩
  · obtain ⟨rfl, -⟩ := List.cons.inj hsplit
    exact absurd hx (by decide)
  · obtain ⟨rfl, hrest⟩ := List.cons.inj hsplit
    obtain ⟨rfl, -⟩ := List.cons.inj hrest
    exact absurd hx (by decide)
  · simp at hsplit
    simp [hsplit] at hy
  · simp at hsplit

/-- `Remove(7, 1)` ends at 7, so that 1 stays in the set. -/
theorem remove_ends_at_absent :
    (run {} [.add [1, 2]]).contains [1] ∧ ((run {} [.add [1, 2]]).remove [7, 1]).contains [1] ∧
      ((run {} [.add [1, 2]]).remove [7, 1]).values = some [1, 2] ∧
      ¬Without (run {} [.add [1, 2]]) ((run {} [.add [1, 2]]).remove [7, 1]) [7, 1] := by
  refine ⟨rfl, rfl, rfl, fun h => ?_⟩
  have hgone := h.gone 1 (by simp)
  exact absurd hgone (by decide)

end OwnX.Basic.OrderedSet
