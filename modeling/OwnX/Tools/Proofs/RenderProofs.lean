import OwnX.Tools.Render
import OwnX.Foundations.Proofs.GoMapProofs
import OwnX.Foundations.Proofs.TextProofs

/-!
# Proofs: the order of the tags

Each entry makes one assignment, and the map is what the assignments make of an empty one. Two entries
assign to the same key only if one of the keys is the other with the suffix.
-/

namespace OwnX.Tools

variable {J : Type} {lib : Packages J} {tags : GoMap Text Text} {order : List (Text × Text)}

/-- The assignment that an entry makes; `none` if it cannot be parsed. -/
def assignment (lib : Packages J) (e : Text × Text) : Option (Text × Value J) :=
  if Text.hasSuffix e.1 suffixObj then
    match lib.unmarshalMap e.2 with
    | .error _ => none
    | .ok subObj => some (Text.trimSuffix e.1 suffixObj, .json subObj)
  else some (e.1, parseValue lib e.2)

/-! ## One entry -/

/-- A key with the suffix. -/
theorem assignment_obj (k v : Text) {subObj : J} (h : lib.unmarshalMap v = .ok subObj) :
    assignment lib (k ++ suffixObj, v) = some (k, .json subObj) := by
  simp [assignment, h]

/-- A key without it. -/
theorem assignment_plain {k : Text} (h : Text.hasSuffix k suffixObj = false) (v : Text) :
    assignment lib (k, v) = some (k, parseValue lib v) := by
  simp [assignment, h]

theorem assignment_eq_some {e : Text × Text} {a : Text × Value J} (h : assignment lib e = some a) :
    (Text.hasSuffix e.1 suffixObj = false ∧ a = (e.1, parseValue lib e.2)) ∨
      ∃ subObj, e.1 = a.1 ++ suffixObj ∧ lib.unmarshalMap e.2 = .ok subObj ∧ a.2 = .json subObj := by
  cases hsuffix : Text.hasSuffix e.1 suffixObj with
  | false =>
    rw [assignment_plain hsuffix] at h
    exact Or.inl ⟨rfl, (Option.some.inj h).symm⟩
  | true =>
    obtain ⟨k, hk⟩ := Text.hasSuffix_iff.1 hsuffix
    cases hjson : lib.unmarshalMap e.2 with
    | error err => exact absurd h (by simp [assignment, hsuffix, hjson])
    | ok subObj =>
      have he : e = (k ++ suffixObj, e.2) := by rw [← hk]
      rw [he, assignment_obj k e.2 hjson] at h
      obtain rfl := Option.some.inj h
      exact Or.inr ⟨subObj, hk, rfl, rfl⟩

theorem assignment_isSome (h : ¬Fails lib tags) {e : Text × Text} (he : e ∈ tags.entries) :
    (assignment lib e).isSome := by
  unfold assignment
  split
  · next hsuffix =>
    split
    · next err herr => exact absurd ⟨e, he, hsuffix, err, herr⟩ h
    · rfl
  · rfl

/-! ## The loop -/

theorem parseLoop_cons (e : Text × Text) (order : List (Text × Text)) (m : GoMap Text (Value J)) :
    (∃ err, assignment lib e = none ∧ parseLoop lib (e :: order) m = .error err) ∨
      ∃ a, assignment lib e = some a ∧
        parseLoop lib (e :: order) m = parseLoop lib order (m.set a.1 a.2) := by
  obtain ⟨k, v⟩ := e
  rw [parseLoop, assignment]
  split
  · cases lib.unmarshalMap v with
    | error err => exact Or.inl ⟨_, rfl, rfl⟩
    | ok subObj => exact Or.inr ⟨_, rfl, rfl⟩
  · exact Or.inr ⟨_, rfl, rfl⟩

/-- If every entry can be parsed, the map is that of the assignments. -/
theorem parseLoop_ok (h : ∀ e ∈ order, (assignment lib e).isSome) (m : GoMap Text (Value J)) :
    parseLoop lib order m = .ok (m.setAll (order.filterMap (assignment lib))) := by
  induction order generalizing m with
  | nil => rfl
  | cons e order ih =>
    have hrest : ∀ e' ∈ order, (assignment lib e').isSome := fun e' he' => h e' (List.mem_cons_of_mem e he')
    rcases parseLoop_cons e order m with ⟨err, hnone, -⟩ | ⟨a, ha, hloop⟩
    · have hsome := h e List.mem_cons_self
      rw [hnone] at hsome
      exact absurd hsome (by simp)
    · rw [hloop, ih hrest, List.filterMap_cons_some ha]
      rfl

/-- An entry that cannot be parsed makes the call fail, wherever it stands. -/
theorem parseLoop_error {e : Text × Text} (he : e ∈ order) (hnone : assignment lib e = none)
    (m : GoMap Text (Value J)) : ∃ err, parseLoop lib order m = .error err := by
  induction order generalizing m with
  | nil => simp at he
  | cons e' order ih =>
    rcases parseLoop_cons e' order m with ⟨err, -, hloop⟩ | ⟨a, ha, hloop⟩
    · exact ⟨err, hloop⟩
    · rcases List.mem_cons.1 he with rfl | he
      · rw [ha] at hnone
        exact absurd hnone (by simp)
      · rw [hloop]
        exact ih he _

theorem parseTags_fails (h : Fails lib tags) (hperm : order.Perm tags.entries) :
    ∃ err, parseTags lib order = .error err := by
  obtain ⟨e, he, hsuffix, err, herr⟩ := h
  have hnone : assignment lib e = none := by simp [assignment, hsuffix, herr]
  exact parseLoop_error (hperm.mem_iff.2 he) hnone _

theorem parseTags_ok (h : ¬Fails lib tags) (hperm : order.Perm tags.entries) :
    parseTags lib order = .ok (GoMap.empty.setAll (order.filterMap (assignment lib))) :=
  parseLoop_ok (fun _ he => assignment_isSome h (hperm.mem_iff.1 he)) _

/-! ## Collisions -/

/-- Without a collision, assignments to the same key assign the same value. -/
theorem assignments_agree (h : ¬Collides lib tags) {a a' : Text × Value J}
    (ha : a ∈ tags.entries.filterMap (assignment lib))
    (ha' : a' ∈ tags.entries.filterMap (assignment lib)) (hkey : a.1 = a'.1) : a.2 = a'.2 := by
  obtain ⟨e, he, hassign⟩ := List.mem_filterMap.1 ha
  obtain ⟨e', he', hassign'⟩ := List.mem_filterMap.1 ha'
  have hv : tags.get? e.1 = some e.2 := GoMap.mem_entries_iff.1 he
  have hv' : tags.get? e'.1 = some e'.2 := GoMap.mem_entries_iff.1 he'
  -- equal values under the plain key and the key with the suffix
  have hmixed : ∀ {k v v' : Text} {subObj : J}, Text.hasSuffix k suffixObj = false →
      tags.get? k = some v → tags.get? (k ++ suffixObj) = some v' → lib.unmarshalMap v' = .ok subObj →
      parseValue lib v = .json subObj := by
    intro k v v' subObj hplain hk hobj hjson
    by_contra hne
    exact h ⟨k, v, v', subObj, hplain, hk, hobj, hjson, hne⟩
  rcases assignment_eq_some hassign with ⟨hplain, rfl⟩ | ⟨subObj, hobj, hjson, hval⟩
  · rcases assignment_eq_some hassign' with ⟨-, rfl⟩ | ⟨subObj', hobj', hjson', hval'⟩
    · rw [show e.1 = e'.1 from hkey, hv'] at hv
      rw [Option.some.inj hv]
    · rw [hobj', ← hkey] at hv'
      rw [hval']
      exact hmixed hplain hv hv' hjson'
  · rcases assignment_eq_some hassign' with ⟨hplain', rfl⟩ | ⟨subObj', hobj', hjson', hval'⟩
    · rw [hobj, hkey] at hv
      rw [hval]
      exact (hmixed hplain' hv' hv hjson).symm
    · rw [hobj, hkey, ← hobj', hv'] at hv
      rw [Option.some.inj hv, hjson] at hjson'
      rw [hval, hval', Except.ok.inj hjson']

/-- With a collision the last of the two assignments counts. -/
theorem collision_differs {k v v' : Text} {subObj : J} (hfails : ¬Fails lib tags)
    (hplain : Text.hasSuffix k suffixObj = false) (hv : tags.get? k = some v)
    (hv' : tags.get? (k ++ suffixObj) = some v') (hjson : lib.unmarshalMap v' = .ok subObj) :
    ∃ order order' m m', order.Perm tags.entries ∧ order'.Perm tags.entries ∧
      parseTags lib order = .ok m ∧ parseTags lib order' = .ok m' ∧
      m.get? k = some (.json subObj) ∧ m'.get? k = some (parseValue lib v) := by
  have hne : (k ++ suffixObj, v') ≠ (k, v) := by
    intro heq
    rw [← (Prod.mk.inj heq).1, Text.hasSuffix_append] at hplain
    exact Bool.noConfusion hplain
  have hmem' : (k ++ suffixObj, v') ∈ tags.entries.erase (k, v) :=
    (List.mem_erase_of_ne hne).2 (GoMap.mem_entries_iff.2 hv')
  have hperm := ((List.perm_cons_erase hmem').cons (k, v)).symm.trans
    (List.perm_cons_erase (GoMap.mem_entries_iff.2 hv)).symm
  generalize (tags.entries.erase (k, v)).erase (k ++ suffixObj, v') = rest at hperm
  have hfirst : (rest ++ [(k, v), (k ++ suffixObj, v')]).Perm tags.entries :=
    List.perm_append_comm.trans hperm
  have hsecond : (rest ++ [(k ++ suffixObj, v'), (k, v)]).Perm tags.entries :=
    (List.perm_append_comm.trans (List.Perm.swap _ _ _)).trans hperm
  refine ⟨_, _, _, _, hfirst, hsecond, parseTags_ok hfails hfirst, parseTags_ok hfails hsecond, ?_, ?_⟩
  · rw [GoMap.get?_setAll, List.filterMap_append,
      List.filterMap_cons_some (assignment_plain hplain v),
      List.filterMap_cons_some (assignment_obj k v' hjson)]
    simp [assocGet]
  · rw [GoMap.get?_setAll, List.filterMap_append,
      List.filterMap_cons_some (assignment_obj k v' hjson),
      List.filterMap_cons_some (assignment_plain hplain v)]
    simp [assocGet]

/-- For every map of tags: `ParseTags` fails for both of any two orders or returns equal maps for both,
exactly if an entry cannot be parsed, or no key has another value with the suffix than without it. -/
theorem parseTags_order_iff (lib : Packages J) (tags : GoMap Text Text) :
    (∀ order order', order.Perm tags.entries → order'.Perm tags.entries →
      SameOutcome (parseTags lib order) (parseTags lib order')) ↔
    (Fails lib tags ∨ ¬Collides lib tags) := by
  constructor
  · intro hsame
    by_contra hnot
    obtain ⟨hfails, hcollides⟩ := not_or.1 hnot
    obtain ⟨k, v, v', subObj, hplain, hv, hv', hjson, hne⟩ := not_not.1 hcollides
    obtain ⟨order, order', m, m', hperm, hperm', hm, hm', hget, hget'⟩ :=
      collision_differs hfails hplain hv hv' hjson
    have hequal := hsame order order' hperm hperm'
    rw [hm, hm'] at hequal
    have hk : m.get? k = m'.get? k := hequal k
    rw [hget, hget'] at hk
    exact hne (Option.some.inj hk).symm
  · intro h order order' hperm hperm'
    by_cases hfails : Fails lib tags
    · obtain ⟨err, herr⟩ := parseTags_fails hfails hperm
      obtain ⟨err', herr'⟩ := parseTags_fails hfails hperm'
      rw [herr, herr']
      trivial
    · rcases h with h | h
      · exact absurd h hfails
      · rw [parseTags_ok hfails hperm, parseTags_ok hfails hperm']
        intro k
        refine GoMap.get?_setAll_perm ((hperm.trans hperm'.symm).filterMap _) ?_ _ k
        intro a ha a' ha' hkey
        have hmem : ∀ b, b ∈ order.filterMap (assignment lib) →
            b ∈ tags.entries.filterMap (assignment lib) := fun b => (hperm.filterMap _).mem_iff.1
        exact assignments_agree h (hmem a ha) (hmem a' ha') (beq_iff_eq.1 hkey)

/-- A `json` that knows the empty object only; its values are texts. -/
def emptyObjects : Packages Text where
  atoi := fun _ => none
  parseBool := fun _ => none
  unmarshal := fun v => if v = ascii "\x7b\x7d" then some v else none
  unmarshalMap := fun v => if v = ascii "\x7b\x7d" then .ok v else .error (ascii "invalid character")

/-- The tags `a` and `a:obj` are both copied to `a`, and the one that is visited last stays. -/
theorem last_visited_wins :
    (parseTags emptyObjects [(ascii "a", ascii "x"), (ascii "a:obj", ascii "\x7b\x7d")]).toOption.map
        (fun m => m.get? (ascii "a")) = some (some (.json (ascii "\x7b\x7d"))) ∧
      (parseTags emptyObjects [(ascii "a:obj", ascii "\x7b\x7d"), (ascii "a", ascii "x")]).toOption.map
        (fun m => m.get? (ascii "a")) = some (some (.string (ascii "x"))) := by
  decide

end OwnX.Tools
