import OwnX.Foundations.FileTree

/-!
# Proofs: trees of files

Each operation is described by what stands at the paths afterwards.
-/

namespace OwnX

variable {β : Type}

theorem Entry.Part.setMode {e e' : Entry β} (mode : Nat) (h : e.Part e') : (e.setMode mode).Part e' := by
  cases e <;> cases e' <;> exact h

namespace FileForest

theorem find_set (es : FileForest β) (name : String) (t : FileTree β) (n : String) :
    (es.set name t).find n = if n = name then some t else es.find n := by
  cases es with
  | nil =>
    simp only [set, find, eq_comm]
  | cons m c rest =>
    have ih := find_set rest name t n
    unfold set
    by_cases hm : m = name
    · subst hm
      simp only [if_true, find]
      by_cases hn : m = n
      · simp [hn]
      · simp [hn, Ne.symm hn]
    · rw [if_neg hm]
      by_cases hn : m = n
      · subst hn
        simp [find, hm]
      · simp only [find, if_neg hn]
        exact ih

theorem find_set_self (es : FileForest β) (name : String) (t : FileTree β) :
    (es.set name t).find name = some t := by
  rw [find_set, if_pos rfl]

theorem find_set_of_ne (es : FileForest β) {name n : String} (t : FileTree β) (h : n ≠ name) :
    (es.set name t).find n = es.find n := by
  rw [find_set, if_neg h]

end FileForest

namespace FileTree

variable {t t' : FileTree β} {p q : Path} {n : String} {mode : Nat} {es : FileForest β}

/-! ## What stands at a path -/

@[simp] theorem entry_nil : t.entry [] = some t.top := rfl

@[simp] theorem entry_file_cons {data : List β} : (file mode data).entry (n :: p) = none := rfl

theorem entry_dir_cons : (dir mode es).entry (n :: p) = (es.find n).bind (entry p) := by
  unfold entry
  rw [node, Option.map_bind]
  rfl

theorem node_eq_none_iff : t.node p = none ↔ t.entry p = none := by
  unfold entry
  rw [Option.map_eq_none_iff]

theorem node_append (p q : Path) (t : FileTree β) :
    t.node (p ++ q) = (t.node p).bind (node q) := by
  induction p generalizing t with
  | nil => rfl
  | cons n p ih =>
    cases t with
    | file mode data => rfl
    | dir mode es =>
      simp only [List.cons_append, node, Option.bind_assoc]
      congr 1
      funext c
      exact ih c

theorem entry_append (p q : Path) (t : FileTree β) :
    t.entry (p ++ q) = (t.node p).bind (entry q) := by
  unfold entry
  rw [node_append, Option.map_bind]
  rfl

/-- Something stands at a path only if directories lead there. -/
theorem entry_of_append {e : Entry β} (h : t.entry (p ++ n :: q) = some e) :
    ∃ m, t.entry p = some (.dir m) := by
  rw [entry_append] at h
  obtain ⟨c, hc, he⟩ := Option.bind_eq_some_iff.mp h
  cases c with
  | file mode data => cases he
  | dir mode es => exact ⟨mode, by rw [entry, hc]; rfl⟩

theorem top_eq_file {data : List β} (h : t.top = .file mode data) : t = file mode data := by
  cases t with
  | file m d =>
    cases h
    rfl
  | dir m es => cases h

theorem top_eq_dir (h : t.top = .dir mode) : ∃ es, t = dir mode es := by
  cases t with
  | file m d => cases h
  | dir m es =>
    cases h
    exact ⟨es, rfl⟩

/-! ## A change at one path -/

/-- The change leaves what is below alone. -/
def Local (f : Option (FileTree β) → Option (FileTree β)) : Prop :=
  ∀ x c, f x = some c → ∀ n p, c.entry (n :: p) = x.bind (entry (n :: p))

/-- A change at a path that leaves alone what is below changes nothing else. -/
theorem entry_alter {f : Option (FileTree β) → Option (FileTree β)} (hf : Local f)
    (h : t.alter f p = some t') :
    ∃ c, f (t.node p) = some c ∧ ∀ q, t'.entry q = if q = p then some c.top else t.entry q := by
  induction p generalizing t t' with
  | nil =>
    have h : f (some t) = some t' := h
    refine ⟨t', h, fun q => ?_⟩
    cases q with
    | nil => rfl
    | cons m q =>
      rw [if_neg (List.cons_ne_nil m q)]
      exact hf _ _ h m q
  | cons n p ih =>
    cases t with
    | file mode data => cases h
    | dir mode es =>
      simp only [alter, Option.map_eq_some_iff] at h
      obtain ⟨c', hc', rfl⟩ := h
      -- what stands below the name after the change
      have hbelow : ∃ c, f ((es.find n).bind (node p)) = some c ∧
          ∀ q, c'.entry q = if q = p then some c.top else (es.find n).bind (entry q) := by
        cases hfind : es.find n with
        | some c =>
          simp only [hfind] at hc'
          exact ih hc'
        | none =>
          simp only [hfind] at hc'
          split_ifs at hc' with hp
          subst hp
          refine ⟨c', hc', fun q => ?_⟩
          cases q with
          | nil => rfl
          | cons k q =>
            rw [if_neg (List.cons_ne_nil k q)]
            exact hf _ _ hc' k q
      obtain ⟨c, hc, hentry⟩ := hbelow
      refine ⟨c, hc, fun q => ?_⟩
      cases q with
      | nil => rfl
      | cons m q =>
        rw [entry_dir_cons, entry_dir_cons]
        by_cases hm : m = n
        · subst hm
          rw [FileForest.find_set_self, Option.bind_some, hentry q]
          simp
        · rw [FileForest.find_set_of_ne _ _ hm, if_neg (by simp [hm])]

/-- A change is made if it can be, and the parent is a directory. -/
theorem alter_isSome {f : Option (FileTree β) → Option (FileTree β)} {m : Nat}
    (hparent : t.entry p = some (.dir m)) (hf : (f (t.node (p ++ [n]))).isSome) :
    (t.alter f (p ++ [n])).isSome := by
  induction p generalizing t with
  | nil =>
    obtain ⟨es, rfl⟩ := top_eq_dir (Option.some.inj hparent)
    simp only [List.nil_append, alter, Option.isSome_map]
    simp only [List.nil_append, node] at hf
    cases hfind : es.find n with
    | some c =>
      rw [hfind] at hf
      exact hf
    | none =>
      rw [hfind] at hf
      simpa using hf
  | cons k p ih =>
    cases t with
    | file mode data => cases hparent
    | dir mode es =>
      rw [entry_dir_cons] at hparent
      obtain ⟨c, hc, hparent⟩ := Option.bind_eq_some_iff.mp hparent
      simp only [List.cons_append, node, hc, Option.bind_some] at hf
      simp only [List.cons_append, alter, Option.isSome_map, hc]
      exact ih hparent hf

/-! ## The operations -/

theorem local_create (fileMode : Nat) : Local (β := β) fun
    | none => some (file fileMode [])
    | some (file mode _) => some (file mode [])
    | some (dir _ _) => none := by
  intro x c h n p
  match x with
  | none =>
    cases h
    rfl
  | some (file mode data) =>
    cases h
    rfl
  | some (dir mode es) => cases h

theorem local_chmod (mode : Nat) : Local (β := β) fun
    | none => none
    | some (file _ data) => some (file mode data)
    | some (dir _ es) => some (dir mode es) := by
  intro x c h n p
  match x with
  | none => cases h
  | some (file m data) =>
    cases h
    rfl
  | some (dir m es) =>
    cases h
    rfl

theorem local_write (data : List β) : Local fun
    | some (file mode old) => some (file mode (data ++ old.drop data.length))
    | _ => none := by
  intro x c h n p
  match x with
  | none => cases h
  | some (file mode old) =>
    cases h
    rfl
  | some (dir mode es) => cases h

/-- A created file is empty. -/
theorem entry_create {fileMode : Nat} (h : t.create fileMode p = some t') :
    ∃ mode, ∀ q, t'.entry q = if q = p then some (.file mode []) else t.entry q := by
  obtain ⟨c, hc, hentry⟩ := entry_alter (local_create fileMode) h
  have hfile : ∃ mode, c.top = .file mode [] := by
    split at hc
    · cases hc
      exact ⟨fileMode, rfl⟩
    · next mode _ _ =>
      cases hc
      exact ⟨mode, rfl⟩
    · cases hc
  obtain ⟨mode, hmode⟩ := hfile
  rw [hmode] at hentry
  exact ⟨mode, hentry⟩

/-- The mode of an entry. -/
theorem entry_chmod (h : t.chmod mode p = some t') :
    ∃ e, t.entry p = some e ∧ ∀ q, t'.entry q =
      if q = p then some (e.setMode mode) else t.entry q := by
  obtain ⟨c, hc, hentry⟩ := entry_alter (local_chmod mode) h
  split at hc
  · cases hc
  · next m data hnode =>
    cases hc
    exact ⟨.file m data, by rw [entry, hnode]; rfl, hentry⟩
  · next m es hnode =>
    cases hc
    exact ⟨.dir m, by rw [entry, hnode]; rfl, hentry⟩

theorem entry_write {data : List β} (h : t.write data p = some t') :
    ∃ m old, t.entry p = some (.file m old) ∧ ∀ q, t'.entry q =
      if q = p then some (.file m (data ++ old.drop data.length)) else t.entry q := by
  obtain ⟨c, hc, hentry⟩ := entry_alter (local_write data) h
  split at hc
  · next m old hnode =>
    cases hc
    exact ⟨m, old, by rw [entry, hnode]; rfl, hentry⟩
  · cases hc

theorem entry_dir_nil (mode : Nat) (p : Path) :
    (dir mode .nil : FileTree β).entry p = if p = [] then some (.dir mode) else none := by
  cases p with
  | nil => rfl
  | cons n p => rw [entry_dir_cons, if_neg (List.cons_ne_nil n p)]; rfl

/-- The directories on the way are there, and nothing else has changed. -/
theorem entry_mkdirAll {dirMode : Nat} (h : t.mkdirAll dirMode p = some t') (q : Path) :
    t'.entry q = if q <+: p then (t.entry q).or (some (.dir dirMode)) else t.entry q := by
  induction p generalizing t t' q with
  | nil =>
    cases t with
    | file mode data => cases h
    | dir mode es =>
      cases h
      cases q with
      | nil => rfl
      | cons m q => rw [if_neg (by simp)]
  | cons n p ih =>
    cases t with
    | file mode data => cases h
    | dir mode es =>
      simp only [mkdirAll, Option.map_eq_some_iff] at h
      obtain ⟨c', hc', rfl⟩ := h
      cases q with
      | nil => rw [if_pos List.nil_prefix]; rfl
      | cons m q =>
        rw [entry_dir_cons, entry_dir_cons]
        by_cases hm : m = n
        · subst hm
          rw [FileForest.find_set_self, Option.bind_some, ih hc' q]
          simp only [List.cons_prefix_cons, true_and]
          cases hfind : es.find m with
          | some c => rfl
          | none =>
            -- the directory is new and has no entries
            rw [Option.getD_none, entry_dir_nil]
            split_ifs with hpre hq
            · rfl
            · rfl
            · subst q
              exact absurd List.nil_prefix hpre
            · rfl
        · rw [FileForest.find_set_of_ne _ _ hm, if_neg (by simp [hm])]

/-- No file may stand on the way. -/
theorem mkdirAll_isSome_iff {dirMode : Nat} :
    (t.mkdirAll dirMode p).isSome ↔ ∀ q, q <+: p → ∀ m d, t.entry q ≠ some (.file m d) := by
  induction p generalizing t with
  | nil =>
    cases t with
    | file mode data => simp [mkdirAll, top]
    | dir mode es => simp [mkdirAll, top]
  | cons n p ih =>
    cases t with
    | file mode data =>
      simp only [mkdirAll, Option.isSome_none, Bool.false_eq_true, false_iff]
      exact fun h => h [] List.nil_prefix mode data rfl
    | dir mode es =>
      simp only [mkdirAll, Option.isSome_map, ih]
      constructor
      · intro h q hq m d hfile
        cases q with
        | nil => cases hfile
        | cons k q =>
          obtain ⟨rfl, hbelow⟩ := List.cons_prefix_cons.mp hq
          rw [entry_dir_cons] at hfile
          obtain ⟨c, hc, hfile⟩ := Option.bind_eq_some_iff.mp hfile
          rw [hc] at h
          exact h q hbelow m d hfile
      · intro h q hq m d hfile
        cases hfind : es.find n with
        | none =>
          rw [hfind, Option.getD_none, entry_dir_nil] at hfile
          split_ifs at hfile
          cases hfile
        | some c =>
          rw [hfind, Option.getD_some] at hfile
          refine h (n :: q) (List.cons_prefix_cons.mpr ⟨rfl, hq⟩) m d ?_
          rw [entry_dir_cons, hfind]
          exact hfile

end FileTree

/-! ## Well-formed trees -/

theorem FileForest.WellFormed.of_find {es : FileForest β} (h : es.WellFormed) {n : String}
    {t : FileTree β} (ht : es.find n = some t) : t.WellFormed := by
  cases es with
  | nil => cases ht
  | cons name c rest =>
    obtain ⟨hc, -, hrest⟩ := h
    rw [FileForest.find] at ht
    split_ifs at ht
    · cases ht
      exact hc
    · exact FileForest.WellFormed.of_find hrest ht

theorem FileForest.WellFormed.set {es : FileForest β} (h : es.WellFormed) {t : FileTree β}
    (ht : t.WellFormed) (n : String) : (es.set n t).WellFormed := by
  cases es with
  | nil => exact ⟨ht, rfl, trivial⟩
  | cons name c rest =>
    obtain ⟨hc, hfree, hrest⟩ := h
    rw [FileForest.set]
    split_ifs with hn
    · exact ⟨ht, hfree, hrest⟩
    · refine ⟨hc, ?_, FileForest.WellFormed.set hrest ht n⟩
      rw [FileForest.find_set_of_ne _ _ hn]
      exact hfree

namespace FileTree

variable {t t' : FileTree β} {p : Path}

theorem WellFormed.node (h : t.WellFormed) {c : FileTree β} (hc : t.node p = some c) :
    c.WellFormed := by
  induction p generalizing t with
  | nil =>
    cases hc
    exact h
  | cons n p ih =>
    cases t with
    | file mode data => cases hc
    | dir mode es =>
      obtain ⟨c', hc', hnode⟩ := Option.bind_eq_some_iff.mp hc
      exact ih (FileForest.WellFormed.of_find h hc') hnode

theorem WellFormed.alter {f : Option (FileTree β) → Option (FileTree β)}
    (hf : ∀ x c, (∀ y, x = some y → y.WellFormed) → f x = some c → c.WellFormed) (h : t.WellFormed)
    (ht : t.alter f p = some t') : t'.WellFormed := by
  induction p generalizing t t' with
  | nil => exact hf _ _ (fun y hy => Option.some.inj hy ▸ h) ht
  | cons n p ih =>
    cases t with
    | file mode data => cases ht
    | dir mode es =>
      simp only [FileTree.alter, Option.map_eq_some_iff] at ht
      obtain ⟨c', hc', rfl⟩ := ht
      refine FileForest.WellFormed.set h ?_ n
      cases hfind : es.find n with
      | some c =>
        simp only [hfind] at hc'
        exact ih (FileForest.WellFormed.of_find h hfind) hc'
      | none =>
        simp only [hfind] at hc'
        split_ifs at hc'
        exact hf none c' (fun y hy => by cases hy) hc'

theorem WellFormed.create {fileMode : Nat} (h : t.WellFormed) (ht : t.create fileMode p = some t') :
    t'.WellFormed := by
  refine h.alter (fun x c _ hc => ?_) ht
  split at hc <;> cases hc <;> trivial

theorem WellFormed.chmod {mode : Nat} (h : t.WellFormed) (ht : t.chmod mode p = some t') :
    t'.WellFormed := by
  refine h.alter (fun x c hx hc => ?_) ht
  split at hc
  · cases hc
  · cases hc
    trivial
  · next m es =>
    cases hc
    have hes : (dir m es).WellFormed := hx _ rfl
    exact hes

theorem WellFormed.write {data : List β} (h : t.WellFormed) (ht : t.write data p = some t') :
    t'.WellFormed := by
  refine h.alter (fun x c _ hc => ?_) ht
  split at hc <;> cases hc
  trivial

theorem WellFormed.mkdirAll {dirMode : Nat} (h : t.WellFormed)
    (ht : t.mkdirAll dirMode p = some t') : t'.WellFormed := by
  induction p generalizing t t' with
  | nil =>
    cases t with
    | file mode data => cases ht
    | dir mode es =>
      cases ht
      exact h
  | cons n p ih =>
    cases t with
    | file mode data => cases ht
    | dir mode es =>
      simp only [FileTree.mkdirAll, Option.map_eq_some_iff] at ht
      obtain ⟨c', hc', rfl⟩ := ht
      refine FileForest.WellFormed.set h (ih ?_ hc') n
      cases hfind : es.find n with
      | some c => exact FileForest.WellFormed.of_find h hfind
      | none => trivial

end FileTree

/-! ## Induction over a tree -/

mutual

/-- What holds of every file, and of a directory if it holds of its entries, holds of every tree. -/
theorem FileTree.induction_find {P : FileTree β → Prop} (hfile : ∀ mode data, P (.file mode data))
    (hdir : ∀ mode (es : FileForest β), (∀ n t, es.find n = some t → P t) → P (.dir mode es))
    (t : FileTree β) : P t := by
  cases t with
  | file mode data => exact hfile mode data
  | dir mode es => exact hdir mode es fun _ _ h => FileForest.induction_find hfile hdir h

theorem FileForest.induction_find {P : FileTree β → Prop} (hfile : ∀ mode data, P (.file mode data))
    (hdir : ∀ mode (es : FileForest β), (∀ n t, es.find n = some t → P t) → P (.dir mode es))
    {es : FileForest β} {n : String} {t : FileTree β} (h : es.find n = some t) : P t := by
  cases es with
  | nil => cases h
  | cons name c rest =>
    rw [FileForest.find] at h
    split_ifs at h
    · cases h
      exact FileTree.induction_find hfile hdir t
    · exact FileForest.induction_find hfile hdir h

end

namespace FileForest

theorem mem_names (es : FileForest β) (n : String) : n ∈ es.names ↔ es.find n ≠ none := by
  cases es with
  | nil => simp [names, find]
  | cons name t rest =>
    rw [names, find, List.mem_cons, mem_names rest n]
    split_ifs with hn
    · simp [hn]
    · simp [Ne.symm hn]

theorem WellFormed.nodup_names {es : FileForest β} (h : es.WellFormed) : es.names.Nodup := by
  cases es with
  | nil => exact List.nodup_nil
  | cons name t rest =>
    obtain ⟨-, hfree, hrest⟩ := h
    exact List.nodup_cons.2 ⟨fun hmem => (mem_names rest name).1 hmem hfree, nodup_names hrest⟩

theorem depth_lt_of_find {es : FileForest β} {n : String} {t : FileTree β} (h : es.find n = some t) :
    t.depth < es.depth := by
  cases es with
  | nil => cases h
  | cons name c rest =>
    rw [find] at h
    rw [depth]
    split_ifs at h
    · cases h
      omega
    · have hlt := depth_lt_of_find h
      omega

end FileForest

end OwnX
