import OwnX.Ssh.Transfer
import OwnX.Foundations.Proofs.FileTreeProofs

/-!
# Proofs: a host whose files are a tree

A host with a tree of files, to which every request may be broken off, does what is documented of an
`sftp.Client`.
-/

namespace OwnX.Ssh

variable {β : Type}

/-- The files of a host, and the number of requests so far. -/
structure Remote (β : Type) where
  tree : FileTree β
  wellFormed : tree.WellFormed
  requests : Nat := 0

/-- What stands at the paths of the host. -/
def Remote.stands (s : Remote β) : Standing β := fun p => s.tree.entry p

/-- How the requests to a host end: the `i`-th works, or it is broken off after so many parts. -/
abbrev Link := Nat → Option Nat

/-- A change that is made as a whole, or not at all. -/
def atOnce (f : FileTree β → Option (FileTree β)) : Option Nat → FileTree β → Option (FileTree β)
  | some 0 => some
  | _ => f

/-- What a request does to the tree when it works, or has done when it is broken off. New directories and
files get the modes `dirMode` and `fileMode`. -/
def Request.perform (dirMode fileMode : Nat) : Request β → Option Nat → FileTree β → Option (FileTree β)
  | .mkdirAll dir, none => FileTree.mkdirAll dirMode dir
  | .mkdirAll dir, some k => FileTree.mkdirAll dirMode (dir.take k)
  | .create file, broken => atOnce (FileTree.create fileMode file) broken
  | .chmod mode path, broken => atOnce (FileTree.chmod mode path) broken
  | .copy data file, none => FileTree.write data file
  | .copy data file, some k => FileTree.write (data.take k) file

theorem atOnce_ind {Q : FileTree β → Prop} {f : FileTree β → Option (FileTree β)} {t t' : FileTree β}
    {broken : Option Nat} (hk : atOnce f broken t = some t') (ht : Q t) (h : ∀ t', f t = some t' → Q t') :
    Q t' := by
  unfold atOnce at hk
  split at hk
  · cases hk
    exact ht
  · exact h t' hk

section Perform

variable {dirMode fileMode : Nat} {r : Request β} {broken : Option Nat} {t t' : FileTree β}

theorem wellFormed_perform (ht : t.WellFormed) (h : r.perform dirMode fileMode broken t = some t') :
    t'.WellFormed := by
  cases r with
  | mkdirAll dir =>
    cases broken with
    | none => exact ht.mkdirAll h
    | some k => exact ht.mkdirAll h
  | create file => exact atOnce_ind h ht fun _ => ht.create
  | chmod mode path => exact atOnce_ind h ht fun _ => ht.chmod
  | copy data file =>
    cases broken with
    | none => exact ht.write h
    | some k => exact ht.write h

/-- The directories on a part of the way. -/
theorem may_mkdirAll {dir made : Path} (hmade : made <+: dir) (h : t.mkdirAll dirMode made = some t')
    (q : Path) :
    t'.entry q = t.entry q ∨ q <+: dir ∧ t.entry q = none ∧ ∃ m, t'.entry q = some (.dir m) := by
  rw [FileTree.entry_mkdirAll h]
  split_ifs with hq
  · cases he : t.entry q with
    | none => exact Or.inr ⟨hq.trans hmade, rfl, dirMode, rfl⟩
    | some e => exact Or.inl rfl
  · exact Or.inl rfl

/-- The beginning of the data. -/
theorem may_write {data written : List β} {file : Path} (hdata : written <+: data)
    (h : t.write written file = some t') : (Request.copy data file).May (t.entry ·) (t'.entry ·) := by
  obtain ⟨m, old, hold, he⟩ := FileTree.entry_write h
  refine ⟨fun q hq => (he q).trans (if_neg hq), Or.inr ⟨m, old, written, hold, hdata, ?_⟩⟩
  exact (he file).trans (if_pos rfl)

theorem may_refl (r : Request β) (a : Standing β) : r.May a a := by
  cases r with
  | mkdirAll dir => exact fun _ => Or.inl rfl
  | create file => exact ⟨fun _ _ => rfl, Or.inl rfl⟩
  | chmod mode path => exact ⟨fun _ _ => rfl, Or.inl rfl⟩
  | copy data file => exact ⟨fun _ _ => rfl, Or.inl rfl⟩

theorem may_perform (h : r.perform dirMode fileMode broken t = some t') :
    r.May (t.entry ·) (t'.entry ·) := by
  cases r with
  | mkdirAll dir =>
    cases broken with
    | none => exact may_mkdirAll (List.prefix_refl dir) h
    | some k => exact may_mkdirAll (List.take_prefix k dir) h
  | create file =>
    refine atOnce_ind (Q := fun t' => (Request.create file).May (t.entry ·) (t'.entry ·)) h
      (may_refl _ _) fun t' ht' => ?_
    obtain ⟨m, he⟩ := FileTree.entry_create ht'
    exact ⟨fun q hq => (he q).trans (if_neg hq), Or.inr ⟨m, (he file).trans (if_pos rfl)⟩⟩
  | chmod mode path =>
    refine atOnce_ind (Q := fun t' => (Request.chmod mode path).May (t.entry ·) (t'.entry ·)) h
      (may_refl _ _) fun t' ht' => ?_
    obtain ⟨e, hold, he⟩ := FileTree.entry_chmod ht'
    refine ⟨fun q hq => (he q).trans (if_neg hq), Or.inr ?_⟩
    exact ((he path).trans (if_pos rfl)).trans (congrArg (Option.map _) hold).symm
  | copy data file =>
    cases broken with
    | none => exact may_write (List.prefix_refl data) h
    | some k => exact may_write (List.take_prefix k data) h

theorem does_perform (h : r.perform dirMode fileMode none t = some t') :
    r.Does (t.entry ·) (t'.entry ·) := by
  cases r with
  | mkdirAll dir =>
    have hway := FileTree.mkdirAll_isSome_iff.mp (Option.isSome_of_eq_some h) dir (List.prefix_refl dir)
    have he := FileTree.entry_mkdirAll h dir
    rw [if_pos (List.prefix_refl dir)] at he
    cases hold : t.entry dir with
    | none =>
      rw [hold] at he
      exact ⟨dirMode, he⟩
    | some e =>
      cases e with
      | dir m =>
        rw [hold] at he
        exact ⟨m, he⟩
      | file m d => exact absurd hold (hway m d)
  | create file =>
    obtain ⟨m, he⟩ := FileTree.entry_create h
    exact ⟨m, (he file).trans (if_pos rfl)⟩
  | chmod mode path =>
    obtain ⟨e, hold, he⟩ := FileTree.entry_chmod h
    exact ((he path).trans (if_pos rfl)).trans (congrArg (Option.map _) hold).symm
  | copy data file =>
    obtain ⟨m, old, hold, he⟩ := FileTree.entry_write h
    intro m' old' hold'
    cases hold.symm.trans hold'
    exact (he file).trans (if_pos rfl)

/-- A tree is altered at a path where something stands. -/
theorem alter_isSome_of_node {f : Option (FileTree β) → Option (FileTree β)} {p : Path} {c : FileTree β}
    (hc : t.node p = some c) (hf : (f (some c)).isSome) : (t.alter f p).isSome := by
  rcases List.eq_nil_or_concat p with rfl | ⟨parent, name, rfl⟩
  · cases hc
    exact hf
  · rw [List.concat_eq_append] at hc ⊢
    have he : t.entry (parent ++ [name]) = some c.top := by rw [FileTree.entry, hc]; rfl
    obtain ⟨m, hparent⟩ := FileTree.entry_of_append he
    exact FileTree.alter_isSome hparent (by rw [hc]; exact hf)

theorem able_perform (h : r.Able (t.entry ·)) : (r.perform dirMode fileMode none t).isSome := by
  cases r with
  | mkdirAll dir => exact FileTree.mkdirAll_isSome_iff.mpr h
  | create file =>
    obtain ⟨hfree, parent, name, m, rfl, hparent⟩ := h
    refine FileTree.alter_isSome hparent ?_
    rw [FileTree.node_eq_none_iff.mpr hfree]
    rfl
  | chmod mode path =>
    obtain ⟨e, he⟩ := h
    obtain ⟨c, hc, -⟩ := Option.map_eq_some_iff.mp he
    refine alter_isSome_of_node hc ?_
    cases c <;> rfl
  | copy data file =>
    obtain ⟨m, d, he⟩ := h
    obtain ⟨c, hc, htop⟩ := Option.map_eq_some_iff.mp he
    refine alter_isSome_of_node hc ?_
    rw [FileTree.top_eq_file htop]
    rfl

end Perform

/-! ## The client -/

namespace Remote

/-- The next state of a host whose tree is `t`, if there is one. -/
def after (s : Remote β) (t : Option (FileTree β)) (h : ∀ t', t = some t' → t'.WellFormed) : Remote β where
  tree := t.getD s.tree
  wellFormed := by
    cases t with
    | none => exact s.wellFormed
    | some t' => exact h t' rfl
  requests := s.requests + 1

/-- The host after a request that reads. -/
def next (s : Remote β) : Remote β := { s with requests := s.requests + 1 }

/-- The names in a directory. -/
def names (s : Remote β) (p : Path) : Option (List String) :=
  match s.tree.node p with
  | some (.dir _ es) => some es.names
  | _ => none

/-- The data of a file. -/
def data (s : Remote β) (p : Path) : Option (List β) :=
  match s.tree.entry p with
  | some (.file _ d) => some d
  | _ => none

end Remote

/-- The client of a host whose files are a tree. -/
def treeHost (link : Link) (dirMode fileMode : Nat) : Sftp (Remote β) β where
  request := fun r s =>
    let t := r.perform dirMode fileMode (link s.requests) s.tree
    (s.after t fun _ h => wellFormed_perform s.wellFormed h, (link s.requests).isNone && t.isSome)
  openFile := fun p s => (s.next, (link s.requests).isNone && (s.tree.entry p).isSome)
  stat := fun p s => (s.next, if (link s.requests).isNone then (s.tree.entry p).map infoOf else none)
  readDir := fun p s => (s.next, if (link s.requests).isNone then s.names p else none)
  read := fun p s =>
    match link s.requests with
    | none => (s.next, (s.data p).getD [], (s.data p).isSome)
    | some k => (s.next, ((s.data p).getD []).take k, false)

theorem data_eq_some {s : Remote β} {p : Path} {m : Nat} {d : List β}
    (h : s.stands p = some (.file m d)) : s.data p = some d := by
  have he : s.tree.entry p = some (.file m d) := h
  rw [Remote.data, he]

theorem names_eq {s : Remote β} {p : Path} {m : Nat} (h : s.stands p = some (.dir m)) :
    ∃ es, s.tree.node p = some (.dir m es) ∧ s.names p = some es.names := by
  obtain ⟨c, hc, htop⟩ := Option.map_eq_some_iff.mp h
  obtain ⟨es, rfl⟩ := FileTree.top_eq_dir htop
  exact ⟨es, hc, by rw [Remote.names, hc]⟩

theorem mem_names {s : Remote β} {p : Path} {l : List String} (h : s.names p = some l) :
    l.Nodup ∧ ∀ n, n ∈ l ↔ s.stands (p ++ [n]) ≠ none := by
  unfold Remote.names at h
  split at h
  · next m es hnode =>
    cases h
    have hwf : es.WellFormed := s.wellFormed.node hnode
    refine ⟨hwf.nodup_names, fun n => ?_⟩
    rw [FileForest.mem_names, Remote.stands, FileTree.entry_append, hnode, Option.bind_some,
      FileTree.entry_dir_cons]
    cases es.find n with
    | none => simp
    | some c => simp
  · cases h

theorem treeHost_writes (link : Link) (dirMode fileMode : Nat) :
    (treeHost link dirMode fileMode).Writes (Remote.stands : Remote β → Standing β) where
  tree := fun _ _ _ _ h => FileTree.entry_of_append h
  may := by
    intro r s
    cases ht : r.perform dirMode fileMode (link s.requests) s.tree with
    | none =>
      have hsame : ((treeHost link dirMode fileMode).request r s).1.stands = s.stands := by
        funext p
        simp [treeHost, Remote.stands, Remote.after, ht]
      rw [hsame]
      exact may_refl r _
    | some t' =>
      have hafter : ((treeHost link dirMode fileMode).request r s).1.stands = (t'.entry ·) := by
        funext p
        simp [treeHost, Remote.stands, Remote.after, ht]
      rw [hafter]
      exact may_perform ht
  does := by
    intro r s hok
    obtain ⟨hlink, hsome⟩ := Bool.and_eq_true_iff.1 hok
    rw [Option.isNone_iff_eq_none] at hlink
    obtain ⟨t', ht'⟩ := Option.isSome_iff_exists.mp hsome
    have hafter : ((treeHost link dirMode fileMode).request r s).1.stands = (t'.entry ·) := by
      funext p
      simp [treeHost, Remote.stands, Remote.after, ht']
    rw [hafter]
    rw [hlink] at ht'
    exact does_perform ht'

theorem treeHost_reads (link : Link) (dirMode fileMode : Nat) :
    (treeHost link dirMode fileMode).Reads (Remote.stands : Remote β → Standing β) where
  openFile := fun _ _ => rfl
  stat := fun _ _ => rfl
  readDir := fun _ _ => rfl
  read := by
    intro p s
    simp only [treeHost]
    split <;> rfl
  stat_eq := by
    intro p s i h
    obtain ⟨-, h⟩ := Option.ite_none_right_eq_some.1 h
    exact h
  names := by
    intro p s l h
    obtain ⟨-, h⟩ := Option.ite_none_right_eq_some.1 h
    exact mem_names h
  data_part := by
    intro p s m d h
    simp only [treeHost, data_eq_some h]
    split
    · exact List.prefix_refl d
    · exact List.take_prefix _ d
  data_eq := by
    intro p s m d h hok
    simp only [treeHost, data_eq_some h] at hok ⊢
    split at hok
    · rfl
    · cases hok

/-- When no request is broken off, nothing fails. -/
theorem treeHost_reliable (dirMode fileMode : Nat) :
    (treeHost (fun _ => none) dirMode fileMode).Reliable (Remote.stands : Remote β → Standing β) where
  request := fun _ _ h => Bool.and_eq_true_iff.2 ⟨rfl, able_perform h⟩
  openFile := fun _ _ h => Bool.and_eq_true_iff.2 ⟨rfl, Option.isSome_iff_ne_none.2 h⟩
  stat := by
    intro p s h hnone
    exact h (Option.map_eq_none_iff.1 hnone)
  readDir := by
    intro p s m h hnone
    obtain ⟨es, -, hnames⟩ := names_eq h
    rw [show ((treeHost (fun _ => none) dirMode fileMode).readDir p s).2 = s.names p from rfl, hnames] at hnone
    cases hnone
  read := fun p s m d h => by
    show (s.data p).isSome = true
    rw [data_eq_some h]
    rfl

end OwnX.Ssh
