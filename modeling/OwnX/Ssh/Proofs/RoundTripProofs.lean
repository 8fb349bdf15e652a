import OwnX.Ssh.Proofs.TransferProofs

/-!
# Proofs: a tree that is put is read back

When nothing fails and the target is free, `putFile` makes a copy of the local tree there, and `getFile`
goes through the whole of it.
-/

namespace OwnX.Ssh

variable {σ β : Type}

/-! ## `putFile` when nothing fails -/

/-- There are directories on the way to the parent of the target, as far as there is anything. -/
def Passable (b : Standing β) (p : Path) : Prop := ∀ q, q <+: p → ∀ m d, b q ≠ some (.file m d)

theorem not_below_parent (p : Path) (n : String) (q : Path) : ¬ p ++ n :: q <+: p := by
  intro h
  have hlen := h.length_le
  rw [List.length_append, List.length_cons] at hlen
  omega

section

variable {c : Client σ β} {stands : σ → Standing β} (hc : c.Writes stands)

include hc

/-- Something stands at a path only if directories lead there. -/
theorem dir_of_append {s : σ} {p : Path} {n : String} {q : Path} {e : Entry β}
    (h : stands s (p ++ n :: q) = some e) : ∃ m, stands s p = some (.dir m) := by
  induction q generalizing p n with
  | nil => exact hc.tree s p n e h
  | cons k q ih =>
    rw [List.append_cons] at h
    obtain ⟨m, hm⟩ := ih h
    exact hc.tree s p n _ hm

/-- What is below a free path is free. -/
theorem free_below {s : σ} {p : Path} (h : stands s p = none) (n : String) (q : Path) :
    stands s (p ++ n :: q) = none := by
  cases he : stands s (p ++ n :: q) with
  | none => rfl
  | some e =>
    obtain ⟨m, hm⟩ := dir_of_append hc he
    rw [h] at hm
    cases hm

/-- The way to a directory that is there is passable. -/
theorem passable_of_dir {s : σ} {p : Path} {m : Nat} (h : stands s p = some (.dir m)) :
    Passable (stands s) p := by
  rintro q ⟨r, rfl⟩ k d hfile
  cases r with
  | nil =>
    rw [List.append_nil, hfile] at h
    cases h
  | cons n r =>
    obtain ⟨m', hdir⟩ := dir_of_append hc h
    rw [hfile] at hdir
    cases hdir

/-- A directory that is made leaves everything as it is that is not on the way to it. -/
theorem stands_mkdirAll {s : σ} {p q : Path} (hq : ¬ q <+: p) :
    stands (c.request (.mkdirAll p) s).1 q = stands s q := by
  rcases hc.may (.mkdirAll p) s q with hsame | ⟨hway, -⟩
  · exact hsame
  · exact absurd hway hq

variable (hr : c.Reliable stands)

include hr

theorem putRegular_ok {s : σ} {remotePath : Path} {name : String} (mode : Nat) (data : List β)
    (hway : Passable (stands s) remotePath) (hfree : stands s (remotePath ++ [name]) = none) :
    (c.putRegular mode data remotePath name s).2 = none := by
  have hmkdir := hr.request (.mkdirAll remotePath) s hway
  obtain ⟨m, hparent⟩ := hc.does _ _ hmkdir
  have hstill := (stands_mkdirAll hc (not_below_parent remotePath name [])).trans hfree
  have hcreate := hr.request (.create (remotePath ++ [name])) _ ⟨hstill, remotePath, name, m, rfl, hparent⟩
  obtain ⟨m₁, hempty⟩ := hc.does _ _ hcreate
  have hchmod := hr.request (.chmod mode (remotePath ++ [name])) _ ⟨_, hempty⟩
  have hmode := hc.does _ _ hchmod
  simp only [Request.Does, hempty, Option.map_some, Entry.setMode] at hmode
  have hcopy := hr.request (.copy data (remotePath ++ [name])) _ ⟨mode, [], hmode⟩
  unfold Client.putRegular
  simp only [hmkdir, hcreate, hchmod, hcopy, Bool.not_true, Bool.false_eq_true, if_false]

/-- A directory that is made at a free path has its mode, and nothing is in it. -/
theorem stands_makeDir {s : σ} {remotePath : Path} {name : String} (mode : Nat)
    (hway : Passable (stands s) remotePath) (hfree : stands s (remotePath ++ [name]) = none) :
    stands (c.makeDir mode (remotePath ++ [name]) s) (remotePath ++ [name]) = some (.dir mode) ∧
      ∀ n q, stands (c.makeDir mode (remotePath ++ [name]) s) (remotePath ++ [name] ++ n :: q) = none := by
  have hpass : Passable (stands s) (remotePath ++ [name]) := by
    intro q hq m d hfile
    rcases List.prefix_concat_iff.mp hq with rfl | hq
    · rw [hfree] at hfile
      cases hfile
    · exact hway q hq m d hfile
  have hmkdir := hr.request (.mkdirAll (remotePath ++ [name])) s hpass
  obtain ⟨m, hdir⟩ := hc.does _ _ hmkdir
  have hchmod := hr.request (.chmod mode (remotePath ++ [name])) _ ⟨_, hdir⟩
  have hmode := hc.does _ _ hchmod
  simp only [Request.Does, hdir, Option.map_some, Entry.setMode] at hmode
  refine ⟨hmode, fun n q => ?_⟩
  have hbelow := not_below_parent (remotePath ++ [name]) n q
  have hother : remotePath ++ [name] ++ n :: q ≠ remotePath ++ [name] := by
    intro heq
    exact hbelow ⟨[], (List.append_nil _).trans heq⟩
  calc stands (c.makeDir mode (remotePath ++ [name]) s) (remotePath ++ [name] ++ n :: q)
      = stands (c.request (.mkdirAll (remotePath ++ [name])) s).1 (remotePath ++ [name] ++ n :: q) :=
        (hc.may (.chmod mode (remotePath ++ [name])) _).1 _ hother
    _ = stands s (remotePath ++ [name] ++ n :: q) := stands_mkdirAll hc hbelow
    _ = none := free_below hc hfree n q

end

/-! ## What the trees of a directory leave to each other -/

section

variable {c : Client σ β} {stands : σ → Standing β} (hc : c.Writes stands)

include hc

theorem putFile_parent (localPath targetDir : Path) (name : String) {t : FileTree β} (hwf : t.WellFormed)
    {s : σ} {e : Entry β} (h : stands s targetDir = some e) :
    stands (c.putFile localPath targetDir name t s).1 targetDir = some e := by
  refine (puts_putFile hc localPath targetDir name hwf s).kept _ ?_ e h
  rintro e' ⟨q, heq, -⟩
  exact not_below_parent targetDir name q ⟨[], (List.append_nil _).trans heq.symm⟩

theorem putFiles_parent (localPath targetDir : Path) {es : FileForest β} (hwf : es.WellFormed) {s : σ}
    {e : Entry β} (h : stands s targetDir = some e) :
    stands (c.putFiles localPath targetDir es s).1 targetDir = some e := by
  refine (puts_putFiles hc localPath targetDir hwf s).kept _ ?_ e h
  rintro e' ⟨n, t, -, q, heq, -⟩
  exact not_below_parent targetDir n q ⟨[], (List.append_nil _).trans heq.symm⟩

theorem putFile_other (localPath targetDir : Path) {name n : String} {t : FileTree β} (hwf : t.WellFormed)
    (s : σ) (hn : name ≠ n) (q : Path) :
    stands (c.putFile localPath targetDir name t s).1 (targetDir ++ n :: q) =
      stands s (targetDir ++ n :: q) := by
  refine (puts_putFile hc localPath targetDir name hwf s).same ?_ ?_
  · rintro e ⟨q', heq, -⟩
    exact hn (List.cons.inj (List.append_cancel_left heq)).1.symm
  · rintro k r e ⟨q', heq, -⟩
    rw [List.append_assoc] at heq
    exact hn (List.cons.inj (List.append_cancel_left heq)).1.symm

theorem putFiles_other (localPath targetDir : Path) {es : FileForest β} (hwf : es.WellFormed) (s : σ)
    {n : String} (hn : es.find n = none) (q : Path) :
    stands (c.putFiles localPath targetDir es s).1 (targetDir ++ n :: q) =
      stands s (targetDir ++ n :: q) := by
  refine (puts_putFiles hc localPath targetDir hwf s).same ?_ ?_
  · rintro e ⟨k, t, hk, q', heq, -⟩
    obtain ⟨rfl, -⟩ := List.cons.inj (List.append_cancel_left heq)
    rw [hn] at hk
    cases hk
  · rintro k r e ⟨k', t, hk, q', heq, -⟩
    rw [List.append_assoc] at heq
    obtain ⟨rfl, -⟩ := List.cons.inj (List.append_cancel_left heq)
    rw [hn] at hk
    cases hk

end

/-! ## The copy -/

section

variable {c : Client σ β} {stands : σ → Standing β}

mutual

/-- When nothing fails and the target is free, a copy of the tree stands there. -/
theorem lands_putFile (hc : c.Writes stands) (hr : c.Reliable stands) (hlocal : ∀ p, c.localError p = none)
    {t : FileTree β} (hwf : t.WellFormed) (localPath : Path) {remotePath : Path}
    {name : String} {s : σ} (hway : Passable (stands s) remotePath)
    (hfree : stands s (remotePath ++ [name]) = none) :
    (c.putFile localPath remotePath name t s).2 = none ∧
      ∀ q, stands (c.putFile localPath remotePath name t s).1 (remotePath ++ name :: q) = t.entry q := by
  cases t with
  | file mode data =>
    unfold Client.putFile
    rw [hlocal]
    have hok := putRegular_ok hc hr mode data hway hfree
    have hfile := stands_putRegular hc hok
    refine ⟨hok, fun q => ?_⟩
    cases q with
    | nil => exact hfile
    | cons n q =>
      -- nothing is below a file
      cases he : stands (c.putRegular mode data remotePath name s).1 (remotePath ++ name :: n :: q) with
      | none => rfl
      | some e =>
        rw [List.append_cons] at he
        obtain ⟨m, hdir⟩ := dir_of_append hc he
        rw [hfile] at hdir
        cases hdir
  | dir mode files =>
    unfold Client.putFile
    rw [hlocal]
    obtain ⟨hdir, hempty⟩ := stands_makeDir hc hr mode hway hfree
    obtain ⟨hok, hlands⟩ := lands_putFiles hc hr hlocal hwf localPath hdir fun n _ => hempty n []
    refine ⟨hok, fun q => ?_⟩
    cases q with
    | nil => exact putFiles_parent hc localPath (remotePath ++ [name]) hwf hdir
    | cons n q =>
      have hpath : remotePath ++ name :: n :: q = remotePath ++ [name] ++ n :: q := List.append_cons ..
      rw [hpath, FileTree.entry_dir_cons]
      cases hfind : files.find n with
      | some t => exact hlands n t hfind q
      | none => exact (putFiles_other hc localPath _ hwf _ hfind q).trans (hempty n q)

theorem lands_putFiles (hc : c.Writes stands) (hr : c.Reliable stands)
    (hlocal : ∀ p, c.localError p = none) {es : FileForest β} (hwf : es.WellFormed) (localPath : Path)
    {targetDir : Path} {s : σ} {m : Nat} (hdir : stands s targetDir = some (.dir m))
    (hfree : ∀ n, es.find n ≠ none → stands s (targetDir ++ [n]) = none) :
    (c.putFiles localPath targetDir es s).2 = none ∧
      ∀ n t, es.find n = some t → ∀ q,
        stands (c.putFiles localPath targetDir es s).1 (targetDir ++ n :: q) = t.entry q := by
  cases es with
  | nil => exact ⟨rfl, fun n t hn => by cases hn⟩
  | cons name t rest =>
    obtain ⟨ht, hnew, hrest⟩ := hwf
    have hmem : ∀ n, rest.find n ≠ none → name ≠ n ∧ (FileForest.cons name t rest).find n ≠ none := by
      intro n hn
      have hne : name ≠ n := fun h => hn (h ▸ hnew)
      exact ⟨hne, by rwa [FileForest.find, if_neg hne]⟩
    have hfirst := lands_putFile hc hr hlocal ht (localPath ++ [name]) (passable_of_dir hc hdir)
      (hfree name (by simp [FileForest.find]))
    have hparent := putFile_parent hc (localPath ++ [name]) targetDir name ht hdir
    have hother : ∀ n, rest.find n ≠ none →
        stands (c.putFile (localPath ++ [name]) targetDir name t s).1 (targetDir ++ [n]) = none :=
      fun n hn => (putFile_other hc _ targetDir ht s (hmem n hn).1 []).trans (hfree n (hmem n hn).2)
    unfold Client.putFiles
    split
    · next s' err hput =>
      rw [hput] at hfirst
      cases hfirst.1
    · next s' hput =>
      rw [hput] at hfirst hparent hother
      obtain ⟨hok, hlands⟩ := lands_putFiles hc hr hlocal hrest localPath hparent hother
      refine ⟨hok, fun n t' hn q => ?_⟩
      rw [FileForest.find] at hn
      split_ifs at hn with he
      · subst he
        cases hn
        exact (putFiles_other hc localPath targetDir hrest s' hnew q).trans (hfirst.2 q)
      · exact hlands n t' hn q

end

end

/-! ## What `getFile` comes across -/

/-- What `getFile` has passed on of the entries `T`: each at most once, a directory before what is in it,
and of a file at most a beginning of its data. Without an error it is all of them. -/
structure Visits (T : Path → Entry β → Prop) (g : Got σ β) : Prop where
  order : g.passed.Pairwise fun x y => ¬ y.1 <+: x.1
  part : ∀ x ∈ g.passed, ∃ e, T x.1 e ∧ x.2.Part e
  whole : g.err = none → ∀ p e, (p, e) ∈ g.passed ↔ T p e

namespace Visits

variable {T T' : Path → Entry β → Prop} {g g' : Got σ β} {path : Path} {e₀ : Entry β} {err : GetError}

theorem congr (h : Visits T g) (hT : ∀ p e, T p e ↔ T' p e) : Visits T' g := by
  obtain rfl : T = T' := funext fun p => funext fun e => propext (hT p e)
  exact h

/-- Nothing is passed on before an error. -/
theorem error (T : Path → Entry β → Prop) (s : σ) (err : GetError) :
    Visits T (⟨s, [], some err⟩ : Got σ β) :=
  ⟨List.Pairwise.nil, fun _ hx => (List.not_mem_nil hx).elim, fun h => nomatch h⟩

/-- One entry, up to an error. -/
theorem single {e : Entry β} (s : σ) (err : GetError) (hT : T path e₀) (hpart : e.Part e₀) :
    Visits T (⟨s, [(path, e)], some err⟩ : Got σ β) := by
  refine ⟨List.pairwise_singleton _ _, fun x hx => ?_, fun h => nomatch h⟩
  rw [List.mem_singleton.1 hx]
  exact ⟨e₀, hT, hpart⟩

/-- A directory, and then what is in it. -/
theorem cons (h : Visits T g) (hpart : e₀.Part e₀) (hbelow : ∀ p e, T p e → ¬ p <+: path) :
    Visits (fun p e => p = path ∧ e = e₀ ∨ T p e) { g with passed := (path, e₀) :: g.passed } := by
  refine ⟨List.pairwise_cons.2 ⟨fun x hx => ?_, h.order⟩, fun x hx => ?_, fun herr p e => ?_⟩
  · obtain ⟨e, hT, -⟩ := h.part x hx
    exact hbelow _ _ hT
  · rcases List.mem_cons.1 hx with rfl | hx
    · exact ⟨e₀, Or.inl ⟨rfl, rfl⟩, hpart⟩
    · obtain ⟨e, hT, he⟩ := h.part x hx
      exact ⟨e, Or.inr hT, he⟩
  · rw [List.mem_cons, Prod.mk.injEq, h.whole herr]

/-- The first of the trees in a directory, up to an error. -/
theorem left (h : Visits T g) (herr : g.err = some err) : Visits (fun p e => T p e ∨ T' p e) g := by
  refine ⟨h.order, fun x hx => ?_, fun hnone => ?_⟩
  · obtain ⟨e, hT, he⟩ := h.part x hx
    exact ⟨e, Or.inl hT, he⟩
  · rw [herr] at hnone
    cases hnone

/-- The first of the trees in a directory, and then the others. -/
theorem append (h : Visits T g) (herr : g.err = none) (h' : Visits T' g')
    (hapart : ∀ p e p' e', T p e → T' p' e' → ¬ p' <+: p) :
    Visits (fun p e => T p e ∨ T' p e) { g' with passed := g.passed ++ g'.passed } := by
  refine ⟨List.pairwise_append.2 ⟨h.order, h'.order, fun x hx y hy => ?_⟩, fun x hx => ?_,
    fun herr' p e => ?_⟩
  · obtain ⟨e, hT, -⟩ := h.part x hx
    obtain ⟨e', hT', -⟩ := h'.part y hy
    exact hapart _ _ _ _ hT hT'
  · rcases List.mem_append.1 hx with hx | hx
    · obtain ⟨e, hT, he⟩ := h.part x hx
      exact ⟨e, Or.inl hT, he⟩
    · obtain ⟨e, hT, he⟩ := h'.part x hx
      exact ⟨e, Or.inr hT, he⟩
  · rw [List.mem_append, h.whole herr, h'.whole herr']

end Visits

theorem target_file {dir : Path} {name : String} {mode : Nat} {data : List β} {p : Path} {e : Entry β} :
    Target dir name (.file mode data) p e ↔ p = dir ++ [name] ∧ e = .file mode data := by
  constructor
  · rintro ⟨q, rfl, hq⟩
    cases q with
    | nil =>
      cases hq
      exact ⟨rfl, rfl⟩
    | cons n q => cases hq
  · rintro ⟨rfl, rfl⟩
    exact ⟨[], rfl, rfl⟩

theorem target_dir {dir : Path} {name : String} {mode : Nat} {es : FileForest β} {p : Path} {e : Entry β} :
    p = dir ++ [name] ∧ e = .dir mode ∨ Targets (dir ++ [name]) es p e ↔ Target dir name (.dir mode es) p e := by
  constructor
  · rintro (⟨rfl, rfl⟩ | h)
    · exact ⟨[], rfl, rfl⟩
    · exact target_of_targets h
  · rintro ⟨q, rfl, hq⟩
    cases q with
    | nil =>
      cases hq
      exact Or.inl ⟨rfl, rfl⟩
    | cons n q =>
      rw [FileTree.entry_dir_cons] at hq
      obtain ⟨t, ht, hq⟩ := Option.bind_eq_some_iff.1 hq
      exact Or.inr ⟨n, t, ht, q, by rw [List.append_assoc]; rfl, hq⟩

/-- The loop over the names in a directory, if `getFile` goes through each of its trees. -/
theorem visits_getFiles {c : Sftp σ β} {stands : σ → Standing β} {r : Receiver}
    {get : Path → σ → Option (Got σ β)} {path : Path} {es : FileForest β}
    (hget : ∀ n t, es.find n = some t → ∀ s, (∀ q, stands s (path ++ n :: q) = t.entry q) →
      ∃ g, get (path ++ [n]) s = some g ∧ stands g.host = stands s ∧ Visits (Target path n t) g ∧
        (c.Reliable stands → r.Reliable → g.err = none))
    {names : List String} (hnodup : names.Nodup) (hnames : ∀ n ∈ names, es.find n ≠ none) {s : σ}
    (hes : ∀ n q, stands s (path ++ n :: q) = (es.find n).bind (FileTree.entry q)) :
    ∃ g, Sftp.getFiles get path names s = some g ∧ stands g.host = stands s ∧
      Visits (fun p e => ∃ n ∈ names, ∃ t, es.find n = some t ∧ Target path n t p e) g ∧
      (c.Reliable stands → r.Reliable → g.err = none) := by
  induction names generalizing s with
  | nil =>
    refine ⟨⟨s, [], none⟩, rfl, rfl, ⟨List.Pairwise.nil, fun _ hx => (List.not_mem_nil hx).elim, ?_⟩,
      fun _ _ => rfl⟩
    simp
  | cons n names ih =>
    obtain ⟨hnew, hnodup⟩ := List.nodup_cons.1 hnodup
    obtain ⟨t, ht⟩ := Option.ne_none_iff_exists'.1 (hnames n List.mem_cons_self)
    obtain ⟨g, hg, hhost, hvisits, hok⟩ := hget n t ht s fun q => by rw [hes, ht]; rfl
    have hsplit : ∀ p e, (Target path n t p e ∨ ∃ m ∈ names, ∃ t, es.find m = some t ∧ Target path m t p e) ↔
        ∃ m ∈ n :: names, ∃ t, es.find m = some t ∧ Target path m t p e := by
      intro p e
      rw [List.exists_mem_cons_iff, ht]
      simp
    rw [Sftp.getFiles, hg, Option.bind_some]
    cases herr : g.err with
    | some err =>
      refine ⟨_, rfl, hhost, ?_, fun hrel hr => ?_⟩
      · rw [← herr]
        exact (hvisits.left herr).congr hsplit
      · exact absurd (hok hrel hr) (by rw [herr]; exact Option.some_ne_none err)
    | none =>
      obtain ⟨g', hg', hhost', hvisits', hok'⟩ := ih hnodup (fun m hm => hnames m (List.mem_cons_of_mem n hm))
        (s := g.host) fun m q => by rw [hhost, hes]
      refine ⟨{ g' with passed := g.passed ++ g'.passed }, by simp only [hg', Option.map_some],
        hhost'.trans hhost, ?_, hok'⟩
      refine (hvisits.append herr hvisits' ?_).congr hsplit
      -- the paths of two trees part at their names
      rintro p e p' e' ⟨q, rfl, -⟩ ⟨m, hm, t', -, q', rfl, -⟩ hle
      rw [List.prefix_append_right_inj, List.cons_prefix_cons] at hle
      exact hnew (hle.1 ▸ hm)

section

variable {c : Sftp σ β} {stands : σ → Standing β} (hc : c.Reads stands) (r : Receiver)

include hc

/-- A file or a directory is opened, and `getFile` knows which it is; or this fails. -/
theorem getFile_opens (fuel : Nat) {path : Path} {s : σ} {e : Entry β} (he : stands s path = some e) :
    ∃ s', stands s' = stands s ∧
      ((∃ err, c.getFile r (fuel + 1) path s = some ⟨s', [], some err⟩) ∧ ¬ c.Reliable stands ∨
        c.getFile r (fuel + 1) path s =
          if (infoOf e).isDir then c.getDir r (c.getFile r fuel) path (infoOf e) s'
          else some (c.getRegular r path (infoOf e) s')) := by
  have hsame := hc.openFile path s
  rw [Sftp.getFile]
  cases ho : c.openFile path s with
  | mk s₁ ok =>
    rw [ho] at hsame
    cases ok with
    | false =>
      refine ⟨s₁, hsame, Or.inl ⟨⟨_, rfl⟩, fun hrel => ?_⟩⟩
      have hopen := hrel.openFile path s (by rw [he]; exact Option.some_ne_none e)
      rw [ho] at hopen
      cases hopen
    | true =>
      have hsame' := (hc.stat path s₁).trans hsame
      have hinfo := hc.stat_eq path s₁
      simp only
      cases hs : c.stat path s₁ with
      | mk s₂ info =>
        rw [hs] at hsame' hinfo
        cases info with
        | none =>
          refine ⟨s₂, hsame', Or.inl ⟨⟨_, rfl⟩, fun hrel => ?_⟩⟩
          refine hrel.stat path s₁ (by rw [hsame, he]; exact Option.some_ne_none e) ?_
          rw [hs]
        | some info =>
          have heq := hinfo info rfl
          rw [hsame, he] at heq
          obtain rfl := Option.some.inj heq
          exact ⟨s₂, hsame', Or.inr rfl⟩

theorem visits_getRegular {path : Path} {s : σ} {mode : Nat} {data : List β}
    (he : stands s path = some (.file mode data)) :
    stands (c.getRegular r path ⟨false, mode⟩ s).host = stands s ∧
      Visits (fun p e => p = path ∧ e = .file mode data) (c.getRegular r path ⟨false, mode⟩ s) ∧
      (c.Reliable stands → r.Reliable → (c.getRegular r path ⟨false, mode⟩ s).err = none) := by
  have hpart := hc.data_part path s mode data he
  unfold Sftp.getRegular
  split_ifs with hw
  · refine ⟨rfl, Visits.error _ _ _, fun _ hr => ?_⟩
    rw [hr.getWriter] at hw
    cases hw
  · cases hk : r.write path with
    | some k =>
      refine ⟨hc.read path s, Visits.single _ _ ⟨rfl, rfl⟩ ((List.take_prefix _ _).trans hpart),
        fun _ hr => ?_⟩
      rw [hr.write] at hk
      cases hk
    | none =>
      refine ⟨hc.read path s, ?_, fun hrel _ => if_pos (hrel.read path s mode data he)⟩
      simp only
      cases hok : (c.read path s).2.2 with
      | false => exact Visits.single _ _ ⟨rfl, rfl⟩ hpart
      | true =>
        rw [hc.data_eq path s mode data he hok]
        refine ⟨List.pairwise_singleton _ _, fun x hx => ?_, fun _ p e => ?_⟩
        · rw [List.mem_singleton.1 hx]
          exact ⟨_, ⟨rfl, rfl⟩, List.prefix_refl data⟩
        · rw [List.mem_singleton, Prod.mk.injEq]

variable {r}

theorem visits_getDir {get : Path → σ → Option (Got σ β)} {path : Path} {es : FileForest β}
    (hget : ∀ n t, es.find n = some t → ∀ s, (∀ q, stands s (path ++ n :: q) = t.entry q) →
      ∃ g, get (path ++ [n]) s = some g ∧ stands g.host = stands s ∧ Visits (Target path n t) g ∧
        (c.Reliable stands → r.Reliable → g.err = none))
    {s : σ} {mode : Nat} (hdir : stands s path = some (.dir mode))
    (hes : ∀ n q, stands s (path ++ n :: q) = (es.find n).bind (FileTree.entry q)) :
    ∃ g, c.getDir r get path ⟨true, mode⟩ s = some g ∧ stands g.host = stands s ∧
      Visits (fun p e => p = path ∧ e = .dir mode ∨ Targets path es p e) g ∧
      (c.Reliable stands → r.Reliable → g.err = none) := by
  unfold Sftp.getDir
  split_ifs with hcreate
  · refine ⟨_, rfl, rfl, Visits.error _ _ _, fun _ hr => ?_⟩
    rw [hr.createDir] at hcreate
    cases hcreate
  have hsame := hc.readDir path s
  have hlisted := hc.names path s
  have hread := fun hrel : c.Reliable stands => hrel.readDir path s mode hdir
  cases hl : c.readDir path s with
  | mk s₁ listed =>
    rw [hl] at hsame hlisted hread
    cases listed with
    | none =>
      exact ⟨_, rfl, hsame, Visits.single _ _ (Or.inl ⟨rfl, rfl⟩) trivial, fun hrel => absurd rfl (hread hrel)⟩
    | some names =>
      obtain ⟨hnodup, hmem⟩ := hlisted names rfl
      -- the names are those of the directory
      have hfind : ∀ n, n ∈ names ↔ es.find n ≠ none := by
        intro n
        rw [hmem, hes]
        cases es.find n <;> simp
      obtain ⟨g, hg, hhost, hvisits, hok⟩ := visits_getFiles hget hnodup (fun n hn => (hfind n).1 hn)
        (s := s₁) fun n q => by rw [hsame, hes]
      have hall : ∀ p e, (∃ n ∈ names, ∃ t, es.find n = some t ∧ Target path n t p e) ↔ Targets path es p e := by
        intro p e
        constructor
        · rintro ⟨n, -, t, ht, hp⟩
          exact ⟨n, t, ht, hp⟩
        · rintro ⟨n, t, ht, hp⟩
          exact ⟨n, (hfind n).2 (by rw [ht]; exact Option.some_ne_none t), t, ht, hp⟩
      refine ⟨{ g with passed := (path, .dir mode) :: g.passed }, by simp only [hg, Option.map_some],
        hhost.trans hsame, (hvisits.congr hall).cons trivial ?_, hok⟩
      rintro p e ⟨n, t, -, q, rfl, -⟩
      exact not_below_parent path n q

end

/-- `getFile` goes through a tree that stands on the host: what it passes on is of the tree. -/
theorem visits_getFile {c : Sftp σ β} {stands : σ → Standing β} (hc : c.Reads stands) (r : Receiver)
    (t : FileTree β) :
    ∀ (fuel : Nat) (dir : Path) (name : String) (s : σ), t.depth < fuel →
      (∀ q, stands s (dir ++ name :: q) = t.entry q) →
      ∃ g, c.getFile r fuel (dir ++ [name]) s = some g ∧ stands g.host = stands s ∧
        Visits (Target dir name t) g ∧ (c.Reliable stands → r.Reliable → g.err = none) := by
  induction t using FileTree.induction_find with
  | hfile mode data =>
    intro fuel dir name s hfuel hstands
    obtain ⟨k, rfl⟩ : ∃ k, fuel = k + 1 := ⟨fuel - 1, by omega⟩
    obtain ⟨s', hsame, ⟨⟨err, hget⟩, hrel⟩ | hget⟩ := getFile_opens hc r k (hstands [])
    · exact ⟨_, hget, hsame, Visits.error _ _ _, fun h => absurd h hrel⟩
    · have hfile : stands s' (dir ++ [name]) = some (.file mode data) := by
        rw [hsame]
        exact hstands []
      obtain ⟨hhost, hvisits, hok⟩ := visits_getRegular hc r hfile
      exact ⟨_, hget, hhost.trans hsame, hvisits.congr fun _ _ => target_file.symm, hok⟩
  | hdir mode es ih =>
    intro fuel dir name s hfuel hstands
    obtain ⟨k, rfl⟩ : ∃ k, fuel = k + 1 := ⟨fuel - 1, by omega⟩
    obtain ⟨s', hsame, ⟨⟨err, hget⟩, hrel⟩ | hget⟩ := getFile_opens hc r k (hstands [])
    · exact ⟨_, hget, hsame, Visits.error _ _ _, fun h => absurd h hrel⟩
    · have hdir : stands s' (dir ++ [name]) = some (.dir mode) := by
        rw [hsame]
        exact hstands []
      have hes : ∀ n q, stands s' (dir ++ [name] ++ n :: q) = (es.find n).bind (FileTree.entry q) := by
        intro n q
        rw [hsame, ← List.append_cons, hstands]
        exact FileTree.entry_dir_cons
      have hdepth : es.depth < k + 1 := hfuel
      obtain ⟨g, hg, hhost, hvisits, hok⟩ := visits_getDir hc (r := r) (fun n t ht s hs =>
        ih n t ht k (dir ++ [name]) n s (by have := FileForest.depth_lt_of_find ht; omega) hs) hdir hes
      exact ⟨g, hget.trans hg, hhost.trans hsame, hvisits.congr fun _ _ => target_dir, hok⟩

/-- Functions to which nothing happens. -/
def plainReceiver : Receiver where
  createDir := fun _ _ => true
  getWriter := fun _ _ => true
  write := fun _ => none

end OwnX.Ssh
