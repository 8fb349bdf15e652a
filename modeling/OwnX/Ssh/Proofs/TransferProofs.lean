import OwnX.Ssh.Proofs.TreeHostProofs

/-!
# Proofs: files to a host

`putFile` makes only requests for what the local tree has. So whatever fails on the way, nothing else is
touched and nothing else is new, and if it returns nil then every file has arrived.
-/

namespace OwnX.Ssh

variable {σ β : Type}

/-! ## What is to be put -/

/-- What the tree has for each path, if it is put into `dir` under the name `name`. -/
def Target (dir : Path) (name : String) (t : FileTree β) (p : Path) (e : Entry β) : Prop :=
  ∃ q, p = dir ++ name :: q ∧ t.entry q = some e

/-- What the trees of a directory have for each path, if they are put into `dir`. -/
def Targets (dir : Path) (es : FileForest β) (p : Path) (e : Entry β) : Prop :=
  ∃ name t, es.find name = some t ∧ Target dir name t p e

/-- The requests by which the entries `T` may be put. -/
def Plan (T : Path → Entry β → Prop) : Request β → Prop
  | .mkdirAll dir => (∃ m, T dir (.dir m)) ∨ ∃ name m d, T (dir ++ [name]) (.file m d)
  | .create file => ∃ m d, T file (.file m d)
  | .chmod _ path => ∃ e, T path e
  | .copy data file => ∃ m, T file (.file m data)

theorem target_unique {dir : Path} {name : String} {t : FileTree β} {p : Path} {e e' : Entry β}
    (h : Target dir name t p e) (h' : Target dir name t p e') : e = e' := by
  obtain ⟨q, rfl, hq⟩ := h
  obtain ⟨q', heq, hq'⟩ := h'
  obtain ⟨-, rfl⟩ := List.cons.inj (List.append_cancel_left heq)
  exact Option.some.inj (hq.symm.trans hq')

theorem targets_unique {dir : Path} {es : FileForest β} {p : Path} {e e' : Entry β}
    (h : Targets dir es p e) (h' : Targets dir es p e') : e = e' := by
  obtain ⟨name, t, ht, hp⟩ := h
  obtain ⟨name', t', ht', hp'⟩ := h'
  obtain rfl : name = name' := by
    obtain ⟨q, rfl, -⟩ := hp
    obtain ⟨q', heq, -⟩ := hp'
    exact (List.cons.inj (List.append_cancel_left heq)).1
  obtain rfl := Option.some.inj (ht.symm.trans ht')
  exact target_unique hp hp'

/-- The plan for the trees of a directory is a part of the plan for the directory. -/
theorem target_of_targets {dir : Path} {name : String} {mode : Nat} {es : FileForest β} {p : Path}
    {e : Entry β} (h : Targets (dir ++ [name]) es p e) : Target dir name (.dir mode es) p e := by
  obtain ⟨n, t, ht, q, rfl, hq⟩ := h
  refine ⟨n :: q, by rw [List.append_assoc]; rfl, ?_⟩
  rw [FileTree.entry_dir_cons, ht]
  exact hq

/-! ## What the requests of a plan keep -/

/-- The property `Q` of what stands on the host outlasts every request of the plan. -/
def Closed (T : Path → Entry β → Prop) (Q : Standing β → Prop) : Prop :=
  ∀ r, Plan T r → ∀ a a', r.May a a' → Q a → Q a'

namespace Closed

variable {c : Client σ β} {stands : σ → Standing β} {T T' : Path → Entry β → Prop} {Q : Standing β → Prop}
  {s : σ}

theorem mono (h : Closed T Q) (hT : ∀ p e, T' p e → T p e) : Closed T' Q := by
  intro r hr
  refine h r ?_
  cases r with
  | mkdirAll dir =>
    rcases hr with ⟨m, hm⟩ | ⟨name, m, d, hm⟩
    · exact Or.inl ⟨m, hT _ _ hm⟩
    · exact Or.inr ⟨name, m, d, hT _ _ hm⟩
  | create file =>
    obtain ⟨m, d, hm⟩ := hr
    exact ⟨m, d, hT _ _ hm⟩
  | chmod mode path =>
    obtain ⟨e, he⟩ := hr
    exact ⟨e, hT _ _ he⟩
  | copy data file =>
    obtain ⟨m, hm⟩ := hr
    exact ⟨m, hT _ _ hm⟩

theorem ofRequest (h : Closed T Q) (hc : c.Writes stands) {r : Request β} (hr : Plan T r)
    (hs : Q (stands s)) : Q (stands (c.request r s).1) :=
  h r hr _ _ (hc.may r s) hs

theorem ofPutRegular (h : Closed T Q) (hc : c.Writes stands) {mode : Nat} {data : List β}
    {remotePath : Path} {name : String} (hT : T (remotePath ++ [name]) (.file mode data))
    (hs : Q (stands s)) : Q (stands (c.putRegular mode data remotePath name s).1) := by
  have hmkdir : Q (stands (c.request (.mkdirAll remotePath) s).1) :=
    h.ofRequest hc (Or.inr ⟨name, mode, data, hT⟩) hs
  have hcreate := h.ofRequest hc (r := .create (remotePath ++ [name])) ⟨mode, data, hT⟩ hmkdir
  have hchmod := h.ofRequest hc (r := .chmod mode (remotePath ++ [name])) ⟨_, hT⟩ hcreate
  have hcopy := h.ofRequest hc (r := .copy data (remotePath ++ [name])) ⟨mode, hT⟩ hchmod
  unfold Client.putRegular
  simp only
  split_ifs
  · exact hmkdir
  · exact hcreate
  · exact hchmod
  · exact hcopy
  · exact hcopy

theorem ofMakeDir (h : Closed T Q) (hc : c.Writes stands) {mode : Nat} {targetDir : Path}
    (hT : T targetDir (.dir mode)) (hs : Q (stands s)) : Q (stands (c.makeDir mode targetDir s)) :=
  h.ofRequest hc ⟨_, hT⟩ (h.ofRequest hc (Or.inl ⟨mode, hT⟩) hs)

/-- The plan for the first tree of a directory, and the plan for the others. -/
theorem ofCons {dir : Path} {name : String} {t : FileTree β} {rest : FileForest β}
    (h : Closed (Targets dir (.cons name t rest)) Q) (hfree : rest.find name = none) :
    Closed (Target dir name t) Q ∧ Closed (Targets dir rest) Q := by
  refine ⟨h.mono fun p e hp => ⟨name, t, by rw [FileForest.find, if_pos rfl], hp⟩,
    h.mono fun p e ⟨n, t', hn, hp⟩ => ⟨n, t', ?_, hp⟩⟩
  rw [FileForest.find, if_neg]
  · exact hn
  · rintro rfl
    rw [hfree] at hn
    cases hn

mutual

/-- What outlasts the requests outlasts `putFile`, whatever fails. -/
theorem ofPutFile (hc : c.Writes stands) (localPath remotePath : Path) (name : String) {t : FileTree β}
    (hwf : t.WellFormed) (h : Closed (Target remotePath name t) Q) (s : σ) (hs : Q (stands s)) :
    Q (stands (c.putFile localPath remotePath name t s).1) := by
  cases t with
  | file mode data =>
    unfold Client.putFile
    split
    · exact hs
    · exact h.ofPutRegular hc ⟨[], rfl, rfl⟩ hs
  | dir mode files =>
    unfold Client.putFile
    split
    · exact hs
    · refine ofPutFiles hc localPath (remotePath ++ [name]) hwf (h.mono fun _ _ => target_of_targets) _ ?_
      exact h.ofMakeDir hc ⟨[], rfl, rfl⟩ hs

theorem ofPutFiles (hc : c.Writes stands) (localPath targetDir : Path) {es : FileForest β}
    (hwf : es.WellFormed) (h : Closed (Targets targetDir es) Q) (s : σ) (hs : Q (stands s)) :
    Q (stands (c.putFiles localPath targetDir es s).1) := by
  cases es with
  | nil => exact hs
  | cons name t rest =>
    obtain ⟨ht, hfree, hwf⟩ := hwf
    obtain ⟨hone, hrest⟩ := h.ofCons hfree
    have hfirst := ofPutFile hc (localPath ++ [name]) targetDir name ht hone s hs
    unfold Client.putFiles
    split
    · next s' err hput =>
      rw [hput] at hfirst
      exact hfirst
    · next s' hput =>
      rw [hput] at hfirst
      exact ofPutFiles hc localPath targetDir hwf hrest s' hfirst

end

end Closed

/-! ## What is kept, and what is new -/

/-- The requests of a plan lead from `b` to `a`: what stood at other paths still stands, and what is new is
a directory on the way to an entry of the plan, or a part of such an entry. -/
structure Puts (T : Path → Entry β → Prop) (b a : Standing β) : Prop where
  kept : ∀ p, (∀ e, ¬ T p e) → ∀ e, b p = some e → a p = some e
  new : ∀ p e, b p = none → a p = some e →
    (∃ m, e = .dir m) ∧ (∃ n q e', T (p ++ n :: q) e') ∨ ∃ e', T p e' ∧ e.Part e'

/-- The beginning of the data is written over a beginning of the data. -/
theorem overwrite_part {written old data : List β} (hw : written <+: data) (ho : old <+: data) :
    written ++ old.drop written.length <+: data := by
  rcases List.prefix_or_prefix_of_prefix hw ho with ⟨rest, rfl⟩ | h
  · rw [List.drop_left]
    exact ho
  · rw [List.drop_of_length_le h.length_le, List.append_nil]
    exact hw

namespace Puts

variable {T : Path → Entry β → Prop} {b a a' : Standing β} {p : Path}

theorem refl (T : Path → Entry β → Prop) (b : Standing β) : Puts T b b :=
  ⟨fun _ _ _ h => h, fun p e hb he => by rw [hb] at he; cases he⟩

/-- One more change, at a path of the plan. -/
theorem change (h : Puts T b a) (hp : ∃ e, T p e) (hother : ∀ q, q ≠ p → a' q = a q)
    (hnew : ∀ e, b p = none → a' p = some e →
      (∃ m, e = .dir m) ∧ (∃ n q e', T (p ++ n :: q) e') ∨ ∃ e', T p e' ∧ e.Part e') : Puts T b a' := by
  obtain ⟨e₀, he₀⟩ := hp
  refine ⟨fun q hq e he => ?_, fun q e hb he => ?_⟩
  · rw [hother q fun heq => hq e₀ (heq ▸ he₀)]
    exact h.kept q hq e he
  · by_cases hq : q = p
    · subst hq
      exact hnew e hb he
    · rw [hother q hq] at he
      exact h.new q e hb he

/-- What stands at no path of the plan and on no way to one is as it was. -/
theorem same (h : Puts T b a) (hp : ∀ e, ¬ T p e) (hway : ∀ n q e, ¬ T (p ++ n :: q) e) : a p = b p := by
  cases hb : b p with
  | some e => exact h.kept p hp e hb
  | none =>
    cases ha : a p with
    | none => rfl
    | some e =>
      rcases h.new p e hb ha with ⟨-, n, q, e', hT⟩ | ⟨e', hT, -⟩
      · exact absurd hT (hway n q e')
      · exact absurd hT (hp e')

end Puts

theorem closed_puts {T : Path → Entry β → Prop} (hT : ∀ p e e', T p e → T p e' → e = e') (b : Standing β) :
    Closed T (Puts T b) := by
  intro r hr a a' hmay h
  cases r with
  | mkdirAll dir =>
    refine ⟨fun p hp e he => ?_, fun p e hb he => ?_⟩
    · have hold := h.kept p hp e he
      rcases hmay p with hsame | ⟨-, hnone, -⟩
      · exact hsame.trans hold
      · rw [hnone] at hold
        cases hold
    · rcases hmay p with hsame | ⟨⟨rest, rfl⟩, -, m, hdir⟩
      · exact h.new p e hb (hsame.symm.trans he)
      · obtain rfl := Option.some.inj (hdir.symm.trans he)
        -- the directory is on the way to the file or the directory that the plan has
        rcases hr with ⟨m', hm'⟩ | ⟨name, m', d, hm'⟩
        · cases rest with
          | nil =>
            rw [List.append_nil] at hm'
            exact Or.inr ⟨_, hm', trivial⟩
          | cons n q => exact Or.inl ⟨⟨m, rfl⟩, n, q, _, hm'⟩
        · rw [List.append_assoc] at hm'
          cases rest with
          | nil => exact Or.inl ⟨⟨m, rfl⟩, name, [], _, hm'⟩
          | cons n q => exact Or.inl ⟨⟨m, rfl⟩, n, q ++ [name], _, hm'⟩
  | create file =>
    obtain ⟨m, d, hm⟩ := hr
    refine h.change ⟨_, hm⟩ hmay.1 fun e hb he => ?_
    rcases hmay.2 with hsame | ⟨m', hempty⟩
    · exact h.new file e hb (hsame.symm.trans he)
    · obtain rfl := Option.some.inj (hempty.symm.trans he)
      exact Or.inr ⟨_, hm, List.nil_prefix⟩
  | chmod mode path =>
    refine h.change hr hmay.1 fun e hb he => ?_
    rcases hmay.2 with hsame | hmode
    · exact h.new path e hb (hsame.symm.trans he)
    · obtain ⟨e₁, he₁, rfl⟩ := Option.map_eq_some_iff.1 (hmode.symm.trans he)
      rcases h.new path e₁ hb he₁ with ⟨⟨m, rfl⟩, hway⟩ | ⟨e', he', hpart⟩
      · exact Or.inl ⟨⟨mode, rfl⟩, hway⟩
      · exact Or.inr ⟨e', he', hpart.setMode mode⟩
  | copy data file =>
    obtain ⟨m, hm⟩ := hr
    refine h.change ⟨_, hm⟩ hmay.1 fun e hb he => ?_
    rcases hmay.2 with hsame | ⟨m', old, written, hold, hwritten, hnew⟩
    · exact h.new file e hb (hsame.symm.trans he)
    · obtain rfl := Option.some.inj (hnew.symm.trans he)
      rcases h.new file _ hb hold with ⟨⟨k, hk⟩, -⟩ | ⟨e', he', hpart⟩
      · cases hk
      · obtain rfl := hT _ _ _ he' hm
        exact Or.inr ⟨_, hm, overwrite_part hwritten hpart⟩

section

variable {c : Client σ β} {stands : σ → Standing β} (hc : c.Writes stands)

include hc

theorem puts_putFile (localPath remotePath : Path) (name : String) {t : FileTree β} (hwf : t.WellFormed)
    (s : σ) :
    Puts (Target remotePath name t) (stands s) (stands (c.putFile localPath remotePath name t s).1) := by
  refine Closed.ofPutFile hc localPath remotePath name hwf ?_ s (Puts.refl _ _)
  apply closed_puts
  exact fun _ _ _ => target_unique

theorem puts_putFiles (localPath targetDir : Path) {es : FileForest β} (hwf : es.WellFormed) (s : σ) :
    Puts (Targets targetDir es) (stands s) (stands (c.putFiles localPath targetDir es s).1) := by
  refine Closed.ofPutFiles hc localPath targetDir hwf ?_ s (Puts.refl _ _)
  apply closed_puts
  exact fun _ _ _ => targets_unique

/-! ## What has arrived -/

/-- A file that is put without an error has arrived. -/
theorem stands_putRegular {mode : Nat} {data : List β} {remotePath : Path} {name : String} {s : σ}
    (h : (c.putRegular mode data remotePath name s).2 = none) :
    stands (c.putRegular mode data remotePath name s).1 (remotePath ++ [name]) =
      some (.file mode data) := by
  unfold Client.putRegular at h ⊢
  simp only [Bool.not_eq_true'] at h ⊢
  split_ifs at h ⊢ with hmkdir hcreate hchmod hcopy
  simp only [Bool.not_eq_false] at hmkdir hcreate hchmod hcopy
  -- the file is empty, then it has its mode, then its data
  obtain ⟨m, hempty⟩ := hc.does _ _ hcreate
  have hmode := hc.does _ _ hchmod
  have hdata := hc.does _ _ hcopy
  simp only [Request.Does, hempty, Option.map_some, Entry.setMode] at hmode
  have hfull := hdata mode [] hmode
  rw [List.drop_nil, List.append_nil] at hfull
  exact hfull

mutual

/-- If `putFile` returns nil then every file has arrived. -/
theorem arrives_putFile {localPath remotePath : Path} {name : String} {t : FileTree β} {s : σ}
    (h : (c.putFile localPath remotePath name t s).2 = none) (hwf : t.WellFormed) {q : Path} {m : Nat}
    {d : List β} (hq : t.entry q = some (.file m d)) :
    stands (c.putFile localPath remotePath name t s).1 (remotePath ++ name :: q) = some (.file m d) := by
  cases t with
  | file mode data =>
    cases q with
    | nil =>
      cases hq
      unfold Client.putFile at h ⊢
      split at h
      · cases h
      · exact stands_putRegular hc h
    | cons n q => cases hq
  | dir mode files =>
    cases q with
    | nil => cases hq
    | cons n q =>
      rw [FileTree.entry_dir_cons] at hq
      unfold Client.putFile at h ⊢
      split at h
      · cases h
      · have harrives := arrives_putFiles h hwf hq
        rw [List.append_assoc] at harrives
        exact harrives

theorem arrives_putFiles {localPath targetDir : Path} {es : FileForest β} {s : σ}
    (h : (c.putFiles localPath targetDir es s).2 = none) (hwf : es.WellFormed) {n : String} {q : Path}
    {m : Nat} {d : List β} (hq : (es.find n).bind (FileTree.entry q) = some (.file m d)) :
    stands (c.putFiles localPath targetDir es s).1 (targetDir ++ n :: q) = some (.file m d) := by
  cases es with
  | nil => cases hq
  | cons name t rest =>
    obtain ⟨ht, hfree, hrest⟩ := hwf
    unfold Client.putFiles at h ⊢
    split at h
    · cases h
    · next s' hput =>
      rw [FileForest.find] at hq
      split_ifs at hq with hn
      · -- the file is in the first tree, and the others leave it alone
        subst hn
        have hnil : (c.putFile (localPath ++ [name]) targetDir name t s).2 = none := by rw [hput]
        have harrives := arrives_putFile hnil ht hq
        rw [hput] at harrives
        refine (puts_putFiles hc localPath targetDir hrest s').kept _ ?_ _ harrives
        rintro e ⟨n, t', hn, q', heq, -⟩
        obtain ⟨rfl, -⟩ := List.cons.inj (List.append_cancel_left heq)
        rw [hfree] at hn
        cases hn
      · exact arrives_putFiles h hrest hq

end

end

/-- A directory on the way to what the tree has: it is on the way to the target, or the tree has it. -/
theorem on_way {remotePath p q : Path} {name n : String} {t : FileTree β} {e : Entry β}
    (h : Target remotePath name t (p ++ n :: q) e) :
    p <+: remotePath ∨ ∃ r m, p = remotePath ++ name :: r ∧ t.entry r = some (.dir m) := by
  obtain ⟨r, heq, hr⟩ := h
  have hp : p <+: remotePath ++ name :: r := ⟨n :: q, heq⟩
  rcases List.prefix_or_prefix_of_prefix hp (List.prefix_append remotePath (name :: r)) with hle | ⟨x, rfl⟩
  · exact Or.inl hle
  · cases x with
    | nil => exact Or.inl ⟨[], by rw [List.append_nil, List.append_nil]⟩
    | cons k x =>
      rw [List.append_assoc, List.append_cancel_left_eq, List.cons_append] at heq
      obtain ⟨rfl, rfl⟩ := List.cons.inj heq
      obtain ⟨m, hm⟩ := FileTree.entry_of_append hr
      exact Or.inr ⟨x, m, rfl, hm⟩

/-- `PutFile` of a local tree, whatever fails on the way. If it returns nil then every file of the tree has
arrived, with its mode and its data. In any case what stands at other paths than those of the tree is left
alone; and what is new is a directory on the way to the target, or it stands at a path of the tree and is a
directory there or the beginning of the file. -/
theorem putFile_delivers {c : Client σ β} {stands : σ → Standing β} (hc : c.Writes stands)
    (localPath remotePath : Path) (name : String) {t : FileTree β} (hwf : t.WellFormed) (s : σ) :
    ((c.putFile localPath remotePath name t s).2 = none → ∀ q m d, t.entry q = some (.file m d) →
      stands (c.putFile localPath remotePath name t s).1 (remotePath ++ name :: q) = some (.file m d)) ∧
    (∀ p e, (∀ q, p = remotePath ++ name :: q → t.entry q = none) → stands s p = some e →
      stands (c.putFile localPath remotePath name t s).1 p = some e) ∧
    ∀ p e, stands s p = none → stands (c.putFile localPath remotePath name t s).1 p = some e →
      p <+: remotePath ∧ (∃ m, e = .dir m) ∨
        ∃ q e', p = remotePath ++ name :: q ∧ t.entry q = some e' ∧ e.Part e' := by
  have hputs := puts_putFile hc localPath remotePath name hwf s
  refine ⟨fun hnil q m d hq => arrives_putFile hc hnil hwf hq, fun p e hp => hputs.kept p ?_ e,
    fun p e hb he => ?_⟩
  · rintro e' ⟨q, hq, hentry⟩
    rw [hp q hq] at hentry
    cases hentry
  · rcases hputs.new p e hb he with ⟨⟨m, rfl⟩, n, q, e', hway⟩ | ⟨e', ⟨q, hq, hentry⟩, hpart⟩
    · rcases on_way hway with hle | ⟨r, m', hr, hdir⟩
      · exact Or.inl ⟨hle, m, rfl⟩
      · exact Or.inr ⟨r, _, hr, hdir, trivial⟩
    · exact Or.inr ⟨q, e', hq, hentry, hpart⟩

/-- A directory with one file in it. -/
def oneFile : FileTree Nat := .dir 493 (.cons "f" (.file 420 [1, 2]) .nil)

theorem wellFormed_oneFile : oneFile.WellFormed := ⟨trivial, rfl, trivial⟩

/-- A host with an empty root directory. -/
def emptyHost : Remote Nat := { tree := .dir 493 .nil, wellFormed := trivial }

/-- A client of such a host, to which nothing local fails. -/
def treeClient (link : Link) : Client (Remote Nat) Nat :=
  { treeHost link 511 438 with localError := fun _ => none }

theorem treeClient_writes (link : Link) : (treeClient link).Writes Remote.stands :=
  treeHost_writes link 511 438

/-- The second request fails: the mode of the directory is not changed, and this goes unnoticed. The file
arrives. -/
theorem putFile_delivers_unnoticed :
    let c := treeClient fun i => if i = 1 then some 0 else none
    let r := c.putFile ["d"] ["srv"] "d" oneFile emptyHost
    r.2 = none ∧ r.1.stands ["srv", "d"] = some (.dir 511) ∧
      r.1.stands ["srv", "d", "f"] = some (.file 420 [1, 2]) := by
  refine ⟨by decide, by decide, ?_⟩
  exact (putFile_delivers (treeClient_writes _) ["d"] ["srv"] "d" wellFormed_oneFile _).1 (by decide)
    ["f"] 420 [1, 2] (by decide)

end OwnX.Ssh
