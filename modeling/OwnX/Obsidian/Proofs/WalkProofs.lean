import OwnX.Obsidian.Proofs.ScanProofs

/-!
# Proofs: the images that are reported

A scan marks what is taken from the files below a directory, so the images that are printed are those whose
names are taken from no line.
-/

namespace OwnX.Obsidian

/-! ## The walk -/

variable {existsImages images images' : Images} {S : Text → Prop} {name rootDir root imgDir : Text}
  {fs : FileSystem} {call : Text → Images → Result} {entry : DirEntry} {entries : List DirEntry}
  {depth : Text → Nat} {fuel : Nat}

/-- The name is taken from a line that the scan of the directory reads. -/
def Found (fs : FileSystem) (rootDir name : Text) : Prop :=
  ∃ content, Visits fs rootDir content ∧ Extracted (tokens content) name

/-- The same for one of its entries. -/
def FoundIn (fs : FileSystem) (rootDir : Text) (entry : DirEntry) (name : Text) : Prop :=
  entry.name ∉ ignoreDirs ∧ ∃ content, contentOf fs rootDir entry = some content ∧
    (Extracted (tokens content) name ∨ entry.isDir = true ∧ Found fs (subDir rootDir entry) name)

theorem found_iff : Found fs rootDir name ↔ ∃ entry ∈ fs.readDir rootDir, FoundIn fs rootDir entry name := by
  constructor
  · rintro ⟨content, hvisits, hname⟩
    cases hvisits with
    | here hentry hignore hopen => exact ⟨_, hentry, hignore, content, hopen, Or.inl hname⟩
    | deeper hentry hignore hopen hdir h =>
      obtain ⟨own, hown⟩ := Option.isSome_iff_exists.1 hopen
      exact ⟨_, hentry, hignore, own, hown, Or.inr ⟨hdir, content, h, hname⟩⟩
  · rintro ⟨entry, hentry, hignore, own, hown, hname | ⟨hdir, content, h, hname⟩⟩
    · exact ⟨own, .here hentry hignore hown, hname⟩
    · exact ⟨content, .deeper hentry hignore (by rw [hown]; rfl) hdir h, hname⟩

/-- What the loop does with the first entry, when the loop does not panic: the marks of the entry are set,
and the loop goes on. -/
theorem scanEntries_cons
    (hcall : ∀ dir images images', call dir images = some (some images') → Marked images images' (Found fs dir))
    (h : scanEntries fs call rootDir (entry :: entries) existsImages = some (some images')) :
    ∃ images, Marked existsImages images (FoundIn fs rootDir entry) ∧
      scanEntries fs call rootDir entries images = some (some images') := by
  rw [scanEntries] at h
  split at h
  · next hignore =>
    exact ⟨existsImages, (Marked.refl _).congr fun name => ⟨False.elim, fun hname => hname.1 hignore⟩, h⟩
  · next hignore =>
    split at h
    · next hopen =>
      refine ⟨existsImages, (Marked.refl _).congr fun name => ⟨False.elim, ?_⟩, h⟩
      rintro ⟨-, content, hcontent, -⟩
      rw [hopen] at hcontent
      exact absurd hcontent (by simp)
    · next content hopen =>
      have hiff : ∀ name, FoundIn fs rootDir entry name ↔ Extracted (tokens content) name ∨
          entry.isDir = true ∧ Found fs (subDir rootDir entry) name := by
        intro name
        rw [FoundIn, hopen]
        simp [hignore]
      split at h
      · exact absurd h (by simp)
      · next images hfile =>
        have hmarked := scanLines_marked hfile
        split at h
        · next hdir =>
          split at h
          · next images₁ hsub =>
            refine ⟨images₁, (hmarked.trans (hcall _ _ _ hsub)).congr fun name => ?_, h⟩
            rw [hiff, hdir]
            simp
          · next hnot => exact absurd h (hnot images')
        · next hdir =>
          refine ⟨images, hmarked.congr fun name => ?_, h⟩
          rw [hiff]
          simp [hdir]

theorem scanEntries_marked
    (hcall : ∀ dir images images', call dir images = some (some images') → Marked images images' (Found fs dir))
    (h : scanEntries fs call rootDir entries existsImages = some (some images')) :
    Marked existsImages images' fun name => ∃ entry ∈ entries, FoundIn fs rootDir entry name := by
  induction entries generalizing existsImages with
  | nil =>
    obtain rfl := Option.some.inj (Option.some.inj h)
    exact (Marked.refl _).congr fun name => by simp
  | cons entry entries ih =>
    obtain ⟨images, hmarked, hrest⟩ := scanEntries_cons hcall h
    exact (hmarked.trans (ih hrest)).congr fun name => by simp

/-- A scan marks what is taken from the files below the directory. -/
theorem scan_marked (h : scan fs fuel rootDir existsImages = some (some images)) :
    Marked existsImages images (Found fs rootDir) := by
  induction fuel generalizing rootDir existsImages images with
  | zero => exact absurd h (by simp [scan])
  | succ fuel ih =>
    exact (scanEntries_marked (fun _ _ _ hcall => ih hcall) h).congr fun name => found_iff.symm

/-- No content below the directory has a line that makes the extraction panic. -/
def AllInRange (fs : FileSystem) (rootDir : Text) : Prop :=
  ∀ content, Visits fs rootDir content → InRange (tokens content)

/-- Neither a panic nor a want of fuel ends the loop, if none ends a scan below it. -/
theorem scanEntries_ends
    (hcall : ∀ entry ∈ entries, entry.isDir = true → AllInRange fs (subDir rootDir entry) →
      ∀ images, ∃ images', call (subDir rootDir entry) images = some (some images'))
    (hentries : ∀ entry ∈ entries, entry ∈ fs.readDir rootDir) (hrange : AllInRange fs rootDir)
    (existsImages : Images) :
    ∃ images, scanEntries fs call rootDir entries existsImages = some (some images) := by
  induction entries generalizing existsImages with
  | nil => exact ⟨existsImages, rfl⟩
  | cons entry entries ih =>
    have hnext := ih (fun e he => hcall e (List.mem_cons_of_mem _ he))
      fun e he => hentries e (List.mem_cons_of_mem _ he)
    have hentry := hentries entry List.mem_cons_self
    rw [scanEntries]
    split
    · exact hnext existsImages
    · next hignore =>
      split
      · exact hnext existsImages
      · next content hopen =>
        have hfile := (scanLines_isSome (tokens content) existsImages).2
          (hrange content (.here hentry hignore hopen))
        obtain ⟨images, himages⟩ := Option.isSome_iff_exists.1 hfile
        rw [scanFile, himages]
        by_cases hdir : entry.isDir = true
        · have hbelow : AllInRange fs (subDir rootDir entry) := fun content' h =>
            hrange content' (.deeper hentry hignore (by rw [hopen]; rfl) hdir h)
          obtain ⟨images', hsub⟩ := hcall entry List.mem_cons_self hdir hbelow images
          simp only [hdir, if_true, hsub]
          exact hnext images'
        · simp only [hdir]
          exact hnext images

theorem scan_ends (hnested : Nested fs depth) (hfuel : depth rootDir < fuel)
    (hrange : AllInRange fs rootDir) (existsImages : Images) :
    ∃ images, scan fs fuel rootDir existsImages = some (some images) := by
  induction fuel generalizing rootDir existsImages with
  | zero => omega
  | succ fuel ih =>
    refine scanEntries_ends (fun entry hentry hdir hbelow images => ?_) (fun _ he => he) hrange existsImages
    have hlt := hnested rootDir entry hentry hdir
    exact ih (by omega) hbelow images

/-! ## The report -/

/-- The images of the directory, none of them marked. -/
theorem get?_imagesOf (names : List Text) (name : Text) :
    (({} : Images).setAll (names.map fun n => (n, 0))).get? name =
      if name ∈ names then some 0 else none := by
  have hempty : ({} : Images).get? name = none := rfl
  rw [GoMap.get?_setAll, hempty, Option.or_none]
  split
  · next hmem =>
    have hsome : (assocGet (names.map fun n => (n, (0 : Int))).reverse name).isSome :=
      assocGet_isSome_iff.2 ⟨(name, 0), by simpa using hmem, beq_self_eq_true name⟩
    obtain ⟨v, hv⟩ := Option.isSome_iff_exists.1 hsome
    obtain ⟨e, he, -, rfl⟩ := assocGet_eq_some hv
    obtain ⟨n, -, rfl⟩ := List.mem_map.1 (List.mem_reverse.1 he)
    exact hv
  · next hmem =>
    rw [assocGet_eq_none_iff]
    intro e he
    obtain ⟨n, hn, rfl⟩ := List.mem_map.1 (List.mem_reverse.1 he)
    refine beq_eq_false_iff_ne.2 ?_
    rintro rfl
    exact hmem hn

/-- The images that are left without a mark, when none had one before. -/
theorem Marked.get?_eq_zero_iff {names : List Text} (h : Marked existsImages images S)
    (hstart : existsImages.get? name = if name ∈ names then some 0 else none) :
    images.get? name = some 0 ↔ name ∈ names ∧ ¬S name := by
  have hmarks := h.marks name
  have hrest := h.rest name
  by_cases hmem : name ∈ names
  · rw [if_pos hmem] at hstart
    simp only [hstart, Option.isSome_some, true_and] at hmarks hrest
    by_cases hS : S name
    · rw [hmarks.2 (Or.inr hS)]
      simp [hS]
    · have hne : images.get? name ≠ some 1 := by
        rw [ne_eq, hmarks]
        simp [hS]
      rw [hrest hne]
      simp [hmem, hS]
  · rw [if_neg hmem] at hstart
    have hne : images.get? name ≠ some 1 := by
      rw [ne_eq, hmarks, hstart]
      simp
    rw [hrest hne, hstart]
    simp [hmem]

/-- What is printed are the images whose names are taken from no line. -/
theorem mem_unused_iff {unused : List Text} (h : scanUnusedImages fs fuel root imgDir = some (some unused))
    (name : Text) :
    name ∈ unused ↔ name ∈ (fs.readDir imgDir).map DirEntry.name ∧ ¬Found fs root name := by
  rw [scanUnusedImages, Option.map_eq_some_iff] at h
  obtain ⟨r, hscan, hr⟩ := h
  obtain ⟨images, rfl, rfl⟩ := Option.map_eq_some_iff.1 hr
  have hstart := get?_imagesOf ((fs.readDir imgDir).map DirEntry.name) name
  rw [List.map_map] at hstart
  have hmem : name ∈ (images.entries.filter fun e => e.2 = 0).map Prod.fst ↔ images.get? name = some 0 := by
    rw [← GoMap.mem_entries_iff]
    simp
  rw [hmem]
  exact (scan_marked hscan).get?_eq_zero_iff hstart

/-- In a vault of finite depth in which every line that is read is closed, the scan comes to an end, and
reports the images that stand alone in none of them. -/
theorem scanUnusedImages_closed (hnested : Nested fs depth) (hfuel : depth root < fuel)
    (hclosed : ∀ content, Visits fs root content → ∀ line ∈ tokens content, Closed line)
    (imgDir : Text) :
    ∃ unused, scanUnusedImages fs fuel root imgDir = some (some unused) ∧
      ∀ name, name ∈ unused ↔ name ∈ (fs.readDir imgDir).map DirEntry.name ∧
        ∀ content, Visits fs root content → ∀ line ∈ tokens content, ¬StandsAlone line name := by
  have hrange : AllInRange fs root :=
    fun content hvisits line hline => closed_iff.1 (hclosed content hvisits line hline)
  obtain ⟨images, himages⟩ := scan_ends hnested hfuel hrange
    (({} : Images).setAll ((fs.readDir imgDir).map fun entry => (entry.name, 0)))
  have hreport : ∃ unused, scanUnusedImages fs fuel root imgDir = some (some unused) := by
    rw [scanUnusedImages, himages]
    exact ⟨_, rfl⟩
  obtain ⟨unused, hunused⟩ := hreport
  refine ⟨unused, hunused, fun name => ?_⟩
  rw [mem_unused_iff hunused]
  refine and_congr_right fun _ => ?_
  constructor
  · intro hnot content hvisits line hline halone
    exact hnot ⟨content, hvisits, line, hline, standsAlone_iff.1 halone⟩
  · rintro hnone ⟨content, hvisits, line, hline, htaken⟩
    exact hnone content hvisits line hline (standsAlone_iff.2 htaken)

end OwnX.Obsidian
