import OwnX.Obsidian.Scan
import OwnX.Foundations.Proofs.GoMapProofs
import OwnX.Foundations.Proofs.TextProofs

/-!
# Proofs: which images are marked

What is taken from a line is the name that stands alone in it. The marks after a scan are the marks before it
together with what is taken from the lines.
-/

namespace OwnX.Obsidian

open Text (occursAt StandsAt)

variable {line name E : Text} {i j p q : Nat}

/-! ## The markers -/

theorem opening_eq : opening = [33, 91, 91] := by decide

theorem closing_eq : closing = [93, 93] := by decide

theorem opening_ne_nil : opening ≠ [] := by
  rw [opening_eq]
  exact List.cons_ne_nil _ _

theorem closing_ne_nil : closing ≠ [] := by
  rw [closing_eq]
  exact List.cons_ne_nil _ _

theorem opening_at {s : Text} :
    occursAt opening s i = true ↔ s[i]? = some 33 ∧ s[i + 1]? = some 91 ∧ s[i + 1 + 1]? = some 91 := by
  rw [opening_eq]
  simp

theorem closing_at {s : Text} :
    occursAt closing s i = true ↔ s[i]? = some 93 ∧ s[i + 1]? = some 93 := by
  rw [closing_eq]
  simp

/-- A marker ends within the line. -/
theorem closing_fits (h : occursAt closing line i = true) : i + 2 ≤ line.length := by
  obtain ⟨hlt, -⟩ := List.getElem?_eq_some_iff.1 (closing_at.1 h).2
  omega

theorem opening_fits (h : occursAt opening line i = true) : i + 3 ≤ line.length := by
  obtain ⟨hlt, -⟩ := List.getElem?_eq_some_iff.1 (opening_at.1 h).2.2
  omega

/-- Two `![[` do not overlap. -/
theorem opening_apart (hi : occursAt opening line i = true) (hj : occursAt opening line j = true)
    (hlt : i < j) : i + 3 ≤ j := by
  by_contra hnot
  obtain ⟨-, h1, h2⟩ := opening_at.1 hi
  obtain ⟨h0, -⟩ := opening_at.1 hj
  rcases (by omega : j = i + 1 ∨ j = i + 1 + 1) with rfl | rfl
  · rw [h1] at h0
    exact absurd h0 (by decide)
  · rw [h2] at h0
    exact absurd h0 (by decide)

/-! ## What is taken from a line -/

theorem extract_eq (hi : Text.index line opening = some i) (hj : Text.lastIndex line closing = some j) :
    extract line = Text.slice line (i + 3 : Nat) (j : Nat) := by
  rw [extract, hi, hj]
  rfl

/-- It stands between the first `![[` and the last `]]`. -/
theorem extract_eq_some (hcontains : Text.contains line opening = true) (h : extract line = some E) :
    ∃ i j, Text.index line opening = some i ∧ Text.lastIndex line closing = some j ∧ i + 3 ≤ j ∧
      E.length = j - (i + 3) ∧ StandsAt E line (i + 3) := by
  obtain ⟨i, hi⟩ := Option.isSome_iff_exists.1 hcontains
  cases hj : Text.lastIndex line closing with
  | none =>
    -- the upper bound is `-1`
    rw [extract, hi, hj, Text.slice, if_neg (by simp only [Text.position, Option.elim]; omega)] at h
    exact absurd h (by simp)
  | some j =>
    rw [extract_eq hi hj] at h
    obtain ⟨hle, -, hlength, hstands⟩ := Text.slice_eq_some h
    exact ⟨i, j, hi, rfl, hle, hlength, hstands⟩

/-- The markers of `![[name]]`. -/
theorem marker_positions (pre name post : Text) :
    occursAt opening (pre ++ opening ++ name ++ closing ++ post) pre.length = true ∧
      occursAt closing (pre ++ opening ++ name ++ closing ++ post) (pre.length + 3 + name.length) = true ∧
      StandsAt name (pre ++ opening ++ name ++ closing ++ post) (pre.length + 3) := by
  have hlength : (pre ++ opening).length = pre.length + 3 := by
    rw [List.length_append, opening_eq]
    rfl
  refine ⟨?_, ?_, ?_⟩
  · have hocc := Text.occursAt_append pre opening (name ++ closing ++ post)
    simpa only [List.append_assoc] using hocc
  · have hocc := Text.occursAt_append (pre ++ opening ++ name) closing post
    have hname : (pre ++ opening ++ name).length = pre.length + 3 + name.length := by
      rw [List.length_append, hlength]
    rwa [hname] at hocc
  · have hstands := Text.standsAt_append (pre ++ opening) name (closing ++ post)
    rw [hlength] at hstands
    simpa only [List.append_assoc] using hstands

/-- What is before and behind `![[name]`. -/
theorem rest_positions (pre name post : Text) :
    StandsAt pre (pre ++ opening ++ name ++ closing ++ post) 0 ∧
      StandsAt (93 :: post) (pre ++ opening ++ name ++ closing ++ post)
        (pre.length + 3 + name.length + 1) := by
  constructor
  · have hstands : StandsAt pre ([] ++ pre ++ (opening ++ name ++ closing ++ post)) 0 :=
      Text.standsAt_append [] pre (opening ++ name ++ closing ++ post)
    simpa only [List.nil_append, List.append_assoc] using hstands
  · have hline : pre ++ opening ++ name ++ closing ++ post =
        pre ++ opening ++ name ++ [93] ++ 93 :: post := by
      rw [closing_eq]
      simp
    have hlength : (pre ++ opening ++ name ++ [93]).length = pre.length + 3 + name.length + 1 := by
      rw [opening_eq]
      simp
      omega
    have hstands := Text.standsAt_append (pre ++ opening ++ name ++ [93]) (93 :: post) []
    rw [List.append_nil, hlength] at hstands
    rwa [hline]

/-- The line around what is taken from it. -/
theorem exists_of_positions (hi : Text.index line opening = some i)
    (hj : Text.lastIndex line closing = some j) (hij : i + 3 ≤ j) (hlength : E.length = j - (i + 3))
    (hstands : StandsAt E line (i + 3)) :
    ∃ pre post, line = pre ++ opening ++ E ++ closing ++ post ∧ pre.length = i := by
  have hopen := (Text.index_eq_some hi).1
  have hclose := (Text.lastUpTo_eq_some hj).1
  have hfits := closing_fits hclose
  obtain ⟨pre, rest, hline, hpre⟩ := Text.exists_of_occursAt hopen (by omega)
  obtain ⟨before, post, hline', hbefore⟩ := Text.exists_of_occursAt hclose (by omega)
  have hlen : (pre ++ opening).length = i + 3 := by
    rw [List.length_append, hpre, opening_eq]
    rfl
  have hprefix : pre ++ opening <+: before := by
    have hopening : pre ++ opening <+: line := ⟨rest, hline.symm⟩
    have hleft : before <+: line := ⟨closing ++ post, by rw [hline', List.append_assoc]⟩
    exact List.prefix_of_prefix_length_le hopening hleft (by omega)
  obtain ⟨mid, hmid⟩ := hprefix
  have hmidstands : StandsAt mid line (i + 3) := by
    have := Text.standsAt_append (pre ++ opening) mid (closing ++ post)
    rwa [hmid, ← List.append_assoc, ← hline', hlen] at this
  have hmidlen : mid.length = j - (i + 3) := by
    have := congrArg List.length hmid
    rw [List.length_append, hlen] at this
    omega
  refine ⟨pre, post, ?_, hpre⟩
  rw [← hmidstands.unique hstands (by omega), hmid]
  exact hline'

theorem contains_opening_iff : Text.contains line opening = true ↔ opening <:+: line := by
  rw [Text.contains_iff opening_ne_nil]
  exact ⟨fun ⟨_, hi⟩ => Text.infix_of_occursAt hi, Text.occursAt_of_infix⟩

/-- Bounds in range give a slice. -/
theorem extract_of_le (hi : Text.index line opening = some i) (hj : Text.lastIndex line closing = some j)
    (hle : i + 3 ≤ j) : ∃ E, extract line = some E ∧ E.length = j - (i + 3) ∧ StandsAt E line (i + 3) := by
  have hfits := closing_fits (Text.lastUpTo_eq_some hj).1
  have hsome : (extract line).isSome := by
    rw [extract_eq hi hj, Text.slice, if_pos ⟨by omega, by omega, by omega⟩]
    rfl
  obtain ⟨E, hE⟩ := Option.isSome_iff_exists.1 hsome
  rw [extract_eq hi hj] at hE
  obtain ⟨-, -, hlength, hstands⟩ := Text.slice_eq_some hE
  exact ⟨E, by rw [extract_eq hi hj, hE], hlength, hstands⟩

/-- The slice is in range exactly if some `![[` has a `]]` behind it. -/
theorem closed_iff : Closed line ↔ (Text.contains line opening = true → (extract line).isSome) := by
  rw [Closed, ← contains_opening_iff]
  refine imp_congr_right fun hcontains => ⟨?_, fun hsome => ?_⟩
  · rintro ⟨pre, mid, post, rfl⟩
    obtain ⟨hopen, hclose, -⟩ := marker_positions pre mid post
    obtain ⟨i, hip, hi⟩ := Text.index_isSome opening_ne_nil hopen
    obtain ⟨j, hjq, hj⟩ := Text.lastIndex_isSome closing_ne_nil hclose
    obtain ⟨E, hE, -⟩ := extract_of_le hi hj (by omega)
    rw [hE]
    rfl
  · obtain ⟨E, hE⟩ := Option.isSome_iff_exists.1 hsome
    obtain ⟨i, j, hi, hj, hij, hlength, hstands⟩ := extract_eq_some hcontains hE
    obtain ⟨pre, post, hline, -⟩ := exists_of_positions hi hj hij hlength hstands
    exact ⟨pre, E, post, hline⟩

/-- The first `![[` of a line with a name that stands alone is the one before the name. -/
theorem index_of_alone {pre post : Text} (hpre : ¬opening <:+: pre) :
    Text.index (pre ++ opening ++ name ++ closing ++ post) opening = some pre.length := by
  obtain ⟨hopen, -, -⟩ := marker_positions pre name post
  obtain ⟨i, hip, hi⟩ := Text.index_isSome opening_ne_nil hopen
  have hsame : i = pre.length := by
    by_contra hne
    have hocc := (Text.index_eq_some hi).1
    have hapart : i + opening.length ≤ pre.length := by
      rw [opening_eq]
      exact opening_apart hocc hopen (by omega)
    rw [← Nat.zero_add i, (rest_positions pre name post).1.occursAt_iff hapart] at hocc
    exact hpre (Text.infix_of_occursAt hocc)
  rw [hi, hsame]

/-- The last `]]` of such a line is the one behind the name. -/
theorem lastIndex_of_alone {pre post : Text} (hpost : ¬closing <:+: 93 :: post) :
    Text.lastIndex (pre ++ opening ++ name ++ closing ++ post) closing =
      some (pre.length + 3 + name.length) := by
  obtain ⟨-, hclose, -⟩ := marker_positions pre name post
  obtain ⟨j, hjq, hj⟩ := Text.lastIndex_isSome closing_ne_nil hclose
  have hsame : j = pre.length + 3 + name.length := by
    by_contra hne
    have hocc := (Text.lastUpTo_eq_some hj).1
    have hfits := closing_fits hocc
    obtain ⟨k, rfl⟩ : ∃ k, j = pre.length + 3 + name.length + 1 + k :=
      ⟨j - (pre.length + 3 + name.length + 1), by omega⟩
    rw [(rest_positions pre name post).2.occursAt_iff] at hocc
    · exact hpost (Text.infix_of_occursAt hocc)
    · simp only [List.length_append, List.length_cons, closing_eq, opening_eq, List.length_nil] at hfits ⊢
      omega
  rw [hj, hsame]

/-- What is taken from a line with a `![[` is the name that stands alone in it. -/
theorem standsAlone_iff :
    StandsAlone line name ↔ Text.contains line opening = true ∧ extract line = some name := by
  constructor
  · rintro ⟨pre, post, rfl, hpre, hpost⟩
    obtain ⟨hopen, -, hname⟩ := marker_positions pre name post
    refine ⟨(Text.contains_iff opening_ne_nil).2 ⟨_, hopen⟩, ?_⟩
    obtain ⟨E, hE, hlength, hstands⟩ := extract_of_le (index_of_alone hpre) (lastIndex_of_alone hpost)
      (Nat.le_add_right _ _)
    rw [hE, hstands.unique hname (by omega)]
  · rintro ⟨hcontains, hE⟩
    obtain ⟨i, j, hi, hj, hij, hlength, hstands⟩ := extract_eq_some hcontains hE
    obtain ⟨pre, post, rfl, hpre⟩ := exists_of_positions hi hj hij hlength hstands
    obtain ⟨hbefore, hbehind⟩ := rest_positions pre name post
    refine ⟨pre, post, rfl, fun hinfix => ?_, fun hinfix => ?_⟩
    · obtain ⟨k, hk⟩ := Text.occursAt_of_infix hinfix
      have hfits := opening_fits hk
      have hfirst := (Text.index_eq_some hi).2 (0 + k) (by omega)
      rw [hbefore.occursAt_of hk] at hfirst
      cases hfirst
    · obtain ⟨k, hk⟩ := Text.occursAt_of_infix hinfix
      have hocc := hbehind.occursAt_of hk
      have hfits := closing_fits hocc
      have hlast := (Text.lastUpTo_eq_some hj).2.2 (pre.length + 3 + name.length + 1 + k)
        (by omega) (by omega)
      rw [hocc] at hlast
      cases hlast

/-! ## Marks -/

variable {existsImages images images' : Images} {lines : List Text} {content : Text} {S S' : Text → Prop}

/-- The marks are those from before and those of the images with a name in `S`; nothing else is changed. -/
structure Marked (existsImages images : Images) (S : Text → Prop) : Prop where
  rest : ∀ name, images.get? name ≠ some 1 → images.get? name = existsImages.get? name
  marks : ∀ name, images.get? name = some 1 ↔
    existsImages.get? name = some 1 ∨ (existsImages.get? name).isSome ∧ S name

theorem Marked.isSome_eq (h : Marked existsImages images S) (name : Text) :
    (images.get? name).isSome = (existsImages.get? name).isSome := by
  by_cases hone : images.get? name = some 1
  · rcases (h.marks name).1 hone with hbefore | ⟨hsome, -⟩
    · rw [hone, hbefore]
    · rw [hone, hsome, Option.isSome_some]
  · rw [h.rest name hone]

theorem Marked.refl (existsImages : Images) : Marked existsImages existsImages fun _ => False :=
  ⟨fun _ _ => rfl, by simp⟩

theorem Marked.trans (h : Marked existsImages images S) (h' : Marked images images' S') :
    Marked existsImages images' fun name => S name ∨ S' name := by
  constructor
  · intro name hne
    have hrest := h'.rest name hne
    rw [hrest] at hne ⊢
    exact h.rest name hne
  · intro name
    rw [h'.marks, h.marks, h.isSome_eq]
    tauto

theorem Marked.congr (h : Marked existsImages images S) (hS : ∀ name, S name ↔ S' name) :
    Marked existsImages images S' :=
  ⟨h.rest, fun name => by rw [h.marks, hS]⟩

theorem get?_mark (existsImages : Images) (img name : Text) :
    (mark existsImages img).get? name =
      if img = name ∧ (existsImages.get? name).isSome then some 1 else existsImages.get? name := by
  unfold mark
  split
  · next hsome =>
    rw [GoMap.get?_set]
    by_cases hname : img = name
    · subst hname
      rw [if_pos (beq_self_eq_true img), if_pos ⟨rfl, hsome⟩]
    · rw [if_neg (by simpa using hname), if_neg fun h => hname h.1]
  · next hnone =>
    rw [if_neg]
    rintro ⟨rfl, hsome⟩
    exact hnone hsome

theorem marked_mark (existsImages : Images) (img : Text) :
    Marked existsImages (mark existsImages img) fun name => img = name := by
  constructor
  · intro name hne
    rw [get?_mark] at hne ⊢
    split at hne
    · exact absurd rfl hne
    · next h => rw [if_neg h]
  · intro name
    rw [get?_mark]
    split
    · next h => simp [h.1, h.2]
    · next h =>
      refine ⟨Or.inl, ?_⟩
      rintro (hone | ⟨hsome, hname⟩)
      · exact hone
      · exact absurd ⟨hname, hsome⟩ h

/-- The name is taken from one of the lines. -/
def Extracted (lines : List Text) (name : Text) : Prop :=
  ∃ line ∈ lines, Text.contains line opening = true ∧ extract line = some name

theorem extracted_cons (line : Text) (lines : List Text) (name : Text) :
    Extracted (line :: lines) name ↔
      (Text.contains line opening = true ∧ extract line = some name) ∨ Extracted lines name := by
  simp [Extracted]

theorem scanLine_marked (h : scanLine existsImages line = some images) :
    Marked existsImages images fun name =>
      Text.contains line opening = true ∧ extract line = some name := by
  rw [scanLine] at h
  split at h
  · next hcontains =>
    obtain ⟨E, hE, rfl⟩ := Option.map_eq_some_iff.1 h
    refine (marked_mark existsImages E).congr fun name => ?_
    rw [hE, Option.some.injEq]
    exact ⟨fun hname => ⟨hcontains, hname⟩, fun hname => hname.2⟩
  · next hcontains =>
    obtain rfl := Option.some.inj h
    refine (Marked.refl existsImages).congr fun name => ?_
    exact ⟨False.elim, fun hname => hcontains hname.1⟩

/-- The loop over the lines marks what is taken from them. -/
theorem scanLines_marked (h : scanLines lines existsImages = some images) :
    Marked existsImages images (Extracted lines) := by
  induction lines generalizing existsImages with
  | nil =>
    obtain rfl := Option.some.inj h
    exact (Marked.refl existsImages).congr fun name => by simp [Extracted]
  | cons line lines ih =>
    rw [scanLines, Option.bind_eq_some_iff] at h
    obtain ⟨images₁, hline, hrest⟩ := h
    exact ((scanLine_marked hline).trans (ih hrest)).congr fun name =>
      (extracted_cons line lines name).symm

/-- Something can be taken from each line with a `![[`. -/
def InRange (lines : List Text) : Prop :=
  ∀ line ∈ lines, Text.contains line opening = true → (extract line).isSome

/-- Then, and only then, the loop ends without a panic. -/
theorem scanLines_isSome (lines : List Text) (existsImages : Images) :
    (scanLines lines existsImages).isSome ↔ InRange lines := by
  induction lines generalizing existsImages with
  | nil => simp [scanLines, InRange]
  | cons line lines ih =>
    rw [scanLines, InRange, List.forall_mem_cons, scanLine]
    split
    · next hcontains =>
      cases hE : extract line with
      | none => simp [hcontains]
      | some E =>
        rw [Option.map_some, Option.bind_some, ih]
        simp [InRange]
    · next hcontains =>
      rw [Option.bind_some, ih]
      simp [InRange, hcontains]

/-! ## A file -/

theorem scanFile_isSome (existsImages : Images) (content : Text) :
    (scanFile existsImages content).isSome ↔ ∀ line ∈ tokens content, Closed line := by
  rw [scanFile, scanLines_isSome, InRange]
  exact forall₂_congr fun line _ => closed_iff.symm

theorem Marks.covered (h : Marks existsImages content) : Covered existsImages content := by
  obtain ⟨images, himages, hmarks⟩ := h
  have hclosed := (scanFile_isSome existsImages content).1 (by rw [himages]; rfl)
  refine ⟨hclosed, fun line hline name he hexists hnot => ?_⟩
  rcases ((scanLines_marked himages).marks name).1 (hmarks line hline name he hexists)
    with hone | ⟨-, line', hline', htaken⟩
  · exact absurd hone hnot
  · exact ⟨line', hline', standsAlone_iff.2 htaken⟩

theorem Covered.marks (h : Covered existsImages content) : Marks existsImages content := by
  obtain ⟨images, himages⟩ := Option.isSome_iff_exists.1 ((scanFile_isSome _ _).2 h.closed)
  refine ⟨images, himages, fun line hline name he hexists => ?_⟩
  refine ((scanLines_marked himages).marks name).2 ?_
  by_cases hone : existsImages.get? name = some 1
  · exact .inl hone
  · obtain ⟨line', hline', halone⟩ := h.alone line hline name he hexists hone
    exact .inr ⟨hexists, line', hline', standsAlone_iff.1 halone⟩

/-- The scan of a file does not panic and marks every image that is embedded in it exactly if the lines that
the scanner gives are closed and every such image stands alone in one of them. -/
theorem scan_marks_embedded (existsImages : Images) (content : Text) :
    Marks existsImages content ↔ Covered existsImages content :=
  ⟨Marks.covered, Covered.marks⟩

/-- Two embeds in a line do no harm if each has a line of its own besides. -/
theorem scan_marks_embedded_again :
    Marks (({} : Images).set (ascii "a") 0) (ascii "![[a]] ![[b]]\n![[a]]\n") := by
  have htokens : tokens (ascii "![[a]] ![[b]]\n![[a]]\n") = [ascii "![[a]] ![[b]]", ascii "![[a]]"] := by
    decide
  have halone : StandsAlone (ascii "![[a]]") (ascii "a") := ⟨[], [], by decide, by decide, by decide⟩
  refine (scan_marks_embedded _ _).2 ⟨?_, fun line _ name _ hexists _ => ?_⟩
  · rw [htokens, List.forall_mem_cons, List.forall_mem_singleton]
    exact ⟨fun _ => ⟨[], ascii "a", ascii " ![[b]]", by decide⟩,
      fun _ => ⟨[], ascii "a", [], by decide⟩⟩
  · rw [GoMap.get?_set] at hexists
    split at hexists
    · next hname =>
      rw [htokens, ← beq_iff_eq.1 hname]
      exact ⟨_, List.mem_cons_of_mem _ List.mem_cons_self, halone⟩
    · cases hexists

/-- Of two embeds in a line neither is found. Without a `]]`, or with one in front only, the scan ends with
a panic. -/
theorem two_embeds_not_marked :
    ¬Marks (({} : Images).set (ascii "a") 0) (ascii "![[a]] ![[b]]") ∧
      scanFile {} (ascii "![[a") = none ∧ scanFile {} (ascii "]] ![[") = none := by
  refine ⟨fun h => ?_, by decide, by decide⟩
  have htokens : tokens (ascii "![[a]] ![[b]]") = [ascii "![[a]] ![[b]]"] := by decide
  have hlines : linesOf (ascii "![[a]] ![[b]]") = [ascii "![[a]] ![[b]]"] := by decide
  obtain ⟨line, hline, halone⟩ := h.covered.alone (ascii "![[a]] ![[b]]")
    (by rw [hlines]; exact List.mem_singleton_self _) (ascii "a")
    ⟨by decide, [], ascii " ![[b]]", by decide⟩ (by decide) (by decide)
  rw [htokens, List.mem_singleton] at hline
  rw [hline, standsAlone_iff] at halone
  exact absurd halone.2 (by decide)

end OwnX.Obsidian
