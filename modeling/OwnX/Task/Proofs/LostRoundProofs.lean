import OwnX.Task.Proofs.CompletionProofs

/-!
# A round that is lost

A run in which the last node to finish has a message coming never ends its round: the node sees the
sender unfinished, and after it no `batchDoneTask` is left that could look again. The books of a round
show it: what is counted is not pending, and a node is told of another at most once.
-/

namespace OwnX.Task.Nodes

variable {T : Type} {names : List String} {round : Int} {plan : Plan round} {s s' : Nodes T}

/-- The messages for `v` that tell of `u`. -/
def telling (s : Nodes T) (v u : String) : Nat :=
  s.messages.countP fun m => m.1 = v ∧ m.2.nodeName = u

/-- The `batchDoneTask`s that the node has yet to run. -/
def pending (s : Nodes T) (u : String) : Nat := s.tasks.countP fun t => t.1 = u

/-- The books of a round. -/
structure Tally (names : List String) (plan : Plan round) (s : Nodes T) : Prop where
  left : ∀ u ∈ names, ∀ p ∈ s.own u,
    0 ≤ p.finBatchCount ∧ p.finBatchCount + s.pending u = p.batchCount.toNat
  done : ∀ u ∈ names, ∀ p ∈ s.own u, p.roundDone → p.batchCount ≤ p.finBatchCount
  once : ∀ v u, v ≠ u → s.telling v u + (s.flag v u).toNat ≤ (s.flag u u).toNat
  calls : s.calls ≠ [] → ∀ u ∈ names, (plan.partitions u).isSome → s.flag u u

/-! ## Counting tasks and messages -/

theorem countP_erase {α : Type} [DecidableEq α] {f : α → Prop} [DecidablePred f] {a : α}
    {l : Multiset α} (h : a ∈ l) : (l.erase a).countP f + (if f a then 1 else 0) = l.countP f := by
  conv_rhs => rw [← Multiset.cons_erase h]
  rw [Multiset.countP_cons]

theorem pending_take {t : Marker} (ht : t ∈ s.tasks) (u : String) :
    (s.take t).pending u + (if t.1 = u then 1 else 0) = s.pending u := countP_erase ht

theorem countP_markers (name u : String) (round : Int) (l : List Nat) :
    (l.map fun i => ((name, round, i) : Marker)).countP (fun t => t.1 = u) =
      if name = u then l.length else 0 := by
  rw [List.countP_map]
  by_cases hname : name = u
  · simp [hname, Function.comp_def]
  · simp [hname, Function.comp_def]

/-- Every node starts with one `batchDoneTask` for each of its batches. -/
theorem countP_roundMarkers (hnodup : names.Nodup) {u : String} (hu : u ∈ names) {p : Partition}
    (hp : plan.partitions u = some p) :
    (roundMarkers names plan).countP (fun t => t.1 = u) = p.batchCount.toNat := by
  induction names with
  | nil => cases hu
  | cons name names ih =>
    obtain ⟨hnot, hnodup⟩ := List.nodup_cons.1 hnodup
    rw [roundMarkers, List.flatMap_cons, List.countP_append, countP_markers]
    rcases List.mem_cons.1 hu with rfl | hu
    · have hrest : (roundMarkers names plan).countP (fun t => t.1 = u) = 0 := by
        refine List.countP_eq_zero.2 fun t ht => ?_
        obtain ⟨name, hname, ht⟩ := List.mem_flatMap.1 ht
        obtain ⟨i, -, rfl⟩ := List.mem_map.1 ht
        have hne : name ≠ u := fun heq => hnot (heq ▸ hname)
        simpa using hne
      rw [roundMarkers] at hrest
      simp [hp, hrest]
    · have hne : name ≠ u := fun heq => hnot (heq ▸ hu)
      rw [if_neg hne, Nat.zero_add]
      exact ih hnodup hu

/-- Each node is told once, and of the sender only. -/
theorem countP_told (s : Nodes T) (names : List String) (v u name : String) (pt : Partition) :
    Multiset.countP (fun m : String × Partition => m.1 = v ∧ m.2.nodeName = u)
      (Multiset.ofList ((s.told names name).map (·, pt))) ≤ if u = pt.nodeName then 1 else 0 := by
  rw [Multiset.coe_countP, List.countP_map]
  split
  · rename_i hu
    have hcount : (s.told names name).count v ≤ 1 :=
      List.nodup_iff_count_le_one.1 (List.nodup_dedup _) v
    refine le_trans (List.countP_mono_left fun other _ hother => ?_) hcount
    simpa using (of_decide_eq_true hother).1
  · rename_i hu
    refine le_of_eq (List.countP_eq_zero.2 fun other _ => ?_)
    simp [Ne.symm hu]

namespace Tally

theorem init (hnodup : names.Nodup) (h : s.Holding names plan) : s.Tally names plan := by
  refine ⟨fun u hu p hp => ?_, fun u hu p hp hdone => ?_, fun v u hvu => ?_, fun hc => ?_⟩
  · have hplan : plan.partitions u = some p := (h.sees_eq u u).symm.trans hp
    obtain ⟨-, hfin⟩ := plan.fresh u p hplan
    have hpending : s.pending u = p.batchCount.toNat := by
      rw [pending, h.tasks]
      exact countP_roundMarkers hnodup hu hplan
    omega
  · have hflag := h.flag_eq u u
    rw [flag_of_sees hp, hdone] at hflag
    cases hflag
  · simp [telling, h.messages, h.flag_eq]
  · exact absurd h.calls hc

variable (h : s.Tally names plan)
include h

/-- A node with a task left has not finished. -/
theorem not_done {t : Marker} (ht : t ∈ s.tasks) (hmem : t.1 ∈ names) {p : Partition}
    (hown : s.own t.1 = some p) : p.roundDone = false := by
  have hpos : 0 < s.pending t.1 := Multiset.countP_pos.2 ⟨t, ht, rfl⟩
  obtain ⟨hfin, hleft⟩ := h.left t.1 hmem p hown
  rw [Bool.eq_false_iff]
  intro hdone
  have hle := h.done t.1 hmem p hown hdone
  omega

theorem known {v u : String} (hflag : s.flag v u) : s.flag u u := by
  by_cases hvu : v = u
  · exact hvu ▸ hflag
  · have honce := h.once v u hvu
    rw [hflag] at honce
    cases hu : s.flag u u with
    | true => rfl
    | false =>
      rw [hu] at honce
      simp at honce

/-- After a `batchDoneTask` of a node with the partition `p`, which was not done before. -/
theorem credit (hin : s.InRound names plan) {t : Marker} {p : Partition}
    {calls : List (String × Int)} {messages : Multiset (String × Partition)}
    (ht : t ∈ s.tasks) (hown : s.own t.1 = some p)
    (htelling : ∀ v u, v ≠ u → messages.countP (fun m => m.1 = v ∧ m.2.nodeName = u) ≤
      s.telling v u + if u = t.1 then p.credit.roundDone.toNat else 0)
    (hcalls : calls = s.calls ∨ p.credit.roundDone ∧
      ∀ u ∈ names, u ≠ t.1 → (plan.partitions u).isSome → s.flag t.1 u) :
    { (s.take t).write t.1 t.1 p.credit with calls, messages }.Tally names plan := by
  generalize hs' : { (s.take t).write t.1 t.1 p.credit with calls, messages } = s'
  have hmem := hin.member t ht
  have hnot := h.not_done ht hmem hown
  have hown' : ∀ u, s'.own u = if u = t.1 then some p.credit else s.own u := by
    intro u
    rw [← hs']
    exact (sees_write (s.take t) t.1 t.1 u u p.credit).trans (if_congr and_self_iff rfl rfl)
  have hflag' : ∀ v u, s'.flag v u =
      if v = t.1 ∧ u = t.1 then p.credit.roundDone else s.flag v u := by
    intro v u
    rw [← hs']
    exact flag_write (s.take t) t.1 t.1 v u p.credit
  have hpending : ∀ u, s'.pending u + (if t.1 = u then 1 else 0) = s.pending u := by
    intro u
    rw [← hs']
    exact pending_take ht u
  refine ⟨fun u hu q hq => ?_, fun u hu q hq hdone => ?_, fun v u hvu => ?_, fun hc u hu hp => ?_⟩
  · have hcount := hpending u
    rw [hown'] at hq
    split at hq
    · rename_i hut
      cases hq
      obtain ⟨hfin, hleft⟩ := h.left t.1 hmem p hown
      rw [hut, if_pos rfl] at hcount
      rw [hut]
      simp only [Partition.credit]
      omega
    · rename_i hut
      rw [if_neg (Ne.symm hut)] at hcount
      have hleft := h.left u hu q hq
      omega
  · rw [hown'] at hq
    split at hq
    · cases hq
      simpa [Partition.credit, hnot] using hdone
    · exact h.done u hu q hq hdone
  · have htell : s'.telling v u ≤ s.telling v u + if u = t.1 then p.credit.roundDone.toNat else 0 := by
      rw [← hs']
      exact htelling v u hvu
    have honce := h.once v u hvu
    rw [hflag' v u, hflag' u u, if_neg fun heq => hvu (heq.1.trans heq.2.symm)]
    by_cases hut : u = t.1
    · -- nothing was told of the node before
      rw [hut, flag_of_sees hown, hnot] at honce
      rw [if_pos hut, hut] at htell
      rw [if_pos ⟨hut, hut⟩, hut]
      simp only [Bool.toNat_false] at honce
      omega
    · rw [if_neg hut] at htell
      rw [if_neg fun heq => hut heq.1]
      omega
  · rcases hcalls with hsame | ⟨hdone, hall⟩
    · -- no node calls before this one has finished
      have hcalled : s.calls ≠ [] := by rwa [← hs', hsame] at hc
      have hflag := h.calls hcalled t.1 hmem (Option.isSome_of_eq_some ((hin.shape t.1).eq_some hown))
      rw [flag_of_sees hown, hnot] at hflag
      cases hflag
    · rw [hflag']
      split
      · exact hdone
      · rename_i hut
        exact h.known (hall u hu (fun heq => hut ⟨heq, heq⟩) hp)

theorem runTask (hin : s.InRound names plan) {t : Marker} (ht : t ∈ s.tasks) :
    (s.runTask names t).Tally names plan := by
  have hruns := runTask_runs names s t
  generalize s.runTask names t = s' at hruns
  cases hruns with
  | missing hown =>
    refine ⟨fun u hu p hp => ?_, h.done, h.once, h.calls⟩
    have hut : t.1 ≠ u := by
      rintro rfl
      rw [show s.own t.1 = some p from hp] at hown
      cases hown
    have hcount := pending_take ht u
    rw [if_neg hut] at hcount
    have hleft := h.left u hu p hp
    omega
  | @counted p hown hlt =>
    exact h.credit hin ht hown (fun v u _ => Nat.le_add_right _ _) (.inl rfl)
  | @called p hown hle hall =>
    refine h.credit hin ht hown (fun v u _ => Nat.le_add_right _ _)
      (.inr ⟨by simp [Partition.credit, hle], fun u hu hut hp => ?_⟩)
    obtain ⟨q, hq⟩ := (hin.shape t.1).exists_of_isSome hp
    have hname : p.nodeName = t.1 := (hin.shape t.1).nodeName_eq hown
    rcases hall u hu hut q hq with heq | hdone
    · exact absurd (heq.symm.trans hname) hut
    · exact (flag_of_sees hq).trans hdone
  | @published p hown hle hex =>
    refine h.credit hin ht hown (fun v u _ => ?_) (.inl rfl)
    have hdone : p.credit.roundDone = true := by simp [Partition.credit, hle]
    have hname : p.nodeName = t.1 := (hin.shape t.1).nodeName_eq hown
    have htold := countP_told s names v u t.1 p.credit
    rw [show p.credit.nodeName = t.1 from hname] at htold
    rw [Multiset.countP_add, hdone]
    exact Nat.add_le_add_left htold _

theorem deliver (hin : s.InRound names plan) {m : String × Partition} (hm : m ∈ s.messages) :
    (s.deliver m).Tally names plan := by
  obtain ⟨-, -, hfrom⟩ := hin.sent m hm
  obtain ⟨q, hq, heq⟩ := hin.deliver_write hm
  -- a message of a node to itself finds its partition done
  have hown : ∀ u, (s.deliver m).own u = s.own u := by
    intro u
    rw [heq]
    refine (sees_write _ _ _ _ _ _).trans ?_
    split
    · rename_i hum
      have hqu : s.own u = some q := by rw [own, ← hq, ← hum.1, ← hum.2]
      have hdone : q.roundDone = true := by
        rw [← flag_of_sees hqu, hum.2]
        exact hfrom
      rw [hqu, ← hdone]
    · rfl
  have hself : ∀ u, (s.deliver m).flag u u = s.flag u u := fun u => congrArg (Option.any _) (hown u)
  have hpending : ∀ u, (s.deliver m).pending u = s.pending u := fun u => by rw [heq]; rfl
  have htelling : ∀ v u, (s.deliver m).telling v u +
      (if m.1 = v ∧ m.2.nodeName = u then 1 else 0) = s.telling v u := by
    intro v u
    rw [heq]
    exact countP_erase hm
  refine ⟨fun u hu p hp => ?_, fun u hu p hp => ?_, fun v u hvu => ?_, fun hc u hu hp => ?_⟩
  · rw [hpending]
    exact h.left u hu p (hown u ▸ hp)
  · exact h.done u hu p (hown u ▸ hp)
  · have honce := h.once v u hvu
    have htell := htelling v u
    rw [hself, hin.flag_deliver hm]
    split
    · rename_i hvum
      rw [if_pos ⟨hvum.1.symm, hvum.2.symm⟩] at htell
      simp only [Bool.toNat_true]
      omega
    · omega
  · rw [hself]
    exact h.calls (by rwa [heq] at hc) u hu hp

omit h in
theorem reachable (hnodup : names.Nodup) (hr : (oneRound T names plan).Reachable s) :
    s.Tally names plan := by
  refine hr.invariant _ (fun _ => init hnodup) fun s e s' hr h _ hstep => ?_
  have hin := InRound.reachable hr
  rcases turn_cases hstep with ⟨t, ht, -, rfl⟩ | ⟨m, hm, -, rfl⟩
  · exact h.runTask hin ht
  · exact h.deliver hin hm

end Tally

/-! ## The step that loses the round -/

/-- The last node to finish, with a message coming to it, sees its sender unfinished and does not
call. -/
theorem calls_uninformed (hin : s.InRound names plan) (htally : s.Tally names plan) {t : Marker}
    (ht : t ∈ s.tasks) (hfinishes : s.finishes t.1) {m : String × Partition} (hm : m ∈ s.messages)
    (hm1 : m.1 = t.1) : (s.runTask names t).calls = [] ∧ (s.runTask names t).roundDone t.1 := by
  have hmem := hin.member t ht
  obtain ⟨-, hsender, hfrom⟩ := hin.sent m hm
  have hpos : 0 < s.telling t.1 m.2.nodeName := Multiset.countP_pos.2 ⟨m, hm, hm1, rfl⟩
  have hruns := runTask_runs names s t
  generalize s.runTask names t = s' at hruns
  cases hruns with
  | missing hown => simp [finishes, hown] at hfinishes
  | @counted p hown hlt => simp [finishes, hown, Int.not_le.2 hlt] at hfinishes
  | @called p hown hle hall =>
    have hnot := htally.not_done ht hmem hown
    have hne : m.2.nodeName ≠ t.1 := by
      intro heq
      rw [heq, flag_of_sees hown, hnot] at hfrom
      cases hfrom
    have honce := htally.once t.1 m.2.nodeName (Ne.symm hne)
    obtain ⟨p', hp', -⟩ := sees_of_flag hfrom
    have hplan := Option.isSome_of_eq_some ((hin.shape _).eq_some hp')
    obtain ⟨q, hq⟩ := (hin.shape t.1).exists_of_isSome hplan
    have hname : p.nodeName = t.1 := (hin.shape t.1).nodeName_eq hown
    rcases hall m.2.nodeName hsender hne q hq with heq | hdone
    · exact absurd (heq.symm.trans hname) hne
    · rw [flag_of_sees hq, hdone, hfrom] at honce
      simp only [Bool.toNat_true] at honce
      omega
  | @published p hown hle hex =>
    have hnot := htally.not_done ht hmem hown
    refine ⟨?_, ?_⟩
    · by_contra hcalls
      have hplan := Option.isSome_of_eq_some ((hin.shape t.1).eq_some hown)
      have hflag := htally.calls hcalls t.1 hmem hplan
      rw [flag_of_sees hown, hnot] at hflag
      cases hflag
    · refine (flag_write (s.take t) t.1 t.1 t.1 t.1 p.credit).trans ?_
      simp [Partition.credit, hle]

/-- A step that does not meet the condition loses the round: every partition is done, and no later
state has a call. -/
theorem uninformed_last_loses (hnodup : names.Nodup) (hr : (oneRound T names plan).Reachable s)
    {t : Marker} (hbad : ¬s.InformedLast names (.task t)) (hstep : s.turn names (.task t) = some s') :
    (∀ name ∈ names, s'.roundDone name) ∧
      ∀ s'', ((oneRound T names plan).startIn s').Reachable s'' → s''.calls = [] := by
  have hin := InRound.reachable hr
  have htally := Tally.reachable hnodup hr
  obtain ⟨t', ht, he, rfl⟩ | ⟨m, -, he, -⟩ := turn_cases hstep
  rotate_left
  · cases he
  cases he
  simp only [InformedLast, Classical.not_imp] at hbad
  push Not at hbad
  obtain ⟨hfinishes, hall, m, hm, hm1⟩ := hbad
  have hin' := hin.runTask ht
  have htally' := htally.runTask hin ht
  obtain ⟨hcalls, hself⟩ := calls_uninformed hin htally ht hfinishes hm hm1
  have hdone : ∀ name ∈ names, (s.runTask names t).roundDone name := by
    intro name hname
    by_cases hnt : name = t.1
    · exact hnt ▸ hself
    · exact (flag_runTask_of_ne names s t name hnt).trans (hall name hname hnt)
  have htasks : (s.runTask names t).tasks = 0 := by
    refine Multiset.eq_zero_of_forall_notMem fun t' ht' => ?_
    have hmem := hin'.member t' ht'
    obtain ⟨p, hp, hpdone⟩ := sees_of_flag (hdone t'.1 hmem)
    rw [htally'.not_done ht' hmem hp] at hpdone
    cases hpdone
  refine ⟨hdone, fun s'' hlater => ?_⟩
  have hquiet : s''.tasks = 0 ∧ s''.calls = [] := by
    refine hlater.invariant (fun x => x.tasks = 0 ∧ x.calls = []) ?_ fun x e x' _ hx _ hstep => ?_
    · rintro x rfl
      exact ⟨htasks, hcalls⟩
    · rcases turn_cases hstep with ⟨t', ht', -, -⟩ | ⟨m', -, -, rfl⟩
      · rw [hx.1] at ht'
        cases ht'
      · rw [deliver_eq]
        split <;> exact hx
  exact hquiet.2

end OwnX.Task.Nodes
