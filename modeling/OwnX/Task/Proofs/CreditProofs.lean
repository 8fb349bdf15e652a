import OwnX.Task.Proofs.RoundsProofs

/-!
# Completions of several rounds

A node counts a `batchDoneTask` for the round it is in, and a `SyncPartitionDone` for the round the
receiver is in; neither looks at the round that the completion is of. After the last batch of a round the
node looks at the map it has by then. While completions meet their own round, a counter is backed by
finished batches and a flag by a finished partition, so a round that ends is finished on every node.
-/

namespace OwnX.Task.Nodes

variable {T : Type} {names : List String} {plans : (round : Int) → Plan round} {s s' : Nodes T}

/-- The first `n` batches of a node in a round, as far as they are finished. -/
def finishedBatches (s : Nodes T) (name : String) (round : Int) (n : Nat) : Finset Nat :=
  (Finset.range n).filter fun i => s.finished (name, round, i)

/-- What is finished stays so. -/
def Grows (s s' : Nodes T) : Prop := ∀ t, s.finished t → s'.finished t

theorem Grows.finishedAll (h : Grows s s') {round : Int} {plan : Plan round} {name : String}
    (hall : s.finishedAll plan name) : s'.finishedAll plan name :=
  fun p hp i hi => h _ (hall p hp i hi)

theorem Grows.card_le (h : Grows s s') (name : String) (round : Int) (n : Nat) :
    (s.finishedBatches name round n).card ≤ (s'.finishedBatches name round n).card := by
  refine Finset.card_le_card fun i hi => ?_
  obtain ⟨hlt, hfin⟩ := Finset.mem_filter.1 hi
  exact Finset.mem_filter.2 ⟨hlt, h _ hfin⟩

theorem grows_take (s : Nodes T) (t : Marker) : Grows s (s.take t) := by
  rintro t' ⟨hran, hleft⟩
  exact ⟨Finset.mem_insert_of_mem hran, fun hmem => hleft (Multiset.mem_of_mem_erase hmem)⟩

/-- As many finished batches as there are batches are all of them. -/
theorem finishedAll_of_card {round : Int} {plan : Plan round} {name : String} {p : Partition}
    (hp : plan.partitions name = some p)
    (hcard : p.batchCount ≤ (s.finishedBatches name round p.batchCount.toNat).card) :
    s.finishedAll plan name := by
  intro p' hp' i hi
  obtain rfl : p = p' := Option.some.inj (hp.symm.trans hp')
  have hfull : (s.finishedBatches name round p.batchCount.toNat) = Finset.range p.batchCount.toNat := by
    refine Finset.eq_of_subset_of_card_le (Finset.filter_subset _ _) ?_
    rw [Finset.card_range]
    omega
  have hmem : i ∈ s.finishedBatches name round p.batchCount.toNat := hfull ▸ Finset.mem_range.2 hi
  exact (Finset.mem_filter.1 hmem).2

/-- Counters, flags, messages and calls are backed by batches that are finished. -/
structure Honest (names : List String) (plans : (round : Int) → Plan round) (s : Nodes T) :
    Prop where
  /-- A node holds no map, or that of one round up to progress. -/
  shape : ∀ v, (∀ u, s.sees v u = none) ∨
    ∃ round, (plans round).Fits (s.sees v)
  queued : ∀ t ∈ s.tasks, (t.1, t.2.1) ∈ s.installed ∧
    ∃ p ∈ (plans t.2.1).partitions t.1, t.2.2 < p.batchCount.toNat
  ran : ∀ t ∈ s.ran, (t.1, t.2.1) ∈ s.installed
  flagged : ∀ v u, ∀ q ∈ s.sees v u, q.roundDone → s.finishedAll (plans q.round) u
  tally : ∀ v, ∀ q ∈ s.own v, s.finishedAll (plans q.round) v ∨
    q.finBatchCount ≤ (s.finishedBatches v q.round q.batchCount.toNat).card
  ended : ∀ e ∈ s.ending, e.2.nodeName = e.1 ∧ s.finishedAll (plans e.2.round) e.1
  sent : ∀ m ∈ s.messages, s.finishedAll (plans m.2.round) m.2.nodeName
  called : ∀ c ∈ s.calls, ∀ u ∈ names, s.finishedAll (plans c.2) u

namespace Honest

theorem init (h : s.Idle) : s.Honest names plans := by
  have hsees : ∀ v u, s.sees v u = none := h.nodePartition
  refine ⟨fun v => .inl (hsees v), fun t ht => ?_, fun t ht => ?_, fun v u q hq => ?_,
    fun v q hq => ?_, fun e he => ?_, fun m hm => ?_, fun c hc => ?_⟩
  · rw [h.tasks] at ht
    cases ht
  · simp [h.ran] at ht
  · simp [hsees] at hq
  · simp [own, hsees] at hq
  · rw [h.ending] at he
    cases he
  · rw [h.messages] at hm
    cases hm
  · simp [h.calls] at hc

variable (h : s.Honest names plans)
include h

/-- The map in which a node sees a partition is that of the partition's round. -/
theorem fits_of_sees {v u : String} {q : Partition} (hq : s.sees v u = some q) :
    (plans q.round).Fits (s.sees v) := by
  rcases h.shape v with hnone | ⟨round, hfits⟩
  · rw [hnone] at hq
    cases hq
  · rw [hfits.round_eq hq]
    exact hfits

/-- A write that keeps the plan keeps the shape. -/
theorem shape_write {v other : String} {q q' : Partition} (hq : s.sees v other = some q)
    (hreset : q'.reset = q.reset) (v' : String) :
    (∀ u, (s.write v other q').sees v' u = none) ∨
      ∃ round, (plans round).Fits ((s.write v other q').sees v') := by
  by_cases hv : v' = v
  · rw [hv]
    exact .inr ⟨q.round, fits_write (h.fits_of_sees hq) hq hreset⟩
  · rw [sees_write_of_ne hv]
    exact h.shape v'

theorem tally_mono (hgrows : Grows s s') {v : String} {q : Partition} (hq : s.own v = some q) :
    s'.finishedAll (plans q.round) v ∨
      q.finBatchCount ≤ (s'.finishedBatches v q.round q.batchCount.toNat).card := by
  have hcard := hgrows.card_le v q.round q.batchCount.toNat
  rcases h.tally v q hq with hall | hcount
  · exact .inl (hgrows.finishedAll hall)
  · right
    omega

/-- A `batchDoneTask` that is credited adds a finished batch, if its node has not finished all. -/
theorem tally_take {t : Marker} (ht : t ∈ s.tasks) {p : Partition} (hown : s.own t.1 = some p)
    (hok : s.Credited names plans (.task t)) :
    (s.take t).finishedAll (plans p.round) t.1 ∨
      p.finBatchCount + 1 ≤ ((s.take t).finishedBatches t.1 p.round p.batchCount.toNat).card := by
  have hgrows := grows_take s t
  rcases h.tally t.1 p hown with hall | hcount
  · exact .inl (hgrows.finishedAll hall)
  rcases hok p hown with ⟨hround, hfresh, honly⟩ | hall
  · obtain ⟨-, p', hp', hlt⟩ := h.queued t ht
    have hplan : (plans t.2.1).partitions t.1 = some p.reset :=
      hround ▸ (h.fits_of_sees hown).eq_some hown
    obtain rfl : p' = p.reset := Option.some.inj (hp'.symm.trans hplan)
    have hnow : (s.take t).finished t := by
      refine ⟨Finset.mem_insert_self _ _, fun hmem => ?_⟩
      have hzero : (s.tasks.erase t).count t = 0 := by rw [Multiset.count_erase_self, honly]
      exact Multiset.count_eq_zero.1 hzero hmem
    have hnew : t.2.2 ∉ s.finishedBatches t.1 p.round p.batchCount.toNat := by
      intro hmem
      have hfin := (Finset.mem_filter.1 hmem).2
      rw [hround] at hfin
      exact hfresh hfin.1
    have hsub : insert t.2.2 (s.finishedBatches t.1 p.round p.batchCount.toNat) ⊆
        (s.take t).finishedBatches t.1 p.round p.batchCount.toNat := by
      intro i hi
      rcases Finset.mem_insert.1 hi with rfl | hi
      · exact Finset.mem_filter.2 ⟨Finset.mem_range.2 hlt, hround ▸ hnow⟩
      · obtain ⟨hi, hfin⟩ := Finset.mem_filter.1 hi
        exact Finset.mem_filter.2 ⟨hi, hgrows _ hfin⟩
    have hcard := Finset.card_le_card hsub
    rw [Finset.card_insert_of_notMem hnew] at hcard
    right
    omega
  · exact .inl (hgrows.finishedAll hall)

/-- A partition that is done after a credited `batchDoneTask` is finished. -/
theorem finishedAll_credit {t : Marker} (ht : t ∈ s.tasks) {p : Partition}
    (hown : s.own t.1 = some p) (hok : s.Credited names plans (.task t))
    (hdone : p.credit.roundDone) : (s.take t).finishedAll (plans p.round) t.1 := by
  rcases h.tally_take ht hown hok with hall | hcount
  · exact hall
  rcases Bool.or_eq_true_iff.1 hdone with hbefore | hlast
  · exact (grows_take s t).finishedAll (h.flagged t.1 t.1 p hown hbefore)
  · have hplan := (h.fits_of_sees hown).eq_some hown
    have hle : p.batchCount ≤ p.finBatchCount + 1 := of_decide_eq_true hlast
    exact finishedAll_of_card hplan (le_trans hle hcount)

/-- A `batchDoneTask` that is credited is counted. -/
theorem countTask {t : Marker} (ht : t ∈ s.tasks) (hok : s.Credited names plans (.task t)) :
    (s.countTask t).Honest names plans := by
  have hgrows := grows_take s t
  have hran : ∀ t' ∈ (s.take t).ran, (t'.1, t'.2.1) ∈ s.installed := by
    intro t' ht'
    rcases Finset.mem_insert.1 ht' with rfl | ht'
    · exact (h.queued t' ht).1
    · exact h.ran t' ht'
  have hended : ∀ e ∈ s.ending, e.2.nodeName = e.1 ∧ (s.take t).finishedAll (plans e.2.round) e.1 := by
    intro e he
    obtain ⟨hname, hall⟩ := h.ended e he
    exact ⟨hname, hgrows.finishedAll hall⟩
  have hsent : ∀ m ∈ s.messages, (s.take t).finishedAll (plans m.2.round) m.2.nodeName :=
    fun m hm => hgrows.finishedAll (h.sent m hm)
  have hcalled : ∀ c ∈ s.calls, ∀ u ∈ names, (s.take t).finishedAll (plans c.2) u :=
    fun c hc u hu => hgrows.finishedAll (h.called c hc u hu)
  rw [countTask_eq]
  cases hown : s.own t.1 with
  | none =>
    exact ⟨h.shape, fun t' ht' => h.queued t' (Multiset.mem_of_mem_erase ht'), hran,
      fun v u q hq hdone => hgrows.finishedAll (h.flagged v u q hq hdone),
      fun v q hq => h.tally_mono hgrows hq, hended, hsent, hcalled⟩
  | some p =>
    refine ⟨h.shape_write (s := s) hown (Partition.reset_credit p),
      fun t' ht' => h.queued t' (Multiset.mem_of_mem_erase ht'), hran, fun v u q hq hdone => ?_,
      fun v q hq => ?_, fun e he => ?_, hsent, hcalled⟩
    · replace hq : ((s.take t).write t.1 t.1 p.credit).sees v u = some q := hq
      rw [sees_write] at hq
      split at hq
      · rename_i heq
        cases hq
        have hall := h.finishedAll_credit ht hown hok hdone
        rw [heq.2]
        exact hall
      · exact hgrows.finishedAll (h.flagged v u q hq hdone)
    · replace hq : ((s.take t).write t.1 t.1 p.credit).sees v v = some q := hq
      rw [sees_write] at hq
      split at hq
      · rename_i heq
        cases hq
        rw [heq.1]
        exact h.tally_take ht hown hok
      · exact h.tally_mono hgrows hq
    · rcases Multiset.mem_add.1 he with hold | hnew
      · exact hended e hold
      · split at hnew
        · cases hnew
        · next hlt =>
          obtain rfl := Multiset.mem_singleton.1 hnew
          have hdone : p.credit.roundDone = true := by simp [Partition.credit, Int.not_lt.1 hlt]
          have hname : p.nodeName = t.1 := (h.fits_of_sees hown).nodeName_eq hown
          have hall : (s.take t).finishedAll (plans p.round) t.1 :=
            h.finishedAll_credit ht hown hok hdone
          exact ⟨hname, hall⟩

/-- After the last batch: the round is ended only when all others are done in its own map. -/
theorem conclude {e : String × Partition} (he : e ∈ s.ending)
    (hok : s.Credited names plans (.conclude e)) : (s.conclude names e).Honest names plans := by
  obtain ⟨hname, hfinished⟩ := h.ended e he
  have hended : ∀ e' ∈ s.ending.erase e, e'.2.nodeName = e'.1 ∧ s.finishedAll (plans e'.2.round) e'.1 :=
    fun e' he' => h.ended e' (Multiset.mem_of_mem_erase he')
  have hconcludes := conclude_concludes names s e
  generalize s.conclude names e = s' at hconcludes
  cases hconcludes with
  | called hall =>
    refine ⟨h.shape, h.queued, h.ran, h.flagged, h.tally, hended, h.sent, fun c hc u hu => ?_⟩
    rcases List.mem_append.1 hc with hold | hnew
    · exact h.called c hold u hu
    · obtain rfl := List.mem_singleton.1 hnew
      rcases hok with ⟨p, hown, hround⟩ | ⟨name, hmem, hne, q, hq, hdone⟩
      · intro p' hp'
        have hfits := h.fits_of_sees hown
        rw [hround] at hfits
        obtain ⟨q, hq⟩ := hfits.exists_of_isSome (Option.isSome_of_eq_some hp')
        rcases hall u hu q hq with heq | hdone
        · rw [← heq, hname] at hp' ⊢
          exact hfinished p' hp'
        · have hq' := h.flagged e.1 u q hq hdone
          rw [hfits.round_eq hq] at hq'
          exact hq' p' hp'
      · rcases hall name hmem q hq with heq | hdone'
        · exact absurd heq.symm hne
        · cases hdone.symm.trans hdone'
  | published =>
    refine ⟨h.shape, h.queued, h.ran, h.flagged, h.tally, hended, fun m hm => ?_, h.called⟩
    rcases Multiset.mem_add.1 hm with hold | hnew
    · exact h.sent m hold
    · obtain ⟨name, -, rfl⟩ := List.mem_map.1 (Multiset.mem_coe.1 hnew)
      rw [hname]
      exact hfinished

theorem deliver {m : String × Partition} (hm : m ∈ s.messages)
    (hok : s.Credited names plans (.deliver m)) : (s.deliver m).Honest names plans := by
  have hsent := h.sent m hm
  have hold : ∀ m' ∈ s.messages.erase m, s.finishedAll (plans m'.2.round) m'.2.nodeName :=
    fun m' hm' => h.sent m' (Multiset.mem_of_mem_erase hm')
  rw [deliver_eq]
  split
  · exact ⟨h.shape, h.queued, h.ran, h.flagged, h.tally, h.ended, hold, h.called⟩
  · rename_i q hq
    generalize hq' : { q with roundDone := m.2.roundDone } = q'
    have hreset : q'.reset = q.reset := by rw [← hq']; rfl
    refine ⟨h.shape_write (s := s) hq hreset, h.queued, h.ran, fun v u r hr hdone => ?_,
      fun v r hr => ?_, h.ended, hold, h.called⟩
    · replace hr : (s.write m.1 m.2.nodeName q').sees v u = some r := hr
      rw [sees_write] at hr
      split at hr
      · rename_i heq
        obtain rfl := Option.some.inj hr
        rw [heq.2, ← hq']
        rcases hok q hq with hround | hall
        · exact hround ▸ hsent
        · exact hall
      · exact h.flagged v u r hr hdone
    · replace hr : (s.write m.1 m.2.nodeName q').sees v v = some r := hr
      rw [sees_write] at hr
      split at hr
      · rename_i heq
        obtain rfl := Option.some.inj hr
        rw [← heq.1, ← heq.2] at hq
        rw [← hq']
        exact h.tally v q hq
      · exact h.tally v r hr

theorem install {name : String} {round : Int} (hnew : (name, round) ∉ s.installed) (ips : Slice) :
    (s.install names name round (plans round).partitions ips).Honest names plans := by
  obtain ⟨markers, hmarkers, heq⟩ := install_eq names s name round (plans round).partitions ips
  rw [heq]
  generalize hs' : ({ s with
    installed := insert (name, round) s.installed
    allocator := Function.update s.allocator name
      { s.allocator name with nodePartition := (plans round).partitions }
    tasks := s.tasks + Multiset.ofList markers } : Nodes T) = s'
  have hsees : ∀ v, s'.sees v = if v = name then (plans round).partitions else s.sees v := by
    intro v
    rw [← hs']
    by_cases hv : v = name
    · subst hv
      funext u
      simp [sees]
    · funext u
      simp [sees, hv]
  have hgrows : Grows s s' := by
    rintro t ⟨hran, hleft⟩
    rw [← hs']
    refine ⟨hran, fun hmem => ?_⟩
    rcases Multiset.mem_add.1 hmem with hold | hput
    · exact hleft hold
    · obtain ⟨h1, h2, -⟩ := hmarkers t (Multiset.mem_coe.1 hput)
      have hinstalled := h.ran t hran
      rw [h1, h2] at hinstalled
      exact hnew hinstalled
  have hinstalled : ∀ x ∈ s.installed, x ∈ s'.installed := by
    rw [← hs']
    exact fun x hx => Finset.mem_insert_of_mem hx
  refine ⟨fun v => ?_, fun t ht => ?_, fun t ht => ?_, fun v u q hq hdone => ?_, fun v q hq => ?_,
    fun e he => ?_, fun m hm => ?_, fun c hc u hu => ?_⟩
  · rw [hsees]
    split
    · exact .inr ⟨round, .self (plans round)⟩
    · exact h.shape v
  · rw [← hs'] at ht
    rcases Multiset.mem_add.1 ht with hold | hput
    · obtain ⟨hmem, hbatch⟩ := h.queued t hold
      exact ⟨hinstalled _ hmem, hbatch⟩
    · obtain ⟨h1, h2, hbatch⟩ := hmarkers t (Multiset.mem_coe.1 hput)
      rw [h1, h2, ← hs']
      exact ⟨Finset.mem_insert_self _ _, hbatch⟩
  · rw [← hs'] at ht
    exact hinstalled _ (h.ran t ht)
  · rw [hsees] at hq
    split at hq
    · rw [((plans round).fresh u q hq).1] at hdone
      cases hdone
    · exact hgrows.finishedAll (h.flagged v u q hq hdone)
  · rw [own, hsees] at hq
    split at hq
    · right
      rw [((plans round).fresh v q hq).2]
      exact Int.natCast_nonneg _
    · exact h.tally_mono hgrows hq
  · rw [← hs'] at he
    obtain ⟨hname, hall⟩ := h.ended e he
    exact ⟨hname, hgrows.finishedAll hall⟩
  · rw [← hs'] at hm
    exact hgrows.finishedAll (h.sent m hm)
  · rw [← hs'] at hc
    exact hgrows.finishedAll (h.called c hc u hu)

omit h in
theorem reachable
    (hr : (allRounds T names plans).ReachableWhen (fun s e => s.Credited names plans e) s) :
    s.Honest names plans := by
  refine hr.invariant _ (fun _ => init) fun s e s' _ h hok hstep => ?_
  cases e with
  | install name round ips =>
    obtain ⟨⟨-, hnew⟩, hs'⟩ := Option.ite_none_right_eq_some.1 hstep
    obtain rfl := Option.some.inj hs'
    exact h.install hnew ips
  | task t =>
    obtain ⟨ht, hs'⟩ := Option.ite_none_right_eq_some.1 hstep
    obtain rfl := Option.some.inj hs'
    exact h.countTask ht hok
  | conclude e =>
    obtain ⟨he, hs'⟩ := Option.ite_none_right_eq_some.1 hstep
    obtain rfl := Option.some.inj hs'
    exact h.conclude he hok
  | deliver m =>
    obtain ⟨hm, hs'⟩ := Option.ite_none_right_eq_some.1 hstep
    obtain rfl := Option.some.inj hs'
    exact h.deliver hm hok

end Honest

/-- Nodes with one build function, which makes no tasks of its own. -/
def idle : Nodes Unit where
  allocator := fun _ => { taskBuildFuncs := [fun _ _ => some []] }

theorem idle_idle : idle.Idle := ⟨fun _ _ => rfl, rfl, rfl, rfl, rfl, rfl, rfl⟩

/-- The addresses of two nodes. -/
def twoIps : Slice := ⟨["10.0.0.1", "10.0.0.2"], 2, Nat.le_refl 2⟩

end OwnX.Task.Nodes
