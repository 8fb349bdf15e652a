import OwnX.Task.Proofs.AllocatorProofs
import Mathlib.Data.List.Nodup
import Mathlib.Data.List.Infix
import Mathlib.Tactic.Ring
import Mathlib.Tactic.Set

/-!
# Proofs: how the work is cut

The partitions of a round are one index each, and the last one is cut down to nothing. The batches of
a partition are cut by their number instead of their size, from the front of the list. A list that
cuts in line and is too long for one node loses its last address.
-/

namespace OwnX.Task

/-! ## Cutting a list -/

section Cut

variable {α : Type}

/-- The pieces of `k` elements of a list, from the front. -/
theorem flatten_pieces (l : List α) (k n : Nat) :
    ((List.range n).map fun i => (l.drop (i * k)).take k).flatten = l.take (n * k) := by
  induction n with
  | zero => simp
  | succ n ih =>
    rw [List.range_succ, List.map_append, List.flatten_append, ih, List.map_singleton,
      List.flatten_singleton, Nat.succ_mul, List.take_add]

/-- Two cuts into pieces of the same lengths make the same list only if the pieces are the same. -/
theorem flatten_map_range_inj {f g : Nat → List α} {n : Nat}
    (hlen : ∀ i < n, (f i).length = (g i).length) :
    ((List.range n).map f).flatten = ((List.range n).map g).flatten ↔ ∀ i < n, f i = g i := by
  induction n with
  | zero => simp
  | succ n ih =>
    have ih := ih fun i hi => hlen i (by omega)
    simp only [List.range_succ, List.map_append, List.flatten_append, List.map_singleton,
      List.flatten_singleton]
    constructor
    · intro h i hi
      obtain ⟨hfront, hlast⟩ := List.append_inj' h (hlen n (by omega))
      rcases Nat.lt_succ_iff_lt_or_eq.mp hi with hi | rfl
      · exact ih.mp hfront i hi
      · exact hlast
    · intro h
      rw [ih.mpr fun i hi => h i (by omega), h n (by omega)]

end Cut

/-! ## The partitions of a round -/

/-- The indices of a partition, read as a half-open range. -/
def Partition.Has (p : Partition) (i : Int) : Prop := p.startIndex ≤ i ∧ i < p.endIndex

/-- The number of batches that a partition needs. -/
def Partition.batchesNeeded (p : Partition) : Int :=
  (p.endIndex - p.startIndex + p.batchSize - 1) / p.batchSize

/-- A partition is the index of its node; the last one is empty, but its batches have been counted. -/
theorem newPartition_eq {n i : Nat} (hi : i < n) (round : Int) (name : String) :
    newPartition n round i name =
      { nodeName := name, startIndex := i, endIndex := if i = n - 1 then i else i + 1,
        sortBy := "created_at", round := round, batchCount := 1, batchSize := 1000 } := by
  have heach : (n : Int) / n = 1 := Int.ediv_self (by omega)
  have hcount : ((1 : Int) + 1 * i - (0 + 1 * i)) = 1 := by ring
  unfold newPartition
  simp only [heach, hcount]
  congr 1
  · ring
  · split_ifs with hlast
    · omega
    · ring

theorem foldl_addPartition_of_notMem {n : Nat} {round : Int} {l : List (String × Nat)}
    {np : Partitions} {name : String} (h : name ∉ l.map Prod.fst) :
    l.foldl (addPartition n round) np name = np name := by
  induction l generalizing np with
  | nil => rfl
  | cons x l ih =>
    rw [List.map_cons, List.mem_cons, not_or] at h
    rw [List.foldl_cons, ih h.2, addPartition, Function.update_of_ne h.1]

theorem foldl_addPartition_of_mem {n : Nat} {round : Int} {l : List (String × Nat)}
    {np : Partitions} {name : String} {i : Nat} (hnd : (l.map Prod.fst).Nodup)
    (h : (name, i) ∈ l) :
    l.foldl (addPartition n round) np name = some (newPartition n round i name) := by
  induction l generalizing np with
  | nil => cases h
  | cons x l ih =>
    rw [List.map_cons, List.nodup_cons] at hnd
    rw [List.foldl_cons]
    rcases List.mem_cons.mp h with rfl | h
    · rw [foldl_addPartition_of_notMem hnd.1, addPartition, Function.update_self]
    · exact ih hnd.2 h

/-- The entry of the `i`-th name. -/
theorem roundPartitions_getElem {names : List String} (hnd : names.Nodup) {i : Nat} {name : String}
    (h : names[i]? = some name) (round : Int) :
    roundPartitions names round name = some (newPartition names.length round i name) := by
  apply foldl_addPartition_of_mem
  · rwa [List.zipIdx_map_fst]
  · exact List.mem_zipIdx_iff_getElem?.mpr h

/-- The entries of the map are those of the names. -/
theorem roundPartitions_iff {names : List String} (hnd : names.Nodup) {round : Int} {name : String}
    {p : Partition} : roundPartitions names round name = some p ↔
      ∃ i, names[i]? = some name ∧ p = newPartition names.length round i name := by
  constructor
  · intro h
    obtain ⟨i, hi, hp⟩ := roundPartitions_eq_some h
    exact ⟨i, List.mem_zipIdx_iff_getElem?.mp hi, hp⟩
  · rintro ⟨i, hi, rfl⟩
    exact roundPartitions_getElem hnd hi round

section Partitions

variable {names : List String} {round : Int} {name other : String} {p q : Partition}

/-- A partition has the index of its node, unless it is the last one. -/
theorem roundPartitions_has_iff (hnd : names.Nodup) {i : Nat} (hi : names[i]? = some name)
    (hp : roundPartitions names round name = some p) (x : Int) :
    p.Has x ↔ x = i ∧ i + 1 < names.length := by
  have hlt : i < names.length := (List.getElem?_eq_some_iff.mp hi).1
  rw [roundPartitions_getElem hnd hi, Option.some.injEq, newPartition_eq hlt] at hp
  rw [← hp]
  show (i : Int) ≤ x ∧ x < (if i = names.length - 1 then (i : Int) else i + 1) ↔ _
  split_ifs with hlast <;> omega

/-- The batches of a partition are counted right, unless it is the last one. -/
theorem batchCount_roundPartitions (hnd : names.Nodup) {i : Nat} (hi : names[i]? = some name)
    (hp : roundPartitions names round name = some p) :
    p.batchCount = p.batchesNeeded ↔ i + 1 < names.length := by
  have hlt : i < names.length := (List.getElem?_eq_some_iff.mp hi).1
  rw [roundPartitions_getElem hnd hi, Option.some.injEq, newPartition_eq hlt] at hp
  rw [← hp]
  show (1 : Int) = ((if i = names.length - 1 then (i : Int) else i + 1) - i + 1000 - 1) / 1000 ↔ _
  split_ifs with hlast <;> omega

theorem roundPartitions_disjoint (hnd : names.Nodup) (hne : name ≠ other)
    (hp : roundPartitions names round name = some p) (hq : roundPartitions names round other = some q)
    (x : Int) : ¬ (p.Has x ∧ q.Has x) := by
  obtain ⟨i, hi, -⟩ := (roundPartitions_iff hnd).mp hp
  obtain ⟨j, hj, -⟩ := (roundPartitions_iff hnd).mp hq
  rintro ⟨hpx, hqx⟩
  have hxi := ((roundPartitions_has_iff hnd hi hp x).mp hpx).1
  have hxj := ((roundPartitions_has_iff hnd hj hq x).mp hqx).1
  have hij : i = j := by omega
  rw [hij] at hi
  exact hne (Option.some.inj (hi.symm.trans hj))

/-- The index behind all others belongs to no partition. -/
theorem roundPartitions_cover (hnd : names.Nodup) (round : Int) (x : Int) :
    (∃ name p, roundPartitions names round name = some p ∧ p.Has x) ↔
      0 ≤ x ∧ x + 1 < names.length := by
  constructor
  · rintro ⟨name, p, hp, hx⟩
    obtain ⟨i, hi, -⟩ := (roundPartitions_iff hnd).mp hp
    have hxi := (roundPartitions_has_iff hnd hi hp x).mp hx
    omega
  · rintro ⟨h0, hlt⟩
    obtain ⟨i, rfl⟩ : ∃ i : Nat, x = i := ⟨x.toNat, by omega⟩
    have hi : names[i]? = some (names[i]) := List.getElem?_eq_getElem (by omega)
    have hp := roundPartitions_getElem hnd hi round
    exact ⟨_, _, hp, (roundPartitions_has_iff hnd hi hp i).mpr ⟨rfl, by omega⟩⟩

/-- The partitions of a round of `n` nodes. There is one per node and no two overlap. Together they
have the indices up to `n - 2` only, and the batches of every node but the last are counted right. -/
theorem partitions_cover_all_but_last (names : List String) (hnd : names.Nodup) (round : Int) :
    (∀ name, (roundPartitions names round name).isSome ↔ name ∈ names) ∧
    (∀ name p, roundPartitions names round name = some p → p.nodeName = name) ∧
    (∀ name other p q, name ≠ other → roundPartitions names round name = some p →
      roundPartitions names round other = some q → ∀ x, ¬ (p.Has x ∧ q.Has x)) ∧
    (∀ x, (∃ name p, roundPartitions names round name = some p ∧ p.Has x) ↔
      0 ≤ x ∧ x + 1 < names.length) ∧
    ∀ (i : Nat) name p, names[i]? = some name → roundPartitions names round name = some p →
      (p.batchCount = p.batchesNeeded ↔ i + 1 < names.length) := by
  refine ⟨fun name => ?_, fun name p hp => ?_, ?_, roundPartitions_cover hnd round, ?_⟩
  · rw [Option.isSome_iff_exists, List.mem_iff_getElem?]
    constructor
    · rintro ⟨p, hp⟩
      obtain ⟨i, hi, -⟩ := (roundPartitions_iff hnd).mp hp
      exact ⟨i, hi⟩
    · rintro ⟨i, hi⟩
      exact ⟨_, roundPartitions_getElem hnd hi round⟩
  · obtain ⟨i, -, rfl⟩ := (roundPartitions_iff hnd).mp hp
    rfl
  · intro name other p q hne hp hq
    exact roundPartitions_disjoint hnd hne hp hq
  · intro i name p hi hp
    exact batchCount_roundPartitions hnd hi hp

theorem partitions_cover_all_but_last_three :
    ["a", "b", "c"].Nodup ∧ ∀ x,
      (∃ name p, roundPartitions ["a", "b", "c"] 1 name = some p ∧ p.Has x) ↔ 0 ≤ x ∧ x + 1 < 3 := by
  have hnd : ["a", "b", "c"].Nodup := by decide
  exact ⟨hnd, (partitions_cover_all_but_last _ hnd 1).2.2.2.1⟩

/-- With three nodes, index `2` belongs to no partition, and the node `c` counts a batch that it does
not have. -/
theorem index_two_uncovered :
    (¬ ∃ name p, roundPartitions ["a", "b", "c"] 1 name = some p ∧ p.Has 2) ∧
      ((roundPartitions ["a", "b", "c"] 1 "c").map fun p => (p.batchCount, p.batchesNeeded)) =
        some (1, 0) := by
  refine ⟨?_, by decide⟩
  rw [roundPartitions_cover (by decide)]
  decide

end Partitions

/-! ## The batches of a partition -/

/-- A partition that is not empty needs batches, and they have room for it. -/
theorem Partition.batchesNeeded_pos {p : Partition} (hlt : p.startIndex < p.endIndex)
    (hsize : 0 < p.batchSize) :
    0 < p.batchesNeeded ∧ p.endIndex - p.startIndex ≤ p.batchesNeeded * p.batchSize := by
  have hpos : 1 ≤ p.batchesNeeded := by
    apply Int.le_ediv_of_mul_le hsize
    omega
  have hroom := Int.lt_ediv_add_one_mul_self (p.endIndex - p.startIndex + p.batchSize - 1) hsize
  rw [add_mul, one_mul] at hroom
  exact ⟨hpos, by unfold batchesNeeded; omega⟩

theorem Partition.batchesNeeded_le {p : Partition} {n : Nat} (hsize : 0 < p.batchSize)
    (h : p.endIndex - p.startIndex ≤ n * p.batchSize) : p.batchesNeeded ≤ n := by
  refine Int.le_of_lt_add_one (Int.ediv_lt_of_lt_mul hsize ?_)
  rw [add_mul, one_mul]
  omega

theorem Partition.batchesNeeded_eq_zero {p : Partition} (h : p.startIndex = p.endIndex)
    (hsize : 0 < p.batchSize) : p.batchesNeeded = 0 := by
  unfold batchesNeeded
  rw [h, sub_self, zero_add]
  exact Int.ediv_eq_zero_of_lt (by omega) (by omega)

namespace Allocator

section Batches

variable {T : Type} {a : Allocator T} {view : View} {p : Partition}

/-- The batches that are cut in range, in order. -/
def cuts (view : View) (p : Partition) : List (List String) :=
  (List.range p.batchCount.toNat).filterMap fun i =>
    view.aliveNodeIps.slice i (i + p.batchCount.toNat)

theorem length_of_mem_cuts {l : List String} (hl : l ∈ cuts view p) :
    l.length = p.batchCount.toNat := by
  obtain ⟨i, -, hi⟩ := List.mem_filterMap.mp hl
  exact (view.aliveNodeIps.length_of_slice hi).2

theorem length_cuts_le (view : View) (p : Partition) : (cuts view p).length ≤ p.batchCount.toNat := by
  have hle := List.length_filterMap_le
    (fun i => view.aliveNodeIps.slice i (i + p.batchCount.toNat)) (List.range p.batchCount.toNat)
  rwa [List.length_range] at hle

/-- Every batch is cut in range. -/
def InRange (view : View) (p : Partition) : Prop :=
  ∀ i < p.batchCount.toNat, (view.aliveNodeIps.slice i (i + p.batchCount.toNat)).isSome

theorem inRange_of_length_cuts (h : p.batchCount.toNat ≤ (cuts view p).length) : InRange view p := by
  have heq : (cuts view p).length = (List.range p.batchCount.toNat).length := by
    rw [List.length_range]
    exact le_antisymm (length_cuts_le view p) h
  intro i hi
  exact List.filterMap_length_eq_length.mp heq i (List.mem_range.mpr hi)

/-! ### The calls of a round -/

/-- The lists that are handed to the function with the number `k`, in order. -/
def handedTo (handed : List (Nat × List String)) (k : Nat) : List (List String) :=
  (handed.filter fun x => x.1 == k).map Prod.snd

/-- The calls of `n` functions for one list. -/
def callsFor (n : Nat) (l : List String) : List (Nat × List String) :=
  (List.range n).map fun k => (k, l)

/-- The calls of a round that runs to its end, or to a slice out of range. -/
def calls (a : Allocator T) (view : View) (p : Partition) : List (Nat × List String) :=
  (cuts view p).flatMap (callsFor a.taskBuildFuncs.length)

theorem handed_turns (l : List String) (behind : List (Queued T))
    (fs : List (List String → Option (List T))) :
    (a.turns l behind 0 fs).flatMap Outcome.handed = callsFor fs.length l := by
  rw [callsFor, turns, List.flatMap_map, List.range_eq_range', ← List.zipIdx_map_snd, List.map_map]
  simp only [handed_callFunc]
  exact List.flatMap_pure_eq_map _ _

/-- A batch that is not empty is handed to every build function. -/
theorem handed_roundTurns (hpos : 0 < p.batchCount.toNat) (index : Nat) :
    (a.roundTurns view p index).flatMap Outcome.handed =
      (view.aliveNodeIps.slice index (index + p.batchCount.toNat)).toList.flatMap
        (callsFor a.taskBuildFuncs.length) := by
  unfold roundTurns
  cases hs : view.aliveNodeIps.slice index (index + p.batchCount.toNat) with
  | none => rfl
  | some l =>
    have hl : 0 < l.length := by
      rw [(view.aliveNodeIps.length_of_slice hs).2]
      exact hpos
    simp only [hl, if_true, handed_turns, List.length_map, Option.toList_some, List.flatMap_singleton]

theorem handed_allTurns (hpos : 0 < p.batchCount.toNat) :
    ((List.range p.batchCount.toNat).flatMap (a.roundTurns view p)).flatMap Outcome.handed =
      a.calls view p := by
  rw [List.flatMap_assoc, calls, cuts, List.filterMap_eq_flatMap_toList, List.flatMap_assoc]
  simp only [handed_roundTurns hpos]

theorem handed_prefix_calls (hp : a.nodePartition view.myName = some p)
    (hpos : 0 < p.batchCount.toNat) : (a.roundRun view).handed <+: a.calls view p := by
  rw [roundRun_eq hp, ← handed_allTurns hpos]
  exact Outcome.handed_seq_prefix _ _

theorem handedTo_append (x y : List (Nat × List String)) (k : Nat) :
    handedTo (x ++ y) k = handedTo x k ++ handedTo y k := by
  simp [handedTo]

theorem handedTo_callsFor {n k : Nat} (hk : k < n) (l : List String) :
    handedTo (callsFor n l) k = [l] := by
  have hone : (List.range n).count k = 1 :=
    List.count_eq_one_of_mem List.nodup_range (List.mem_range.mpr hk)
  unfold handedTo callsFor
  rw [List.filter_map, List.map_map]
  show ((List.range n).filter fun j => j == k).map _ = _
  rw [List.filter_beq, hone]
  rfl

/-- Every build function is handed every batch. -/
theorem handedTo_calls {k : Nat} (hk : k < a.taskBuildFuncs.length) (view : View) (p : Partition) :
    handedTo (a.calls view p) k = cuts view p := by
  unfold calls
  induction cuts view p with
  | nil => rfl
  | cons l rest ih =>
    rw [List.flatMap_cons, handedTo_append, handedTo_callsFor hk, ih, List.singleton_append]

theorem handedTo_prefix_cuts (hp : a.nodePartition view.myName = some p)
    (hpos : 0 < p.batchCount.toNat) {k : Nat} (hk : k < a.taskBuildFuncs.length) :
    handedTo (a.roundRun view).handed k <+: cuts view p := by
  rw [← handedTo_calls hk]
  exact ((handed_prefix_calls hp hpos).filter _).map _

/-- Once the last build function has been handed every batch, all calls have been made. -/
theorem handed_eq_calls (hp : a.nodePartition view.myName = some p)
    (hpos : 0 < p.batchCount.toNat) {k : Nat} (hk : a.taskBuildFuncs.length = k + 1)
    (hall : (cuts view p).length ≤ (handedTo (a.roundRun view).handed k).length) :
    (a.roundRun view).handed = a.calls view p := by
  obtain ⟨rest, hrest⟩ := handed_prefix_calls hp hpos
  rcases List.eq_nil_or_concat rest with rfl | ⟨front, x, rfl⟩
  · rw [← hrest, List.append_nil]
  · -- the calls that are missing end with one of the last function
    have hlast : x.1 = k := by
      rcases List.eq_nil_or_concat (cuts view p) with hnil | ⟨before, l, hcuts⟩
      · rw [calls, hnil, List.flatMap_nil] at hrest
        simp at hrest
      · rw [calls, hcuts, List.concat_eq_append, List.concat_eq_append, List.flatMap_append,
          List.flatMap_singleton, callsFor, hk, List.range_succ, List.map_append,
          ← List.append_assoc, ← List.append_assoc] at hrest
        have hx : [x] = [(k, l)] := (List.append_inj' hrest rfl).2
        rw [List.singleton_inj.mp hx]
    have hto : handedTo (a.calls view p) k =
        handedTo (a.roundRun view).handed k ++ handedTo front k ++ [x.2] := by
      rw [← hrest, List.concat_eq_append, handedTo_append, handedTo_append, ← List.append_assoc]
      congr 1
      simp [handedTo, hlast]
    rw [handedTo_calls (by omega)] at hto
    have hlen := congrArg List.length hto
    simp only [List.length_append, List.length_singleton] at hlen
    omega

/-! ### Panics of a round -/

/-- `Put` finds a bucket for the tasks of every call of a build function but the last one. -/
def PutsAllButLast (a : Allocator T) (view : View) (p : Partition) : Prop :=
  ∀ index < p.batchCount.toNat, ∀ l ∈ view.aliveNodeIps.slice index (index + p.batchCount.toNat),
    ∀ f ∈ if index + 1 < p.batchCount.toNat then a.taskBuildFuncs else a.taskBuildFuncs.dropLast,
      ∀ tasks, f p.round l = some tasks → ∀ t ∈ tasks, a.hasBucket (.built t) = true

theorem panic_turns_eq_none (l : List String) (behind : List (Queued T)) (k : Nat)
    (fs : List (List String → Option (List T))) :
    (∀ o ∈ a.turns l behind k fs, o.panic = none) ↔
      ∀ f ∈ fs, ∀ tasks, f l = some tasks → ∀ t ∈ tasks.map .built ++ behind, a.hasBucket t = true := by
  rw [turns, List.forall_mem_map]
  simp only [panic_callFunc_eq_none]
  constructor
  · intro h f hf
    rw [← List.zipIdx_map_fst k fs] at hf
    obtain ⟨x, hx, rfl⟩ := List.mem_map.mp hf
    exact h x hx
  · intro h x hx
    exact h x.1 (List.fst_mem_of_mem_zipIdx hx)

theorem dropLast_turns (l : List String) (behind : List (Queued T)) (k : Nat)
    (fs : List (List String → Option (List T))) :
    (a.turns l behind k fs).dropLast = a.turns l behind k fs.dropLast := by
  rcases List.eq_nil_or_concat fs with rfl | ⟨fs, f, rfl⟩
  · rfl
  · simp [turns, List.zipIdx_append]

/-- The turns of a batch that is cut in range. -/
theorem roundTurns_of_slice (hpos : 0 < p.batchCount.toNat) {index : Nat} {l : List String}
    (hl : view.aliveNodeIps.slice index (index + p.batchCount.toNat) = some l) :
    a.roundTurns view p index =
      a.turns l [.batchDone index] 0 (a.taskBuildFuncs.map fun f => f p.round) := by
  have hlen : 0 < l.length := by
    rw [(view.aliveNodeIps.length_of_slice hl).2]
    exact hpos
  simp only [roundTurns, hl, hlen, if_true]

/-- No call of a round that is cut in range panics, up to the last one. -/
theorem panic_dropLast_allTurns (hpos : 0 < p.batchCount.toNat) (hfuncs : a.taskBuildFuncs ≠ [])
    (hrange : InRange view p) :
    (∀ o ∈ ((List.range p.batchCount.toNat).flatMap (a.roundTurns view p)).dropLast,
      o.panic = none) ↔ a.PutsAllButLast view p := by
  have hbatch : ∀ index l, ∀ fs : List (Int → List String → Option (List T)),
      (∀ o ∈ a.turns l [.batchDone index] 0 (fs.map fun f => f p.round), o.panic = none) ↔
        ∀ f ∈ fs, ∀ tasks, f p.round l = some tasks → ∀ t ∈ tasks, a.hasBucket (.built t) = true := by
    intro index l fs
    rw [panic_turns_eq_none, List.forall_mem_map]
    simp [or_imp, forall_and, hasBucket]
  obtain ⟨n, hn⟩ : ∃ n, p.batchCount.toNat = n + 1 := ⟨p.batchCount.toNat - 1, by omega⟩
  obtain ⟨last, hlast⟩ := Option.isSome_iff_exists.mp (hrange n (by omega))
  have hturns := roundTurns_of_slice (a := a) hpos hlast
  have hne : a.roundTurns view p n ≠ [] := by
    rw [hturns]
    simpa [turns] using hfuncs
  have hsplit : ((List.range p.batchCount.toNat).flatMap (a.roundTurns view p)).dropLast =
      (List.range n).flatMap (a.roundTurns view p) ++
        a.turns last [.batchDone n] 0 (a.taskBuildFuncs.dropLast.map fun f => f p.round) := by
    rw [hn, List.range_succ, List.flatMap_append, List.flatMap_singleton,
      List.dropLast_append_of_ne_nil hne, hturns, dropLast_turns, List.map_dropLast]
  rw [hsplit]
  constructor
  · intro h index hindex l hl
    by_cases hlt : index + 1 < p.batchCount.toNat
    · rw [if_pos hlt, ← hbatch index, ← roundTurns_of_slice hpos hl]
      intro o ho
      exact h o (List.mem_append_left _
        (List.mem_flatMap.mpr ⟨index, List.mem_range.mpr (by omega), ho⟩))
    · obtain rfl : index = n := by omega
      obtain rfl : last = l := Option.some.inj (hlast.symm.trans hl)
      rw [if_neg hlt, ← hbatch index]
      intro o ho
      exact h o (List.mem_append_right _ ho)
  · intro h o ho
    rcases List.mem_append.mp ho with ho | ho
    · obtain ⟨index, hindex, ho⟩ := List.mem_flatMap.mp ho
      have hindex := List.mem_range.mp hindex
      obtain ⟨l, hl⟩ := Option.isSome_iff_exists.mp (hrange index (by omega))
      have hputs := h index (by omega) l hl
      rw [if_pos (by omega), ← hbatch index, ← roundTurns_of_slice hpos hl] at hputs
      exact hputs o ho
    · have hputs := h n (by omega) last hlast
      rw [if_neg (by omega), ← hbatch n] at hputs
      exact hputs o ho

/-- All calls of a round are made exactly if no `Put` stops it before the last one. -/
theorem handed_eq_calls_iff (hp : a.nodePartition view.myName = some p)
    (hpos : 0 < p.batchCount.toNat) (hfuncs : a.taskBuildFuncs ≠ []) (hrange : InRange view p) :
    (a.roundRun view).handed = a.calls view p ↔ a.PutsAllButLast view p := by
  rw [← panic_dropLast_allTurns hpos hfuncs hrange, roundRun_eq hp, ← handed_allTurns hpos]
  refine ⟨fun h => Outcome.panic_of_handed_seq ?_ h, Outcome.handed_seq⟩
  intro o ho
  obtain ⟨index, hindex, ho⟩ := List.mem_flatMap.mp ho
  obtain ⟨l, hl⟩ := Option.isSome_iff_exists.mp (hrange index (List.mem_range.mp hindex))
  rw [roundTurns_of_slice hpos hl] at ho
  obtain ⟨f, k, -, rfl⟩ := mem_turns.mp ho
  simp [handed_callFunc]

/-- A slice of a round is out of range only if a batch is. -/
theorem panic_ne_slice (hp : a.nodePartition view.myName = some p)
    (hpos : 0 < p.batchCount.toNat) (hrange : InRange view p) :
    (a.roundRun view).panic ≠ some .slice := by
  intro h
  rw [roundRun_eq hp] at h
  obtain ⟨o, ho, hpanic⟩ := Outcome.panic_seq_eq_some h
  obtain ⟨index, hindex, ho⟩ := List.mem_flatMap.mp ho
  obtain ⟨l, hl⟩ := Option.isSome_iff_exists.mp (hrange index (List.mem_range.mp hindex))
  rw [roundTurns_of_slice hpos hl] at ho
  obtain ⟨f, k, -, rfl⟩ := mem_turns.mp ho
  exact panic_callFunc_ne_slice _ _ _ _ hpanic

/-- Without build functions nothing but a slice can panic. -/
theorem panic_ne_slice_iff_of_nil (hp : a.nodePartition view.myName = some p)
    (hpos : 0 < p.batchCount.toNat) (hfuncs : a.taskBuildFuncs = []) :
    (a.roundRun view).panic ≠ some .slice ↔ InRange view p := by
  refine ⟨fun h i hi => ?_, panic_ne_slice hp hpos⟩
  by_contra hnone
  have hs : view.aliveNodeIps.slice i (i + p.batchCount.toNat) = none :=
    Option.not_isSome_iff_eq_none.mp hnone
  have hpanics : (a.roundRun view).panic ≠ none := by
    rw [roundRun_eq hp, Ne, Outcome.panic_seq_eq_none]
    intro hall
    have hturn : ({ allocator := a, panic := some .slice } : Outcome T) ∈ a.roundTurns view p i := by
      simp [roundTurns, hs]
    have hno := hall _ (List.mem_flatMap.mpr ⟨i, List.mem_range.mpr hi, hturn⟩)
    cases hno
  obtain ⟨r, hr⟩ := Option.ne_none_iff_exists'.mp hpanics
  have hslice : r = .slice := by
    rw [roundRun_eq hp] at hr
    obtain ⟨o, ho, hpanic⟩ := Outcome.panic_seq_eq_some hr
    obtain ⟨index, -, ho⟩ := List.mem_flatMap.mp ho
    unfold roundTurns at ho
    split at ho
    · rw [List.mem_singleton.mp ho] at hpanic
      exact (Option.some.inj hpanic).symm
    · simp [hfuncs, turns] at ho
  exact h (hslice ▸ hr)

theorem inRange_iff (hpos : 0 < p.batchCount.toNat) :
    InRange view p ↔ 2 * p.batchCount.toNat - 1 ≤ view.aliveNodeIps.capacity := by
  constructor
  · intro h
    obtain ⟨l, hl⟩ := Option.isSome_iff_exists.mp (h (p.batchCount.toNat - 1) (by omega))
    have hle := (view.aliveNodeIps.length_of_slice hl).1
    omega
  · intro h i hi
    have hle : i + p.batchCount.toNat ≤ view.aliveNodeIps.capacity := by omega
    obtain ⟨l, hl, -⟩ := view.aliveNodeIps.slice_of_le hle
    rw [hl]
    rfl

/-! ### What a round enumerates -/

/-- A round enumerates the partition: no slice is out of range, and to every build function it hands the
addresses of the partition, in batches that are not larger than the batch size. -/
structure Enumerates (a : Allocator T) (view : View) (p : Partition) : Prop where
  inRange : (a.roundRun view).panic ≠ some .slice
  concat : ∀ k < a.taskBuildFuncs.length, (handedTo (a.roundRun view).handed k).flatten =
    (view.aliveNodeIps.elems.drop p.startIndex.toNat).take (p.endIndex - p.startIndex).toNat
  small : ∀ k < a.taskBuildFuncs.length, ∀ l ∈ handedTo (a.roundRun view).handed k,
    (l.length : Int) ≤ p.batchSize

/-- An empty partition has no batches. -/
theorem enumerates_of_empty (hp : a.nodePartition view.myName = some p)
    (hempty : p.startIndex = p.endIndex) (hcount : p.batchCount = 0) : a.Enumerates view p := by
  have hrun : a.roundRun view = { allocator := a } := by
    rw [roundRun_eq hp, hcount]
    rfl
  constructor
  case inRange => simp [hrun]
  case concat => simp [hrun, handedTo, hempty]
  case small => simp [hrun, handedTo]

theorem length_flatten_of_forall {L : List (List String)} {n : Nat} (h : ∀ l ∈ L, l.length = n) :
    L.flatten.length = L.length * n := by
  have hconst : L.map List.length = L.map fun _ => n := List.map_congr_left h
  rw [List.length_flatten, hconst]
  simp

/-- With enough addresses, the batches are cut from the front of the list. -/
theorem cuts_of_square {k : Nat} (hk : p.batchCount.toNat = k)
    (hlen : k * k ≤ view.aliveNodeIps.elems.length) :
    cuts view p = (List.range k).map fun i => (view.aliveNodeIps.elems.drop i).take k := by
  unfold cuts
  rw [hk, ← List.filterMap_eq_map]
  refine List.filterMap_congr fun i hi => ?_
  have hik : i + k ≤ k * k := by
    have hlt := List.mem_range.mp hi
    have hmul : (i + 1) * k ≤ k * k := Nat.mul_le_mul_right k hlt
    have hge : i * 1 ≤ i * k := Nat.mul_le_mul_left i (by omega)
    rw [Nat.add_mul, one_mul] at hmul
    omega
  exact view.aliveNodeIps.slice_of_le_length (by omega)

/-- The batches `L[i:i+k]` are the pieces of `k` elements from `start` on, position by position. -/
theorem pieces_eq_iff {L : List String} {start k : Nat} (hlen : start + k * k ≤ L.length) :
    ((List.range k).map fun i => (L.drop i).take k).flatten = (L.drop start).take (k * k) ↔
      ∀ i < k, ∀ j < k, L[i + j]? = L[start + i * k + j]? := by
  have hrow : ∀ i < k, i * k + k ≤ k * k := by
    intro i hi
    have hmul : (i + 1) * k ≤ k * k := Nat.mul_le_mul_right k hi
    rwa [Nat.add_mul, one_mul] at hmul
  rw [← flatten_pieces, flatten_map_range_inj]
  · refine forall₂_congr fun i hi => ?_
    rw [List.drop_drop, List.ext_getElem?_iff]
    have hget : ∀ m j, ((L.drop m).take k)[j]? = if j < k then L[m + j]? else none := by
      intro m j
      rw [List.getElem?_take, List.getElem?_drop]
    simp only [hget]
    refine forall_congr' fun j => ?_
    by_cases hj : j < k
    · simp [hj]
    · simp [hj]
  · intro i hi
    have hi' := hrow i hi
    simp only [List.length_take, List.length_drop]
    have hle : i * 1 ≤ i * k := Nat.mul_le_mul_left i (by omega)
    omega

/-- The partition is as long as the square of the number of its batches, and the list repeats itself: the
`i`-th batch from the front is the `i`-th piece of the partition. -/
def Repeats (view : View) (p : Partition) : Prop :=
  p.endIndex - p.startIndex = p.batchCount * p.batchCount ∧
    ∀ i < p.batchCount.toNat, ∀ j < p.batchCount.toNat, view.aliveNodeIps.elems[i + j]? =
      view.aliveNodeIps.elems[p.startIndex.toNat + i * p.batchCount.toNat + j]?

/-- A round that enumerates a partition hands every batch to the last build function, so all batches are
as long as they are many. -/
theorem Enumerates.square (h : a.Enumerates view p) (hp : a.nodePartition view.myName = some p)
    (h0 : 0 ≤ p.startIndex) (hlt : p.startIndex < p.endIndex)
    (hlen : p.endIndex ≤ view.aliveNodeIps.elems.length) (hsize : 0 < p.batchSize)
    (hcount : p.batchCount = p.batchesNeeded) {k : Nat} (hk : k < a.taskBuildFuncs.length) :
    handedTo (a.roundRun view).handed k = cuts view p ∧
      (cuts view p).length = p.batchCount.toNat ∧
      p.endIndex - p.startIndex = p.batchCount * p.batchCount := by
  have hpos := (Partition.batchesNeeded_pos hlt hsize).1
  rw [← hcount] at hpos
  obtain ⟨b, hb⟩ : ∃ b : Nat, p.batchCount = b := ⟨p.batchCount.toNat, by omega⟩
  have hbn : p.batchCount.toNat = b := by omega
  have hpre := handedTo_prefix_cuts hp (by omega) hk
  set batches := handedTo (a.roundRun view).handed k with hbatches
  have hlens : ∀ l ∈ batches, l.length = b := by
    intro l hl
    rw [length_of_mem_cuts (hpre.subset hl), hbn]
  have htotal := length_flatten_of_forall hlens
  rw [h.concat k hk, List.length_take, List.length_drop] at htotal
  have hlength : p.endIndex - p.startIndex = ((batches.length * b : Nat) : Int) := by omega
  rw [Nat.cast_mul] at hlength
  have hsmall : (b : Int) ≤ p.batchSize := by
    have hne : batches ≠ [] := by
      intro hnil
      rw [hnil, List.length_nil, Nat.cast_zero, zero_mul] at hlength
      omega
    obtain ⟨l, hl⟩ := List.exists_mem_of_ne_nil _ hne
    have hle := h.small k hk l hl
    rwa [hlens l hl] at hle
  have hmany : p.batchCount ≤ batches.length := by
    rw [hcount]
    apply Partition.batchesNeeded_le hsize
    rw [hlength]
    exact Int.mul_le_mul_of_nonneg_left hsmall (Int.natCast_nonneg _)
  have hle := hpre.length_le
  have hcuts := length_cuts_le view p
  have hall : batches.length = b := by omega
  refine ⟨hpre.eq_of_length (by omega), by omega, ?_⟩
  rw [hlength, hall, hb]

/-- A round enumerates a partition that is not empty only if the partition is as long as the square
of its number of batches, the list repeats itself accordingly, and all calls are made. -/
theorem enumerates_iff_of_lt (hp : a.nodePartition view.myName = some p) (h0 : 0 ≤ p.startIndex)
    (hlt : p.startIndex < p.endIndex) (hlen : p.endIndex ≤ view.aliveNodeIps.elems.length)
    (hsize : 0 < p.batchSize) (hcount : p.batchCount = p.batchesNeeded)
    (hfuncs : a.taskBuildFuncs ≠ []) :
    a.Enumerates view p ↔ Repeats view p ∧ a.PutsAllButLast view p := by
  obtain ⟨hpos, hroom⟩ := Partition.batchesNeeded_pos hlt hsize
  rw [← hcount] at hpos hroom
  obtain ⟨b, hb⟩ : ∃ b : Nat, p.batchCount = b := ⟨p.batchCount.toNat, by omega⟩
  have hbn : p.batchCount.toNat = b := by omega
  have hcast : ((b * b : Nat) : Int) = (b : Int) * b := Nat.cast_mul b b
  obtain ⟨k, hk⟩ : ∃ k, a.taskBuildFuncs.length = k + 1 :=
    ⟨a.taskBuildFuncs.length - 1, by have := List.length_pos_of_ne_nil hfuncs; omega⟩
  unfold Repeats
  rw [hbn, hb]
  constructor
  · intro h
    obtain ⟨hto, hall, hsquare⟩ := h.square hp h0 hlt hlen hsize hcount (k := k) (by omega)
    have hrange := inRange_of_length_cuts hall.ge
    have hcalls := handed_eq_calls hp (by omega) hk (by rw [hto])
    rw [hb] at hsquare
    refine ⟨⟨hsquare, (pieces_eq_iff (by omega)).mp ?_⟩,
      (handed_eq_calls_iff hp (by omega) hfuncs hrange).mp hcalls⟩
    have hconcat := h.concat k (by omega)
    rw [hto, cuts_of_square hbn (by omega)] at hconcat
    rw [hconcat]
    congr 1
    omega
  · rintro ⟨⟨hsquare, hrepeat⟩, hputs⟩
    have hfit : b * b ≤ view.aliveNodeIps.elems.length := by omega
    have hcuts := cuts_of_square hbn hfit
    have hrange : InRange view p := by
      apply inRange_of_length_cuts
      rw [hcuts, List.length_map, List.length_range, hbn]
    have hcalls := (handed_eq_calls_iff hp (by omega) hfuncs hrange).mpr hputs
    constructor
    case inRange => exact panic_ne_slice hp (by omega) hrange
    case concat =>
      intro j hj
      rw [hcalls, handedTo_calls hj, hcuts, (pieces_eq_iff (by omega)).mpr hrepeat]
      congr 1
      omega
    case small =>
      intro j hj l hl
      rw [hcalls, handedTo_calls hj] at hl
      have hle : (b : Int) ≤ p.batchSize := by
        rw [hsquare, hb] at hroom
        exact Int.le_of_mul_le_mul_left hroom (by omega)
      have hbl := length_of_mem_cuts hl
      omega

/-- Without build functions there is nothing to hand over, and only the slices matter. -/
theorem enumerates_iff_of_nil (hp : a.nodePartition view.myName = some p)
    (hlt : p.startIndex < p.endIndex) (hsize : 0 < p.batchSize)
    (hcount : p.batchCount = p.batchesNeeded) (hfuncs : a.taskBuildFuncs = []) :
    a.Enumerates view p ↔ 2 * p.batchCount - 1 ≤ view.aliveNodeIps.capacity := by
  have hpos := (Partition.batchesNeeded_pos hlt hsize).1
  have hiff : 2 * p.batchCount - 1 ≤ view.aliveNodeIps.capacity ↔
      2 * p.batchCount.toNat - 1 ≤ view.aliveNodeIps.capacity := by omega
  rw [hiff, ← inRange_iff (by omega), ← panic_ne_slice_iff_of_nil hp (by omega) hfuncs]
  refine ⟨fun h => h.inRange, fun h => ⟨h, ?_, ?_⟩⟩
  all_goals
    intro k hk
    simp [hfuncs] at hk

/-- In a list of distinct addresses nothing repeats. -/
theorem repeats_iff {L : List String} {start k : Nat} (hnd : L.Nodup) (hk : 0 < k)
    (hlen : start + k * k ≤ L.length) :
    (∀ i < k, ∀ j < k, L[i + j]? = L[start + i * k + j]?) ↔ start = 0 ∧ k = 1 := by
  have hkk : k * 1 ≤ k * k := Nat.mul_le_mul_left k hk
  constructor
  · intro h
    have hstart : 0 = start := by
      have hfirst := h 0 hk 0 hk
      simp only [Nat.zero_mul, Nat.add_zero] at hfirst
      have hlt : 0 < L.length := by omega
      exact (List.getElem?_inj hlt hnd).mp hfirst
    refine ⟨hstart.symm, ?_⟩
    by_contra hne
    have hsecond := h 1 (by omega) 0 hk
    simp only [Nat.one_mul, Nat.add_zero] at hsecond
    have hlt : 1 < L.length := by omega
    have heq := (List.getElem?_inj hlt hnd).mp hsecond
    omega
  · rintro ⟨rfl, rfl⟩ i hi j hj
    obtain rfl : i = 0 := by omega
    simp

/-- For distinct addresses only the first address alone repeats itself. -/
theorem repeats_iff_of_nodup (hnd : view.aliveNodeIps.elems.Nodup) (h0 : 0 ≤ p.startIndex)
    (hlt : p.startIndex < p.endIndex) (hlen : p.endIndex ≤ view.aliveNodeIps.elems.length)
    (hsize : 0 < p.batchSize) (hcount : p.batchCount = p.batchesNeeded) :
    Repeats view p ↔ p.startIndex = 0 ∧ p.endIndex = 1 := by
  have hpos := (Partition.batchesNeeded_pos hlt hsize).1
  obtain ⟨b, hb⟩ : ∃ b : Nat, p.batchCount = b := ⟨p.batchCount.toNat, by omega⟩
  have hbn : p.batchCount.toNat = b := by omega
  have hcast : ((b * b : Nat) : Int) = (b : Int) * b := Nat.cast_mul b b
  unfold Repeats
  rw [hbn, hb]
  constructor
  · rintro ⟨hsquare, hrepeat⟩
    obtain ⟨hstart, hone⟩ := (repeats_iff hnd (by omega) (by omega)).mp hrepeat
    rw [hone] at hsquare
    omega
  · rintro ⟨hstart, hend⟩
    have hone : b = 1 := by
      have hneed : p.batchesNeeded = 1 := by
        unfold Partition.batchesNeeded
        rw [hstart, hend]
        have hself : (1 : Int) - 0 + p.batchSize - 1 = p.batchSize := by ring
        rw [hself]
        exact Int.ediv_self (by omega)
      omega
    refine ⟨by rw [hone, hstart, hend]; rfl, ?_⟩
    exact (repeats_iff hnd (by omega) (by rw [hone]; omega)).mpr ⟨by omega, hone⟩

/-- When the batches that a round hands to the build functions enumerate the node's partition. For
distinct addresses that is only so if the partition is empty or is the first address. -/
theorem batches_enumerate_iff (hp : a.nodePartition view.myName = some p) (h0 : 0 ≤ p.startIndex)
    (hle : p.startIndex ≤ p.endIndex) (hlen : p.endIndex ≤ view.aliveNodeIps.elems.length)
    (hsize : 0 < p.batchSize) (hcount : p.batchCount = p.batchesNeeded) :
    (a.taskBuildFuncs ≠ [] → (a.Enumerates view p ↔
      p.startIndex = p.endIndex ∨ Repeats view p ∧ a.PutsAllButLast view p)) ∧
    (a.taskBuildFuncs ≠ [] → view.aliveNodeIps.elems.Nodup → (a.Enumerates view p ↔
      p.startIndex = p.endIndex ∨
        (p.startIndex = 0 ∧ p.endIndex = 1) ∧ a.PutsAllButLast view p)) ∧
    (a.taskBuildFuncs = [] → (a.Enumerates view p ↔
      p.startIndex = p.endIndex ∨ 2 * p.batchCount - 1 ≤ view.aliveNodeIps.capacity)) := by
  by_cases heq : p.startIndex = p.endIndex
  · have henum := enumerates_of_empty hp heq
      (hcount.trans (Partition.batchesNeeded_eq_zero heq hsize))
    exact ⟨fun _ => iff_of_true henum (Or.inl heq), fun _ _ => iff_of_true henum (Or.inl heq),
      fun _ => iff_of_true henum (Or.inl heq)⟩
  · have hlt : p.startIndex < p.endIndex := lt_of_le_of_ne hle heq
    have hiff := enumerates_iff_of_lt hp h0 hlt hlen hsize hcount
    simp only [heq, false_or]
    refine ⟨hiff, fun hfuncs hnd => ?_, enumerates_iff_of_nil hp hlt hsize hcount⟩
    rw [hiff hfuncs, repeats_iff_of_nodup hnd h0 hlt hlen hsize hcount]

/-- The node `a`, which sees two addresses. -/
def twoAddresses : View where
  myName := "a"
  aliveNodeNames := ["a", "b"]
  aliveNodeIps := { elems := ["10.0.0.1", "10.0.0.2"], capacity := 2, length_le := le_rfl }

/-- The node `a` has the partition from `lo` to `hi`, in one batch. -/
def ownPartition (lo hi : Int) : Partition where
  nodeName := "a"
  startIndex := lo
  endIndex := hi
  sortBy := "created_at"
  round := 1
  batchCount := 1
  batchSize := 1000

def ownAllocator (lo hi : Int) : Allocator Nat where
  nodePartition := Function.update (fun _ => none) "a" (some (ownPartition lo hi))
  taskBuildFuncs := [fun _ l => some [l.length]]

theorem nodePartition_ownAllocator (lo hi : Int) :
    (ownAllocator lo hi).nodePartition twoAddresses.myName = some (ownPartition lo hi) := by
  simp [ownAllocator, twoAddresses]

/-- The first address alone is enumerated. -/
theorem batches_enumerate_iff_first :
    (ownAllocator 0 1).nodePartition twoAddresses.myName = some (ownPartition 0 1) ∧
      (ownAllocator 0 1).Enumerates twoAddresses (ownPartition 0 1) := by
  have hp := nodePartition_ownAllocator 0 1
  have hputs : (ownAllocator 0 1).PutsAllButLast twoAddresses (ownPartition 0 1) := by
    intro index hindex l hl f hf
    obtain rfl : index = 0 := Nat.lt_one_iff.mp hindex
    cases hf
  refine ⟨hp, ((batches_enumerate_iff hp ?_ ?_ ?_ ?_ ?_).2.1 ?_ ?_).mpr (Or.inr ⟨⟨rfl, rfl⟩, hputs⟩)⟩
  all_goals decide

/-- A node whose partition is the second address hands the first one to its build function. -/
theorem second_address_skipped :
    (ownAllocator 1 2).nodePartition twoAddresses.myName = some (ownPartition 1 2) ∧
      (ownPartition 1 2).batchCount = (ownPartition 1 2).batchesNeeded ∧
      ((ownAllocator 1 2).roundRun twoAddresses).handed = [(0, ["10.0.0.1"])] ∧
      ¬ (ownAllocator 1 2).Enumerates twoAddresses (ownPartition 1 2) := by
  have hp := nodePartition_ownAllocator 1 2
  have hbatches : ((ownAllocator 1 2).roundRun twoAddresses).handed = [(0, ["10.0.0.1"])] := by
    rw [roundRun_eq hp]
    decide
  refine ⟨hp, by decide, hbatches, fun h => ?_⟩
  have hconcat := h.concat 0 (by decide)
  rw [hbatches] at hconcat
  exact absurd hconcat (by decide)

end Batches

/-! ## Cutting in line -/

section CutInLine

variable {T : Type} {l : List String}

/-- The number of batches of a list. -/
def cutCount (l : List String) : Nat :=
  (l.length + usingClusterThreshold - 1) / usingClusterThreshold

theorem mapM_eq_some_map {α β : Type} {f : α → Option β} {g : α → β} {l : List α}
    (h : ∀ x ∈ l, f x = some (g x)) : l.mapM f = some (l.map g) := by
  induction l with
  | nil => rfl
  | cons x l ih =>
    rw [List.mapM_cons, h x List.mem_cons_self, ih fun y hy => h y (List.mem_cons_of_mem _ hy)]
    rfl

/-- The batches are the pieces of 1024 addresses of the list without its last address. -/
theorem cutBatches_eq (hl : l ≠ []) :
    cutBatches l = some ((List.range (cutCount l)).map fun i =>
      (l.dropLast.drop (i * usingClusterThreshold)).take usingClusterThreshold) := by
  have hpos : 0 < l.length := List.length_pos_of_ne_nil hl
  unfold cutBatches
  apply mapM_eq_some_map
  intro i hi
  have hi : i < cutCount l := List.mem_range.mp hi
  show sliceOf l (i * usingClusterThreshold) (if i = cutCount l - 1 then l.length - 1
    else i * usingClusterThreshold + usingClusterThreshold) = _
  -- the end of a batch: the last one stops one address early
  have hstop : (if i = cutCount l - 1 then l.length - 1
      else i * usingClusterThreshold + usingClusterThreshold) =
      min (i * usingClusterThreshold + usingClusterThreshold) (l.length - 1) := by
    split_ifs with hlast
    all_goals
      simp only [cutCount, usingClusterThreshold] at hi hlast ⊢
      omega
  have hle : i * usingClusterThreshold ≤ l.length - 1 := by
    simp only [cutCount, usingClusterThreshold] at hi ⊢
    omega
  rw [hstop, sliceOf, if_pos ⟨by omega, by omega⟩, List.dropLast_eq_take, List.drop_take,
    List.take_take]
  congr 2
  omega

theorem flatten_cutBatches (hl : l ≠ []) {batches : List (List String)}
    (h : cutBatches l = some batches) : batches.flatten = l.dropLast := by
  have hpos : 0 < l.length := List.length_pos_of_ne_nil hl
  rw [cutBatches_eq hl, Option.some.injEq] at h
  rw [← h, flatten_pieces]
  apply List.take_of_length_le
  rw [List.length_dropLast]
  simp only [cutCount, usingClusterThreshold]
  omega

/-- The lists that a call of `cutInLine` has published, in order. -/
def published : List (Effect T) → List (List String)
  | [] => []
  | .publishJob _ [(_, .strings ipList)] :: rest => ipList :: published rest
  | _ :: rest => published rest

theorem published_of_puts {effects : List (Effect T)}
    (h : ∀ e ∈ effects, ∃ tasks sent, e = .put tasks sent) : published effects = [] := by
  induction effects with
  | nil => rfl
  | cons e rest ih =>
    obtain ⟨tasks, sent, rfl⟩ := h e List.mem_cons_self
    exact ih fun e' he' => h e' (List.mem_cons_of_mem _ he')

/-- The names are served in turn, as long as there are batches. -/
theorem publishBatches_eq (a : Allocator T) (names : List String) (batches : List (List String)) :
    published (a.publishBatches names batches).effects = batches.take names.length ∧
      ((a.publishBatches names batches).panic ≠ none ↔ batches.length < names.length) := by
  induction names generalizing batches with
  | nil => simp [publishBatches, published]
  | cons name names ih =>
    cases batches with
    | nil => simp [publishBatches, published]
    | cons ipList batches =>
      obtain ⟨hlists, hpanic⟩ := ih batches
      rw [publishBatches, Outcome.andThen_of_none rfl]
      simp only [List.singleton_append, published, List.length_cons, List.take_succ_cons]
      exact ⟨by rw [hlists], by rw [hpanic]; omega⟩

/-- A call of `cutInLine` hands over every position of the list exactly once: a short list as a whole
to every cut-in function, a long one in batches to the nodes. -/
structure HandsOver (a : Allocator T) (l : List String) (o : Outcome T) : Prop where
  inRange : o.panic = none
  locally : l ≠ [] → l.length ≤ usingClusterThreshold →
    (∀ k < a.cutInLineFuncs.length, handedTo o.handed k = [l]) ∧ published o.effects = []
  inBatches : usingClusterThreshold < l.length → (published o.effects).flatten = l

theorem cutInLine_short (a : Allocator T) (view : View) (hl : l ≠ [])
    (hshort : l.length ≤ usingClusterThreshold) :
    a.cutInLine view (.strings l) = .seq a (a.turns l [] 0 a.cutInLineFuncs) := by
  simp only [cutInLine, List.isEmpty_iff, hl, hshort, if_true, if_false, callFuncs_eq]

theorem handsOver_nil (a : Allocator T) (view : View) :
    a.HandsOver [] (a.cutInLine view (.strings [])) :=
  ⟨rfl, fun hne => absurd rfl hne, fun hlong => absurd hlong (Nat.not_lt_zero _)⟩

/-- A short list is handed over exactly if `Put` finds a bucket for every task. -/
theorem handsOver_short_iff (a : Allocator T) (view : View) (hl : l ≠ [])
    (hshort : l.length ≤ usingClusterThreshold) :
    a.HandsOver l (a.cutInLine view (.strings l)) ↔
      ∀ f ∈ a.cutInLineFuncs, ∀ tasks, f l = some tasks → ∀ t ∈ tasks, a.hasBucket (.built t) = true := by
  have hpanics : (∀ o ∈ a.turns l [] 0 a.cutInLineFuncs, o.panic = none) ↔
      ∀ f ∈ a.cutInLineFuncs, ∀ tasks, f l = some tasks →
        ∀ t ∈ tasks, a.hasBucket (.built t) = true := by
    rw [panic_turns_eq_none]
    simp
  rw [cutInLine_short a view hl hshort, ← hpanics]
  constructor
  · intro h
    exact Outcome.panic_seq_eq_none.mp h.inRange
  · intro h
    have hputs : published (Outcome.seq a (a.turns l [] 0 a.cutInLineFuncs)).effects = [] := by
      refine published_of_puts fun e he => ?_
      rw [← callFuncs_eq] at he
      obtain ⟨f, -, tasks, sent, -, rfl⟩ := mem_callFuncs he
      exact ⟨_, _, rfl⟩
    constructor
    case inRange => exact Outcome.panic_seq_eq_none.mpr h
    case locally =>
      intro _ _
      refine ⟨fun k hk => ?_, hputs⟩
      rw [Outcome.handed_seq fun o ho => h o (List.mem_of_mem_dropLast ho), handed_turns]
      exact handedTo_callsFor hk l
    case inBatches =>
      intro hlong
      exact absurd hshort (Nat.not_le.mpr hlong)

/-- A long list: the batches of the list without its last address, as far as there are nodes. -/
theorem cutInLine_long (a : Allocator T) (view : View) (hlong : usingClusterThreshold < l.length) :
    ∃ batches : List (List String), batches.flatten = l.dropLast ∧ batches.length = cutCount l ∧
      published (a.cutInLine view (.strings l)).effects = batches.take view.aliveNodeNames.length ∧
      ((a.cutInLine view (.strings l)).panic ≠ none ↔
        cutCount l < view.aliveNodeNames.length) := by
  have hl : l ≠ [] := List.ne_nil_of_length_pos (by omega)
  have hcut := cutBatches_eq hl
  set batches := (List.range (cutCount l)).map fun i =>
    (l.dropLast.drop (i * usingClusterThreshold)).take usingClusterThreshold with hbatches
  have hlen : batches.length = cutCount l := by
    rw [hbatches, List.length_map, List.length_range]
  obtain ⟨hlists, hpanic⟩ := publishBatches_eq a view.aliveNodeNames batches
  refine ⟨batches, flatten_cutBatches hl hcut, hlen, ?_, ?_⟩
  · simp only [cutInLine, List.isEmpty_iff, hl, if_false, Nat.not_le.mpr hlong, hcut]
    exact hlists
  · simp only [cutInLine, List.isEmpty_iff, hl, if_false, Nat.not_le.mpr hlong, hcut]
    rw [hpanic, hlen]

/-- A list that cuts in line is handed over exactly if it is empty, or is short enough for one node and
its cut-in functions return no task without a bucket. The last address of a longer one is in no batch,
and there is a panic if there are more nodes than batches. -/
theorem cutInLine_handsOver_iff (a : Allocator T) (view : View) (l : List String) :
    (a.HandsOver l (a.cutInLine view (.strings l)) ↔
      l = [] ∨ l.length ≤ usingClusterThreshold ∧
        ∀ f ∈ a.cutInLineFuncs, ∀ tasks, f l = some tasks →
          ∀ t ∈ tasks, a.hasBucket (.built t) = true) ∧
    (usingClusterThreshold < l.length →
      (published (a.cutInLine view (.strings l)).effects).flatten <+: l.dropLast ∧
      ((a.cutInLine view (.strings l)).panic ≠ none ↔
        cutCount l < view.aliveNodeNames.length)) := by
  have hlost : usingClusterThreshold < l.length →
      (published (a.cutInLine view (.strings l)).effects).flatten <+: l.dropLast := by
    intro hlong
    obtain ⟨batches, hflat, -, hlists, -⟩ := cutInLine_long a view hlong
    rw [hlists, ← hflat]
    exact (List.take_prefix _ _).flatten
  refine ⟨⟨fun h => ?_, ?_⟩, fun hlong => ⟨hlost hlong, ?_⟩⟩
  · by_cases hl : l = []
    · exact Or.inl hl
    · have hshort : l.length ≤ usingClusterThreshold := by
        by_contra hlong
        have hlong : usingClusterThreshold < l.length := Nat.not_le.mp hlong
        have hle := (hlost hlong).length_le
        rw [h.inBatches hlong, List.length_dropLast] at hle
        omega
      exact Or.inr ⟨hshort, (handsOver_short_iff a view hl hshort).mp h⟩
  · intro h
    by_cases hl : l = []
    · rw [hl]
      exact handsOver_nil a view
    · obtain ⟨hshort, hputs⟩ := h.resolve_left hl
      exact (handsOver_short_iff a view hl hshort).mpr hputs
  · obtain ⟨batches, -, -, -, hpanic⟩ := cutInLine_long a view hlong
    exact hpanic

/-- Two batches for two nodes: 1025 addresses, of which the last is in neither. -/
theorem last_address_lost :
    twoAddresses.aliveNodeNames = ["a", "b"] ∧
      ¬ (({} : Allocator Nat).HandsOver (List.replicate 1025 "10.0.0.1")
        (({} : Allocator Nat).cutInLine twoAddresses
          (.strings (List.replicate 1025 "10.0.0.1")))) := by
  refine ⟨rfl, fun h => ?_⟩
  have hlong : usingClusterThreshold < (List.replicate 1025 "10.0.0.1").length := by
    rw [List.length_replicate]
    decide
  obtain ⟨batches, hflat, -, hlists, -⟩ :=
    cutInLine_long ({} : Allocator Nat) twoAddresses hlong
  have hle : (batches.take twoAddresses.aliveNodeNames.length).flatten.length ≤
      batches.flatten.length := (List.take_prefix _ _).flatten.length_le
  have hall := h.inBatches hlong
  rw [hlists] at hall
  rw [hall, hflat, List.length_dropLast, List.length_replicate] at hle
  omega

end CutInLine

end Allocator

end OwnX.Task
