import OwnX.Basic.ListClients
import OwnX.Basic.Proofs.LinkedListProofs
import OwnX.Foundations.Proofs.LinearizabilityProofs
import Mathlib.Data.List.Permutation

/-!
# Linked lists shared by several clients

As long as the tests of `AddBefore` still hold in its critical section, every call takes effect in its
last step. When they do not, the element ends up in a place it has in no order of the calls.
-/

namespace OwnX.Basic.LinkedList

variable {V : Type} [BEq V] {this : LinkedList V} {vs : List (Option V)}

/-! ## Where the tests hold -/

/-- A critical section whose test still holds does what `AddBefore` does without interruption. -/
theorem addBeforeStep_of_test {index : Int} {stage : Stage} (v : Option V)
    (h : this.addBeforeTest index = some stage) :
    this.addBeforeStep index v stage =
      (this.exec (.addBefore index v)).map fun r => (r.1, .inr r.2) := by
  rw [exec, addBefore]
  unfold addBeforeTest at h
  split at h
  · exact absurd h (by simp)
  · next hin =>
    rw [if_neg hin]
    split at h
    · next hend =>
      obtain rfl := Option.some.inj h
      rw [if_pos hend, addBeforeStep, Option.map_map, Option.map_map]
      rfl
    · next hend =>
      obtain rfl := Option.some.inj h
      rw [if_neg hend, addBeforeStep, Option.map_map]
      rfl

/-- So does a call that fails its tests. -/
theorem addBeforeStep_of_none {index : Int} (v : Option V) (h : this.addBeforeTest index = none) :
    this.addBeforeStep index v .start =
      (this.exec (.addBefore index v)).map fun r => (r.1, .inr r.2) := by
  have hout : index < 0 ∨ index > this.size := by
    by_contra hin
    simp only [addBeforeTest, if_neg hin] at h
    split at h <;> exact absurd h (by simp)
  rw [addBeforeStep, h, exec, addBefore, if_pos hout]
  rfl

theorem explains_exec (h : this.Represents vs) (op : Op V) :
    ∃ y, (this.exec op).map (fun r => (r.1, (.inr r.2 : Stage ⊕ Ret V))) = some y ∧
      SharedObject.Explains (listType V) Represents vs op y := by
  obtain ⟨r, hr⟩ : ∃ r, r = execList vs op := ⟨_, rfl⟩
  obtain ⟨this', hexec, hrep⟩ := simulates.exec this vs op r.1 r.2 h (congrArg some hr.symm)
  have hthis : this.exec op = some (this', r.2) := hexec
  refine ⟨(this', .inr r.2), ?_, r.1, congrArg some hr.symm, hrep⟩
  rw [hthis, Option.map_some]

theorem commitsLast : (shared V).CommitsLast (listType V) Represents TestHolds where
  init := simulates.init
  step := by
    intro this vs op stage h hfit
    cases op with
    | addBefore index v =>
      simp only [shared, callStep]
      rcases hfit with rfl | htest
      · cases htest : this.addBeforeTest index with
        | none =>
          rw [addBeforeStep_of_none v htest]
          exact explains_exec h _
        | some stage =>
          simp only [addBeforeStep, htest]
          exact ⟨_, rfl, h⟩
      · rw [addBeforeStep_of_test v htest]
        exact explains_exec h _
    | size => exact explains_exec h .size
    | _ => exact explains_exec h _

/-- In every run in which the tests of `AddBefore` still hold when it enters its critical section, the
list and all returned values are those of an order of the calls that respects their starts and ends. No
call gets stuck. -/
theorem clients_linearizable {s : Clients (LinkedList V) (Op V) Stage (Ret V)}
    (h : (shared V).clients.ReachableWhen (SharedObject.Fitting TestHolds) s) :
    (∃ vs, s.object.Represents vs ∧ Linearizable (listType V) s.history vs) ∧
    ∀ k op stage, s.calls[k]? = some (.running op stage) → s.object.TestHolds op stage →
      ∃ s', (shared V).clients.step s (.advance k) = some s' :=
  ⟨commitsLast.linearizable h, fun _ _ _ hk hfit => commitsLast.advances h hk hfit⟩

/-- The tests of `AddBefore(0, 2)` see two elements, `RemoveLast` takes the second one away, and the
critical section still finds the first: the list is `2, 0`. -/
theorem clients_linearizable_overlap :
    ∃ s, (shared Nat).clients.ReachableWhen (SharedObject.Fitting TestHolds) s ∧
      s.object.loop (fun _ => true) = some [(0, some 2), (1, some 0)] ∧
      ∃ vs, s.object.Represents vs ∧ Linearizable (listType Nat) s.history vs := by
  have hrun : (((shared Nat).clients.restrict (SharedObject.Fitting TestHolds)).run { object := {} }
      [.invoke (.addLast (some 0)), .advance 0, .invoke (.addLast (some 1)), .advance 1,
       .invoke (.addBefore 0 (some 2)), .advance 2, .invoke .removeLast, .advance 3,
       .advance 2]).map (fun s => s.object.loop fun _ => true) =
      some (some [(0, some 2), (1, some 0)]) := by
    decide
  obtain ⟨s, hs, hloop⟩ := Machine.observedWhen_of_run hrun rfl
  exact ⟨s, hs, hloop, (clients_linearizable hs).1⟩

/-! ## Where they do not -/

omit [BEq V] in
/-- A callback that never stops is shown the whole sequence. -/
theorem visitList_all (step index : Int) (calls : List (Int × Option V)) (l : List (Option V)) :
    (visitList step (fun _ => true) index calls l).map Prod.snd = calls.map Prod.snd ++ l := by
  induction l generalizing index calls with
  | nil => simp [visitList]
  | cons v l ih => simp [visitList, ih]

/-- What `Loop` shows of a list is the sequence it stands for. -/
theorem Represents.eq_of_loop {calls : List (Int × Option V)} (h : this.Represents vs)
    (hloop : this.loop (fun _ => true) = some calls) : vs = calls.map Prod.snd := by
  obtain ⟨this', hexec, -⟩ := simulates.exec this vs (.loop fun _ => true) _ _ h rfl
  simp only [dataType, exec, hloop, Option.map_some, Option.some.injEq, Prod.mk.injEq,
    Ret.calls.injEq] at hexec
  rw [hexec.2, visitList_all]
  rfl

/-- Elements 0 and 1 are added; the tests of `AddBefore(1, 2)` see two elements; `RemoveLast` takes 1
away; and the critical section of `AddBefore` finds only the node of 0, and inserts before it. -/
def overtaken : List (ClientEvent (Op Nat)) :=
  [.invoke (.addLast (some 0)), .advance 0, .respond 0,
   .invoke (.addLast (some 1)), .advance 1, .respond 1,
   .invoke (.addBefore 1 (some 2)), .advance 2,
   .invoke .removeLast, .advance 3, .respond 3,
   .advance 2, .respond 2]

/-- The calls of that run, with their results. -/
def overtakenCall : Nat → Completed (Op Nat) (Ret Nat)
  | 0 => ⟨0, .addLast (some 0), .unit⟩
  | 1 => ⟨1, .addLast (some 1), .unit⟩
  | 2 => ⟨2, .addBefore 1 (some 2), .error none⟩
  | k => ⟨k, .removeLast, .value (some 1)⟩

/-- Its history. -/
def overtakenHistory : List (Observation (Op Nat) (Ret Nat)) :=
  [.invoke 0 (.addLast (some 0)), .respond 0 .unit, .invoke 1 (.addLast (some 1)), .respond 1 .unit,
   .invoke 2 (.addBefore 1 (some 2)), .invoke 3 .removeLast, .respond 3 (.value (some 1)),
   .respond 2 (.error none)]

/-- A linearization puts the four calls in some order. -/
theorem overtaken_order {x : List (Option Nat)} {order : List (Completed (Op Nat) (Ret Nat))}
    (h : Linearization (listType Nat) overtakenHistory x order) :
    ∃ ks ∈ [0, 1, 2, 3].permutations', order = ks.map overtakenCall := by
  have hcall : ∀ c ∈ order, c.call ∈ [0, 1, 2, 3] ∧ overtakenCall c.call = c := by
    rintro ⟨k, op, r⟩ hc
    have hop := h.invoked _ hc
    have hret : ∀ r', .respond k r' ∈ overtakenHistory → r = r' := fun r' hr => h.ret_eq hc hr
    simp only [overtakenHistory, List.mem_cons, Observation.invoke.injEq, reduceCtorEq,
      List.not_mem_nil, or_false, false_or] at hop
    rcases hop with ⟨rfl, rfl⟩ | ⟨rfl, rfl⟩ | ⟨rfl, rfl⟩ | ⟨rfl, rfl⟩
    · obtain rfl := hret .unit (by simp [overtakenHistory])
      exact ⟨by simp, rfl⟩
    · obtain rfl := hret .unit (by simp [overtakenHistory])
      exact ⟨by simp, rfl⟩
    · obtain rfl := hret (.error none) (by simp [overtakenHistory])
      exact ⟨by simp, rfl⟩
    · obtain rfl := hret (.value (some 1)) (by simp [overtakenHistory])
      exact ⟨by simp, rfl⟩
  have hmem : ∀ k, k ∈ order.map Completed.call ↔ k ∈ [0, 1, 2, 3] := by
    intro k
    constructor
    · intro hk
      obtain ⟨c, hc, rfl⟩ := List.mem_map.1 hk
      exact (hcall c hc).1
    · intro hk
      have hreturned : ∃ r, Observation.respond k r ∈ overtakenHistory := by
        simp only [List.mem_cons, List.not_mem_nil, or_false] at hk
        rcases hk with rfl | rfl | rfl | rfl <;> exact ⟨_, by simp [overtakenHistory]; rfl⟩
      obtain ⟨r, hr⟩ := hreturned
      obtain ⟨op, hc⟩ := h.returned k r hr
      exact List.mem_map.2 ⟨_, hc, rfl⟩
  refine ⟨order.map Completed.call, ?_, ?_⟩
  · rw [List.mem_permutations']
    exact (List.perm_ext_iff_of_nodup h.nodup (by decide)).2 hmem
  · rw [List.map_map]
    calc order = order.map id := (List.map_id order).symm
      _ = order.map (overtakenCall ∘ Completed.call) :=
        List.map_congr_left fun c hc => (hcall c hc).2.symm

theorem overtaken_run :
    ((shared Nat).clients.run { object := {} } overtaken).map
      (fun s => (s.history, s.object.loop fun _ => true)) =
    some (overtakenHistory, some [(0, some 2), (1, some 0)]) := by
  rfl

/-- Clients reach a list and results that no order of their calls explains. -/
theorem clients_not_linearizable :
    ∃ s, (shared Nat).clients.Reachable s ∧
      ¬∃ vs, s.object.Represents vs ∧ Linearizable (listType Nat) s.history vs := by
  obtain ⟨s, hs, hobs⟩ := Machine.observed_of_run overtaken_run rfl
  obtain ⟨hhistory, hloop⟩ := Prod.mk.inj hobs
  refine ⟨s, hs, ?_⟩
  rintro ⟨vs, hrep, order, hlin⟩
  rw [hrep.eq_of_loop hloop, hhistory] at hlin
  obtain ⟨ks, hks, rfl⟩ := overtaken_order hlin
  have hnone : ∀ ks ∈ [0, 1, 2, 3].permutations',
      (listType Nat).run [] ((ks.map overtakenCall).map Completed.op) ≠
        some ([some 2, some 0], (ks.map overtakenCall).map Completed.ret) := by
    decide
  exact hnone ks hks hlin.run

end OwnX.Basic.LinkedList
