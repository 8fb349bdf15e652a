import OwnX.Foundations.Linearizability
import OwnX.Foundations.Proofs.MachineProofs
import OwnX.Foundations.Proofs.RefinementProofs
import Mathlib.Data.List.Nodup

/-!
# Proofs: objects whose calls take effect in their last step

If every step of a call but the last leaves the value alone, and the last one carries the operation
out, then the calls are linearizable, in the order of their last steps.
-/

namespace OwnX

/-- A call that has returned has its result in every linearization. -/
theorem Linearization.ret_eq {X O R : Type} {E : DataType X O R} {h : List (Observation O R)} {x : X}
    {order : List (Completed O R)} {c : Completed O R} {r : R} (hlin : Linearization E h x order)
    (hc : c ∈ order) (hr : .respond c.call r ∈ h) : c.ret = r := by
  obtain ⟨op, hc'⟩ := hlin.returned c.call r hr
  have heq : c = ⟨c.call, op, r⟩ := List.inj_on_of_nodup_map hlin.nodup hc hc' rfl
  exact congrArg Completed.ret heq

namespace SharedObject

variable {S X O L R : Type} {Ob : SharedObject S O L R} {E : DataType X O R}
  {rel : S → X → Prop} {fits : S → O → L → Prop} {s s' : Clients S O L R} {x x' : X}
  {order : List (Completed O R)}

/-- A step of a call, as the data type sees it. -/
def Explains (E : DataType X O R) (rel : S → X → Prop) (x : X) (op : O) (y : S × (L ⊕ R)) : Prop :=
  match y.2 with
  | .inl _ => rel y.1 x
  | .inr ret => ∃ x', E.exec x op = some (x', ret) ∧ rel y.1 x'

/-- Every step that fits takes place, and does so as the data type explains it. -/
structure CommitsLast (Ob : SharedObject S O L R) (E : DataType X O R) (rel : S → X → Prop)
    (fits : S → O → L → Prop) : Prop where
  init : rel Ob.init E.init
  step : ∀ v x op stage, rel v x → fits v op stage →
    ∃ y, Ob.step v op stage = some y ∧ Explains E rel x op y

/-- The operation of a call. -/
def opOf : CallState O L R → O
  | .running op _ | .finished op _ | .returned op _ => op

/-- The calls of `order` are those that have a result; the others have had no effect. -/
structure Ordered (E : DataType X O R) (rel : S → X → Prop) (s : Clients S O L R) (x : X)
    (order : List (Completed O R)) : Prop where
  rel : rel s.object x
  nodup : (order.map Completed.call).Nodup
  run : E.run E.init (order.map Completed.op) = some (x, order.map Completed.ret)
  mem : ∀ k op r, ⟨k, op, r⟩ ∈ order ↔
    s.calls[k]? = some (.finished op r) ∨ s.calls[k]? = some (.returned op r)
  invoke : ∀ k op, .invoke k op ∈ s.history ↔ s.calls[k]?.map opOf = some op
  respond : ∀ k r, .respond k r ∈ s.history → ∃ op, s.calls[k]? = some (.returned op r)
  respects : ∀ i j r op, [.respond i r, .invoke j op].Sublist s.history →
    j ∈ order.map Completed.call → [i, j].Sublist (order.map Completed.call)

theorem Ordered.returned (h : Ordered E rel s x order) {k : Nat} {r : R}
    (hr : .respond k r ∈ s.history) : ∃ op, ⟨k, op, r⟩ ∈ order := by
  obtain ⟨op, hk⟩ := h.respond k r hr
  exact ⟨op, (h.mem k op r).2 (Or.inr hk)⟩

theorem Ordered.linearization (h : Ordered E rel s x order) : Linearization E s.history x order where
  nodup := h.nodup
  invoked := by
    rintro ⟨k, op, r⟩ hc
    rw [h.invoke]
    rcases (h.mem k op r).1 hc with hk | hk
    · rw [hk, Option.map_some, opOf]
    · rw [hk, Option.map_some, opOf]
  returned := fun _ _ => h.returned
  run := h.run
  respects := h.respects

/-! ## The steps -/

/-- Nothing that ends in another element than `c` is new in `l ++ [c]`. -/
theorem sublist_of_concat {α : Type} {a b c : α} {l : List α} (h : [a, b].Sublist (l ++ [c]))
    (hne : b ≠ c) : [a, b].Sublist l := by
  obtain ⟨l₁, l₂, heq, h₁, h₂⟩ := List.sublist_append_iff.1 h
  rcases List.sublist_singleton.1 h₂ with rfl | rfl
  · rw [List.append_nil] at heq
    exact heq ▸ h₁
  · have hlast : [a, b].getLast? = some c := by rw [heq, List.getLast?_concat]
    exact absurd (Option.some.inj hlast) hne

/-- The calls after a new one. -/
theorem getElem?_concat_call {α : Type} (l : List α) (a : α) (k : Nat) :
    (l ++ [a])[k]? = if k = l.length then some a else l[k]? := by
  rcases Nat.lt_trichotomy k l.length with hk | rfl | hk
  · rw [if_neg (Nat.ne_of_lt hk), List.getElem?_append_left hk]
  · rw [if_pos rfl, List.getElem?_concat_length]
  · rw [if_neg (Nat.ne_of_gt hk), List.getElem?_eq_none (Nat.le_of_lt hk), List.getElem?_eq_none]
    rw [List.length_append]
    exact hk

/-- The calls after one of them has changed. -/
theorem getElem?_set_call {α : Type} {l : List α} {k : Nat} {a : α} (hk : l[k]? = some a) (b : α)
    (k' : Nat) : (l.set k b)[k']? = if k' = k then some b else l[k']? := by
  by_cases hkk : k' = k
  · subst hkk
    rw [if_pos rfl, List.getElem?_set_self (List.getElem?_eq_some_iff.1 hk).1]
  · rw [if_neg hkk, List.getElem?_set_ne (Ne.symm hkk)]

/-- A call keeps its operation. -/
theorem map_opOf_set {k : Nat} {c : CallState O L R} (hk : s.calls[k]? = some c)
    (c' : CallState O L R) (hop : opOf c' = opOf c) (k' : Nat) :
    (s.calls.set k c')[k']?.map opOf = s.calls[k']?.map opOf := by
  rw [getElem?_set_call hk]
  split
  · next hkk => rw [hkk, hk, Option.map_some, Option.map_some, hop]
  · rfl

theorem Ordered.call_lt (h : Ordered E rel s x order) {k : Nat}
    (hk : k ∈ order.map Completed.call) : k < s.calls.length := by
  obtain ⟨⟨k, op, r⟩, hc, rfl⟩ := List.mem_map.1 hk
  rcases (h.mem k op r).1 hc with hk | hk <;> exact (List.getElem?_eq_some_iff.1 hk).1

/-- A new call is not in the order. -/
theorem Ordered.invoked (h : Ordered E rel s x order) (op : O) (stage : L) :
    Ordered E rel { s with
      calls := s.calls ++ [.running op stage]
      history := s.history ++ [.invoke s.calls.length op] } x order where
  rel := h.rel
  nodup := h.nodup
  run := h.run
  mem := by
    intro k op' r
    rw [h.mem, getElem?_concat_call]
    split
    · next hk => simp [hk]
    · rfl
  invoke := by
    intro k op'
    rw [List.mem_append, h.invoke, getElem?_concat_call]
    split
    · next hk => simp [hk, opOf, eq_comm]
    · next hk => simp [hk]
  respond := by
    intro k r hr
    obtain ⟨op', hk⟩ := h.respond k r (by simpa using hr)
    exact ⟨op', by rw [List.getElem?_append_left (List.getElem?_eq_some_iff.1 hk).1, hk]⟩
  respects := by
    intro i j r op' hsub hj
    refine h.respects i j r op' (sublist_of_concat hsub ?_) hj
    intro heq
    obtain ⟨rfl, -⟩ := Observation.invoke.inj heq
    exact absurd (h.call_lt hj) (Nat.lt_irrefl _)

/-- A step that leaves the value alone moves a call to another stage. -/
theorem Ordered.moved {v : S} {k : Nat} {op : O} {stage stage' : L} (h : Ordered E rel s x order)
    (hk : s.calls[k]? = some (.running op stage)) (hrel : rel v x) :
    Ordered E rel { s with object := v, calls := s.calls.set k (.running op stage') } x order where
  rel := hrel
  nodup := h.nodup
  run := h.run
  mem := by
    intro k' op' r
    rw [h.mem, getElem?_set_call hk]
    split
    · next hkk => simp [hkk, hk]
    · rfl
  invoke := by
    intro k' op'
    rw [h.invoke, map_opOf_set hk (.running op stage') rfl]
  respond := by
    intro k' r hr
    obtain ⟨op', hk'⟩ := h.respond k' r hr
    refine ⟨op', ?_⟩
    rw [getElem?_set_call hk, if_neg, hk']
    rintro rfl
    simp [hk] at hk'
  respects := h.respects

/-- The step that carries the operation out puts the call at the end of the order. -/
theorem Ordered.committed {v : S} {k : Nat} {op : O} {stage : L} {r : R} (h : Ordered E rel s x order)
    (hk : s.calls[k]? = some (.running op stage)) (hexec : E.exec x op = some (x', r))
    (hrel : rel v x') :
    Ordered E rel { s with object := v, calls := s.calls.set k (.finished op r) } x'
      (order ++ [⟨k, op, r⟩]) where
  rel := hrel
  nodup := by
    have hnew : k ∉ order.map Completed.call := by
      intro hmem
      obtain ⟨⟨k, op', r'⟩, hc, rfl⟩ := List.mem_map.1 hmem
      have hdone := (h.mem k op' r').1 hc
      simp [hk] at hdone
    rw [List.map_append, List.map_singleton, ← List.concat_eq_append]
    exact h.nodup.concat hnew
  run := by
    rw [List.map_append, List.map_append]
    exact DataType.run_concat h.run hexec
  mem := by
    intro k' op' r'
    rw [List.mem_append, h.mem, getElem?_set_call hk]
    split
    · next hkk => simp [hkk, hk, eq_comm]
    · next hkk => simp [hkk]
  invoke := by
    intro k' op'
    rw [h.invoke, map_opOf_set hk (.finished op r) rfl]
  respond := by
    intro k' r' hr
    obtain ⟨op', hk'⟩ := h.respond k' r' hr
    refine ⟨op', ?_⟩
    rw [getElem?_set_call hk, if_neg, hk']
    rintro rfl
    simp [hk] at hk'
  respects := by
    intro i j r' op' hsub hj
    rw [List.map_append, List.mem_append] at hj
    rw [List.map_append]
    rcases hj with hj | hj
    · exact (h.respects i j r' op' hsub hj).trans (List.sublist_append_left _ _)
    · -- a call that returned before this one was made is in the order already
      obtain ⟨op'', hi⟩ := h.returned (hsub.subset List.mem_cons_self)
      have hleft : [i].Sublist (order.map Completed.call) :=
        List.singleton_sublist.2 (List.mem_map.2 ⟨_, hi, rfl⟩)
      rw [List.mem_singleton.1 hj]
      exact hleft.append (List.Sublist.refl [k])

/-- A result that is returned is that of a call in the order. -/
theorem Ordered.responded {k : Nat} {op : O} {r : R} (h : Ordered E rel s x order)
    (hk : s.calls[k]? = some (.finished op r)) :
    Ordered E rel { s with
      calls := s.calls.set k (.returned op r)
      history := s.history ++ [.respond k r] } x order where
  rel := h.rel
  nodup := h.nodup
  run := h.run
  mem := by
    intro k' op' r'
    rw [h.mem, getElem?_set_call hk]
    split
    · next hkk => simp [hkk, hk]
    · rfl
  invoke := by
    intro k' op'
    rw [List.mem_append, h.invoke, map_opOf_set hk (.returned op r) rfl]
    simp
  respond := by
    intro k' r' hr
    rw [getElem?_set_call hk]
    rcases List.mem_append.1 hr with hr | hr
    · obtain ⟨op', hk'⟩ := h.respond k' r' hr
      refine ⟨op', ?_⟩
      rw [if_neg, hk']
      rintro rfl
      simp [hk] at hk'
    · obtain ⟨rfl, rfl⟩ := Observation.respond.inj (List.mem_singleton.1 hr)
      exact ⟨op, if_pos rfl⟩
  respects := by
    intro i j r' op' hsub hj
    exact h.respects i j r' op' (sublist_of_concat hsub (by simp)) hj

/-! ## The runs -/

/-- What a step of the clients is. -/
theorem clientStep_cases {e : ClientEvent O} (hs : Ob.clientStep s e = some s') :
    (∃ op, s' = { s with
      calls := s.calls ++ [.running op Ob.start]
      history := s.history ++ [.invoke s.calls.length op] }) ∨
    (∃ k op stage v res, e = .advance k ∧ s.calls[k]? = some (.running op stage) ∧
      Ob.step s.object op stage = some (v, res) ∧
      s' = { s with object := v, calls := s.calls.set k (after op res) }) ∨
    ∃ k op r, s.calls[k]? = some (.finished op r) ∧ s' = { s with
      calls := s.calls.set k (.returned op r)
      history := s.history ++ [.respond k r] } := by
  cases e with
  | invoke op => exact Or.inl ⟨op, (Option.some.inj hs).symm⟩
  | advance k =>
    rw [clientStep] at hs
    split at hs
    · next op stage hk =>
      obtain ⟨⟨v, res⟩, hv, rfl⟩ := Option.map_eq_some_iff.1 hs
      exact Or.inr (Or.inl ⟨k, op, stage, v, res, rfl, hk, hv, rfl⟩)
    · exact absurd hs (by simp)
  | respond k =>
    rw [clientStep] at hs
    split at hs
    · next op r hk => exact Or.inr (Or.inr ⟨k, op, r, hk, (Option.some.inj hs).symm⟩)
    · exact absurd hs (by simp)

theorem fits_of_fitting {k : Nat} {op : O} {stage : L} (h : Fitting fits s (.advance k))
    (hk : s.calls[k]? = some (.running op stage)) : fits s.object op stage := by
  simpa only [Fitting, hk] using h

theorem CommitsLast.ordered (hOb : CommitsLast Ob E rel fits)
    (h : Ob.clients.ReachableWhen (Fitting fits) s) : ∃ x order, Ordered E rel s x order := by
  refine h.invariant (fun s => ∃ x order, Ordered E rel s x order) ?_ ?_
  · rintro s rfl
    exact ⟨E.init, [], hOb.init, List.nodup_nil, rfl, by simp, by simp, by simp, by simp⟩
  · rintro s e s' - ⟨x, order, hord⟩ hfit hs
    rcases clientStep_cases hs with
      ⟨op, rfl⟩ | ⟨k, op, stage, v, res, rfl, hk, hv, rfl⟩ | ⟨k, op, r, hk, rfl⟩
    · exact ⟨x, order, hord.invoked op Ob.start⟩
    · obtain ⟨y, hstep, hexplains⟩ := hOb.step _ _ op stage hord.rel (fits_of_fitting hfit hk)
      obtain rfl : (v, res) = y := Option.some.inj (hv.symm.trans hstep)
      cases res with
      | inl stage' => exact ⟨x, order, hord.moved hk hexplains⟩
      | inr r =>
        obtain ⟨x', hexec, hrel⟩ := hexplains
        exact ⟨x', _, hord.committed hk hexec hrel⟩
    · exact ⟨x, order, hord.responded hk⟩

/-- The object is linearizable in every run whose steps fit. -/
theorem CommitsLast.linearizable (hOb : CommitsLast Ob E rel fits)
    (h : Ob.clients.ReachableWhen (Fitting fits) s) :
    ∃ x, rel s.object x ∧ Linearizable E s.history x := by
  obtain ⟨x, order, hord⟩ := hOb.ordered h
  exact ⟨x, hord.rel, order, hord.linearization⟩

/-- A call that has no result yet can take a step that fits. -/
theorem CommitsLast.advances (hOb : CommitsLast Ob E rel fits)
    (h : Ob.clients.ReachableWhen (Fitting fits) s) {k : Nat} {op : O} {stage : L}
    (hk : s.calls[k]? = some (.running op stage)) (hfit : fits s.object op stage) :
    ∃ s', Ob.clients.step s (.advance k) = some s' := by
  obtain ⟨x, order, hord⟩ := hOb.ordered h
  obtain ⟨y, hstep, -⟩ := hOb.step _ _ op stage hord.rel hfit
  exact ⟨_, by simp only [clients, clientStep, hk, hstep, Option.map_some]; rfl⟩

/-! ## Invariants -/

/-- The invariant rule for shared objects: `Loc` says what a call relies on in a stage, and no step of
another call takes it away. -/
theorem clients_invariant (Inv : S → Prop) (Loc : S → L → Prop) (hinit : Inv Ob.init)
    (hstart : ∀ v, Loc v Ob.start)
    (hstep : ∀ v op stage v' res, Inv v → Loc v stage → fits v op stage →
      Ob.step v op stage = some (v', res) → Inv v' ∧ (∀ stage', res = .inl stage' → Loc v' stage') ∧
      ∀ stage', Loc v stage' → Loc v' stage')
    (h : Ob.clients.ReachableWhen (Fitting fits) s) : Inv s.object := by
  have hinv : Inv s.object ∧ ∀ op stage, .running op stage ∈ s.calls → Loc s.object stage := by
    refine h.invariant
      (fun s => Inv s.object ∧ ∀ op stage, .running op stage ∈ s.calls → Loc s.object stage) ?_ ?_
    · rintro s rfl
      exact ⟨hinit, by simp⟩
    · rintro s e s' - ⟨hinv, hloc⟩ hfit hs
      rcases clientStep_cases hs with
        ⟨op, rfl⟩ | ⟨k, op, stage, v, res, rfl, hk, hv, rfl⟩ | ⟨k, op, r, hk, rfl⟩
      · refine ⟨hinv, fun op' stage hmem => ?_⟩
        rcases List.mem_append.1 hmem with hmem | hmem
        · exact hloc op' stage hmem
        · obtain ⟨-, rfl⟩ := CallState.running.inj (List.mem_singleton.1 hmem)
          exact hstart s.object
      · obtain ⟨hinv', hnext, hothers⟩ := hstep _ _ _ _ _ hinv
          (hloc op stage (List.mem_of_getElem? hk)) (fits_of_fitting hfit hk) hv
        refine ⟨hinv', fun op' stage' hmem => ?_⟩
        rcases List.mem_or_eq_of_mem_set hmem with hmem | heq
        · exact hothers stage' (hloc op' stage' hmem)
        · cases res with
          | inl stage'' =>
            obtain ⟨-, rfl⟩ := CallState.running.inj heq
            exact hnext _ rfl
          | inr r => exact absurd heq (by simp [after])
      · refine ⟨hinv, fun op' stage' hmem => ?_⟩
        rcases List.mem_or_eq_of_mem_set hmem with hmem | heq
        · exact hloc op' stage' hmem
        · exact absurd heq (by simp)
  exact hinv.1

end SharedObject

end OwnX
