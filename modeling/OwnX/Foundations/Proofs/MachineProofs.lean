import OwnX.Foundations.Machine

/-!
# Proofs: rules for the runs of a machine

The invariant rule, the projection to another machine, and the rule that adds a history to a run.
-/

namespace OwnX.Machine

variable {σ ε η : Type} {M : Machine σ ε} {ok ok' : σ → ε → Prop}

/-- The invariant rule: what holds initially and is kept by every step that meets the condition
holds in every state such a run reaches. -/
theorem ReachableWhen.invariant (Inv : σ → Prop) (hinit : ∀ s, M.init s → Inv s)
    (hstep : ∀ s e s', M.ReachableWhen ok s → Inv s → ok s e → M.step s e = some s' → Inv s')
    {s : σ} (h : M.ReachableWhen ok s) : Inv s := by
  induction h with
  | init h => exact hinit _ h
  | step hr hok hs ih => exact hstep _ _ _ hr ih hok hs

theorem run_cons {s s' : σ} {e : ε} {es : List ε} (h : M.step s e = some s') :
    M.run s (e :: es) = M.run s' es := by
  rw [run, h]
  rfl

theorem run_append {s s' : σ} {es es' : List ε} (h : M.run s es = some s') :
    M.run s (es ++ es') = M.run s' es' := by
  induction es generalizing s with
  | nil => rw [← Option.some.inj h, List.nil_append]
  | cons e es ih =>
    obtain ⟨s₁, h₁, h₂⟩ := Option.bind_eq_some_iff.mp h
    rw [List.cons_append, run_cons h₁]
    exact ih h₂

/-- What is reached from a reachable state is reachable. -/
theorem reachable_startIn {s₀ s : σ} (h₀ : M.Reachable s₀) (h : (M.startIn s₀).ReachableWhen ok s) :
    M.Reachable s := by
  induction h with
  | init h => exact h ▸ h₀
  | step _ _ hs ih => exact .step ih trivial hs

/-- The state at the end of an explicit sequence of events is reachable. -/
theorem reachable_of_run {s s' : σ} {es : List ε} (hs : M.Reachable s)
    (h : M.run s es = some s') : M.Reachable s' := by
  induction es generalizing s with
  | nil =>
    simp only [run, Option.some.injEq] at h
    exact h ▸ hs
  | cons e es ih =>
    simp only [run, Option.bind_eq_some_iff] at h
    obtain ⟨s₁, h₁, h₂⟩ := h
    exact ih (.step hs trivial h₁) h₂

/-- The state at the end of an explicit sequence of events, each of which meets the condition. -/
theorem reachableWhen_of_run [∀ s e, Decidable (ok s e)] {s s' : σ} {es : List ε} (hs : M.init s)
    (h : (M.restrict ok).run s es = some s') : M.ReachableWhen ok s' := by
  have hreach : (M.restrict ok).Reachable s' := reachable_of_run (.init hs) h
  clear h
  induction hreach with
  | init h => exact .init h
  | step _ _ hs ih =>
    simp only [restrict, Option.ite_none_right_eq_some] at hs
    exact .step ih hs.1 hs.2

/-- What is observed at the end of an explicit run is observed in a reachable state. -/
theorem observed_of_run {ω : Type} {s : σ} {es : List ε} {f : σ → ω} {v : ω}
    (h : (M.run s es).map f = some v) (hs : M.init s) : ∃ s', M.Reachable s' ∧ f s' = v := by
  obtain ⟨s', hs', hv⟩ := Option.map_eq_some_iff.mp h
  exact ⟨s', reachable_of_run (.init hs) hs', hv⟩

/-- The same for a run each of whose steps meets the condition. -/
theorem observedWhen_of_run {ω : Type} [∀ s e, Decidable (ok s e)] {s : σ} {es : List ε} {f : σ → ω}
    {v : ω} (h : ((M.restrict ok).run s es).map f = some v) (hs : M.init s) :
    ∃ s', M.ReachableWhen ok s' ∧ f s' = v := by
  obtain ⟨s', hs', hv⟩ := Option.map_eq_some_iff.mp h
  exact ⟨s', reachableWhen_of_run hs hs', hv⟩

/-- A machine each of whose steps is a step of another machine or leaves its state there alone reaches
only what the other one reaches. -/
theorem ReachableWhen.project {τ δ : Type} {N : Machine τ δ} (f : σ → τ)
    (hinit : ∀ s, M.init s → N.init (f s))
    (hstep : ∀ s e s', M.step s e = some s' → f s' = f s ∨ ∃ d, N.step (f s) d = some (f s'))
    {s : σ} (h : M.ReachableWhen ok s) : N.Reachable (f s) := by
  induction h with
  | init h => exact .init (hinit _ h)
  | step _ _ hs ih =>
    rcases hstep _ _ _ hs with he | ⟨d, hd⟩
    · rw [he]
      exact ih
    · exact .step ih trivial hd

/-- What is reached by runs that meet a condition is reachable. -/
theorem ReachableWhen.reachable {s : σ} (h : M.ReachableWhen ok s) : M.Reachable s :=
  h.project id (fun _ hs => hs) fun _ e _ hs => Or.inr ⟨e, hs⟩

/-- Every run carries a history along: a fact proved with the history is a fact of the run. -/
theorem ReachableWhen.withHistory (h₀ : η) (upd : η → σ → η) {s : σ}
    (h : M.ReachableWhen ok s) :
    ∃ x : η, (M.withHistory h₀ upd).ReachableWhen (fun y e => ok y.1 e) (s, x) := by
  induction h with
  | init h => exact ⟨h₀, .init ⟨h, rfl⟩⟩
  | @step s s' e _ hok hs ih =>
    obtain ⟨x, hx⟩ := ih
    refine ⟨upd x s', .step hx hok ?_⟩
    simp [Machine.withHistory, hs]

/-- The state of a run with a history is reached without it. -/
theorem ReachableWhen.forget {h₀ : η} {upd : η → σ → η} {okh : σ × η → ε → Prop} {x : σ × η}
    (h : (M.withHistory h₀ upd).ReachableWhen okh x) : M.Reachable x.1 := by
  refine ReachableWhen.project Prod.fst ?_ ?_ h
  · exact fun x hx => hx.1
  · intro x e x' hs
    obtain ⟨s', hs', rfl⟩ := Option.map_eq_some_iff.mp hs
    exact Or.inr ⟨e, hs'⟩

end OwnX.Machine
