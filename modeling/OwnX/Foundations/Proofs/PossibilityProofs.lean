import OwnX.Foundations.Possibility

/-!
# Proofs: rules for what a machine can still do

How the ways to a state are put together, and how a machine does what a part of it can do.
-/

namespace OwnX.Machine

variable {σ ε : Type} {M : Machine σ ε} {ok : σ → ε → Prop} {P Q : σ → Prop} {s s' : σ} {e : ε}

theorem ReachableWhen.append {s'' : σ} (h : (M.startIn s).ReachableWhen ok s')
    (h' : (M.startIn s').ReachableWhen ok s'') : (M.startIn s).ReachableWhen ok s'' := by
  induction h' with
  | init he => exact he ▸ h
  | step _ hok hs ih => exact .step ih hok hs

namespace CanReach

theorem here (h : P s) : M.CanReach ok s P := ⟨s, .init rfl, h⟩

theorem mono (h : M.CanReach ok s P) (hPQ : ∀ s', P s' → Q s') : M.CanReach ok s Q := by
  obtain ⟨s', hs', hP⟩ := h
  exact ⟨s', hs', hPQ s' hP⟩

/-- One step first. -/
theorem next (hok : ok s e) (hs : M.step s e = some s') (h : M.CanReach ok s' P) : M.CanReach ok s P := by
  obtain ⟨s'', hs'', hP⟩ := h
  have hone : (M.startIn s).ReachableWhen ok s' := .step (.init rfl) hok hs
  exact ⟨s'', hone.append hs'', hP⟩

/-- One way after the other. -/
theorem bind (h : M.CanReach ok s P)
    (hPQ : ∀ s', (M.startIn s).ReachableWhen ok s' → P s' → M.CanReach ok s' Q) : M.CanReach ok s Q := by
  obtain ⟨s', hs', hP⟩ := h
  obtain ⟨s'', hs'', hQ⟩ := hPQ s' hs' hP
  exact ⟨s'', hs'.append hs'', hQ⟩

/-- What a machine `M` can do, a machine `N` can do in which every step of `M` is taken by some step
between related states. -/
theorem lift {τ δ : Type} {N : Machine τ δ} {ok' : τ → δ → Prop} (R : σ → τ → Prop)
    (hstep : ∀ s e s' t, R s t → ok s e → M.step s e = some s' →
      ∃ d t', ok' t d ∧ N.step t d = some t' ∧ R s' t')
    {t : τ} (hR : R s t) (h : M.CanReach ok s P) : N.CanReach ok' t fun t' => ∃ s', R s' t' ∧ P s' := by
  obtain ⟨s', hs', hP⟩ := h
  suffices hrun : ∃ t', (N.startIn t).ReachableWhen ok' t' ∧ R s' t' by
    obtain ⟨t', ht', hR'⟩ := hrun
    exact ⟨t', ht', s', hR', hP⟩
  clear hP
  induction hs' with
  | init he => exact ⟨t, .init rfl, he ▸ hR⟩
  | step _ hok hs ih =>
    obtain ⟨t₁, ht₁, hR₁⟩ := ih
    obtain ⟨d, t₂, hok', ht₂, hR₂⟩ := hstep _ _ _ _ hR₁ hok hs
    exact ⟨t₂, .step ht₁ hok' ht₂, hR₂⟩

end CanReach

end OwnX.Machine
