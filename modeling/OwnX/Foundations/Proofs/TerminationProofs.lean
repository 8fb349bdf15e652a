import OwnX.Foundations.Termination
import Mathlib.Algebra.GroupWithZero.Nat

/-!
# Proofs: ranks

A rank bounds the work of every run. Where several parties work, it is the sum over what each of them
has left.
-/

namespace OwnX

/-- The sum over a list in which an element is changed. -/
theorem sum_map_modify {α : Type} (v : α → Nat) {l : List α} {i : Nat} {x : α} (h : l[i]? = some x)
    (f : α → α) : ((l.modify i f).map v).sum + v x = (l.map v).sum + v (f x) := by
  induction l generalizing i with
  | nil => simp at h
  | cons a l ih =>
    cases i with
    | zero =>
      obtain rfl : a = x := by simpa using h
      simp only [List.modify_zero_cons, List.map_cons, List.sum_cons]
      omega
    | succ i =>
      have hl := ih (i := i) (by simpa using h)
      simp only [List.modify_succ_cons, List.map_cons, List.sum_cons]
      omega

theorem sum_map_set {α : Type} (v : α → Nat) {l : List α} {i : Nat} {x : α} (h : l[i]? = some x) (y : α) :
    ((l.set i y).map v).sum + v x = (l.map v).sum + v y := by
  rw [List.set_eq_modify]
  exact sum_map_modify v h fun _ => y

end OwnX

namespace OwnX.Machine

variable {σ ε : Type} {M : Machine σ ε} {ok work : ε → Prop} {Inv : σ → Prop} {rank : σ → Nat}

theorem Ranked.run_inv (h : M.Ranked ok work Inv rank) {es : List ε} {s s' : σ} (hs : Inv s)
    (hok : ∀ e ∈ es, ok e) (hrun : M.run s es = some s') : Inv s' := by
  induction es generalizing s with
  | nil => exact Option.some.inj hrun ▸ hs
  | cons e es ih =>
    obtain ⟨s₁, h₁, h₂⟩ := Option.bind_eq_some_iff.1 hrun
    have hs₁ := h.keep s e s₁ hs (hok e List.mem_cons_self) h₁
    exact ih hs₁ (fun e he => hok e (List.mem_cons_of_mem _ he)) h₂

variable [DecidablePred work]

/-- The work of a run is paid for by the rank. -/
theorem Ranked.countP_add_le (h : M.Ranked ok work Inv rank) {es : List ε} {s s' : σ} (hs : Inv s)
    (hok : ∀ e ∈ es, ok e) (hrun : M.run s es = some s') :
    es.countP (fun e => decide (work e)) + rank s' ≤ rank s := by
  induction es generalizing s with
  | nil =>
    cases hrun
    simp
  | cons e es ih =>
    obtain ⟨s₁, h₁, h₂⟩ := Option.bind_eq_some_iff.1 hrun
    have he := hok e List.mem_cons_self
    have hrest := ih (h.keep s e s₁ hs he h₁) (fun e he => hok e (List.mem_cons_of_mem _ he)) h₂
    by_cases hw : work e
    · have hlow := h.lower s e s₁ hs he hw h₁
      rw [List.countP_cons_of_pos (by simpa using hw)]
      omega
    · have hstay := h.stay s e s₁ hs he h₁
      rw [List.countP_cons_of_neg (by simpa using hw)]
      omega

/-- The rule: a rank, and nothing left to do in an idle state. -/
theorem Ranked.finishes (h : M.Ranked ok work Inv rank) {Done : σ → Prop}
    (hdone : ∀ s, Inv s → M.Idle work s → Done s) {s : σ} (hs : Inv s) :
    M.Finishes ok work s (rank s) Done := by
  intro es s' hok hrun
  have hle := h.countP_add_le hs hok hrun
  exact ⟨by omega, hdone s' (h.run_inv hs hok hrun)⟩

end OwnX.Machine
