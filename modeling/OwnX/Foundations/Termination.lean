import OwnX.Foundations.Machine

/-!
# Work that comes to an end

The events of a machine are of two kinds: those that carry on work that is there, and the others, which
may go on for ever. A *rank* bounds the work that is left: the first lower it, and the second do not
raise it. If nothing is left to do where no work can be carried on, the work gets done, whatever happens
in between.
-/

namespace OwnX.Machine

variable {σ ε : Type}

/-- No work can be carried on. -/
def Idle (M : Machine σ ε) (work : ε → Prop) (s : σ) : Prop := ∀ e, work e → M.step s e = none

/-- In the states `Inv`, the events `ok` do not raise the rank, and those among them that are `work`
lower it. -/
structure Ranked (M : Machine σ ε) (ok work : ε → Prop) (Inv : σ → Prop) (rank : σ → Nat) : Prop where
  keep : ∀ s e s', Inv s → ok e → M.step s e = some s' → Inv s'
  stay : ∀ s e s', Inv s → ok e → M.step s e = some s' → rank s' ≤ rank s
  lower : ∀ s e s', Inv s → ok e → work e → M.step s e = some s' → rank s' < rank s

/-- On every run from `s` with events `ok`, work is carried on at most `n` times, and where it cannot be
carried on any more, `Done` holds. -/
def Finishes (M : Machine σ ε) (ok work : ε → Prop) [DecidablePred work] (s : σ) (n : Nat)
    (Done : σ → Prop) : Prop :=
  ∀ es s', (∀ e ∈ es, ok e) → M.run s es = some s' →
    es.countP (fun e => decide (work e)) ≤ n ∧ (M.Idle work s' → Done s')

end OwnX.Machine
