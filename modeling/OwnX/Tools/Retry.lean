import OwnX.Foundations.MachineInt

/-!
# Retries (`tools/utils.go`)

The function that is tried is given by the outcomes of its calls, of which the first has the number 0.
The pauses between the calls have no influence on the result and are left out. An `int` has `w` bits.
-/

namespace OwnX.Tools

/-- What the calls return: nil, or an error with its text. -/
abbrev Outcomes := Nat → Option String

/-- The loop of `DoWithRetryThreshold` after `calls` calls of `f`: how often `f` has been called in the
end, and the error that is returned. `none` says that the fuel ran out. -/
def retryLoop (w : Nat) (times successThreshold : Int) (f : Outcomes) :
    Nat → Nat → Int → Int → String → Option (Nat × Option String)
  | 0, _, _, _, _ => none
  | fuel + 1, calls, i, successCount, msg =>
    if i ≤ times then
      match f calls with
      | none =>
        let successCount := wrap w (successCount + 1)
        if successCount = successThreshold then some (calls + 1, none)
        else retryLoop w times successThreshold f fuel (calls + 1) (wrap w (i + 1)) successCount msg
      | some err => retryLoop w times successThreshold f fuel (calls + 1) (wrap w (i + 1)) 0 err
    else some (calls, some ("retry times exhausted, err: " ++ msg))

/-- `DoWithRetryThreshold`, for at most `fuel` tests of the loop condition. -/
def doWithRetryThreshold (w : Nat) (times successThreshold : Int) (f : Outcomes) (fuel : Nat) :
    Option (Nat × Option String) :=
  retryLoop w times successThreshold f fuel 0 1 0 ""

/-- `DoWithRetryThreshold` ends after `r.1` calls of `f` and returns `r.2`. -/
def Returns (w : Nat) (times successThreshold : Int) (f : Outcomes) (r : Nat × Option String) : Prop :=
  ∃ enough, ∀ fuel ≥ enough, doWithRetryThreshold w times successThreshold f fuel = some r

/-! ## What it is for -/

/-- The last `k` of the first `n` calls succeed. -/
def Window (f : Outcomes) (k : Int) (n : Nat) : Prop :=
  k ≤ n ∧ ∀ j < n, (n : Int) - k ≤ j → f j = none

/-- The text of the last error in the first `n` calls. -/
def lastFailure (f : Outcomes) : Nat → String
  | 0 => ""
  | n + 1 => (f n).getD (lastFailure f n)

/-- The threshold decides: nil at the end of the earliest window of `k` successes within `times` calls,
and the error of the last failure after all of them if there is none. -/
structure Decides (w : Nat) (times k : Int) (f : Outcomes) : Prop where
  nil_iff : (∃ calls, Returns w times k f (calls, none)) ↔ ∃ n : Nat, n ≤ times ∧ Window f k n
  earliest : ∀ n : Nat, n ≤ times → Window f k n → (∀ m < n, ¬Window f k m) →
    Returns w times k f (n, none)
  exhausted : (∀ n : Nat, n ≤ times → ¬Window f k n) →
    Returns w times k f (times.toNat,
      some ("retry times exhausted, err: " ++ lastFailure f times.toNat))

end OwnX.Tools
