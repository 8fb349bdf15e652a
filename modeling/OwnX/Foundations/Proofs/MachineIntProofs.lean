import OwnX.Foundations.MachineInt

/-!
# Proofs: two's complement integers
-/

namespace OwnX

variable {w : Nat} {x y : Int}

/-! ## Values -/

theorem fits_zero (w : Nat) : Fits w 0 := by
  have hpos : (0 : Int) < 2 ^ (w - 1) := Int.pow_pos (by decide)
  exact ⟨by omega, hpos⟩

/-- What lies between two values is a value. -/
theorem Fits.between {a b : Int} (ha : Fits w a) (hb : Fits w b) (hax : a ≤ x) (hxb : x ≤ b) :
    Fits w x :=
  ⟨Int.le_trans ha.1 hax, Int.lt_of_le_of_lt hxb hb.2⟩

theorem modulus_eq (hw : 0 < w) : ((2 ^ w : Nat) : Int) = 2 ^ (w - 1) * 2 := by
  obtain ⟨v, rfl⟩ : ∃ v, w = v + 1 := ⟨w - 1, by omega⟩
  rw [Int.natCast_pow, Nat.add_sub_cancel]
  exact Int.pow_succ 2 v

theorem wrap_of_fits (hw : 0 < w) (h : Fits w x) : wrap w x = x := by
  have hmodulus := modulus_eq hw
  have hlow := h.1
  have hhigh := h.2
  refine Int.bmod_eq_of_le ?_ ?_
  · rw [hmodulus]
    omega
  · rw [hmodulus]
    omega

theorem fits_wrap (hw : 0 < w) (x : Int) : Fits w (wrap w x) := by
  have hpos : 0 < 2 ^ w := Nat.two_pow_pos w
  have hlow : _ ≤ wrap w x := Int.le_bmod hpos
  have hhigh : wrap w x < _ := Int.bmod_lt hpos
  rw [modulus_eq hw] at hlow hhigh
  exact ⟨by omega, by omega⟩

/-- Wrapping around adds a multiple of the modulus. -/
theorem wrap_eq_add (w : Nat) (x : Int) : ∃ k : Int, wrap w x = x + ((2 ^ w : Nat) : Int) * k := by
  refine ⟨-x.bdiv (2 ^ w), ?_⟩
  rw [wrap, Int.bmod_eq_self_sub_mul_bdiv, Int.mul_neg, Int.sub_eq_add_neg]

theorem wrap_add_mul (w : Nat) (x k : Int) : wrap w (x + ((2 ^ w : Nat) : Int) * k) = wrap w x :=
  Int.add_mul_bmod_self_left x (2 ^ w) k

/-- An operand may be wrapped around before the sum is. -/
theorem wrap_add (w : Nat) (x y : Int) : wrap w (wrap w x + y) = wrap w (x + y) :=
  Int.bmod_add_bmod

/-! ## Arithmetics -/

@[simp]
theorem checked_of_fits (h : Fits w x) : checked w x = some x := if_pos h

/-- A program that is monotone in its arithmetic and does not overflow computes what it does on the
machine; `bind` is monotone if its parts are. -/
theorem bind_mono {α β : Type} {o o' : Option α} {f f' : α → Option β}
    (ho : ∀ a, o = some a → o' = some a) (hf : ∀ a b, f a = some b → f' a = some b) (b : β)
    (h : o.bind f = some b) : o'.bind f' = some b := by
  obtain ⟨a, ha, hb⟩ := Option.bind_eq_some_iff.1 h
  rw [ho a ha, Option.bind_some]
  exact hf a b hb

theorem wrapping_of_checked (hw : 0 < w) (h : checked w x = some y) : wrapping w x = some y := by
  unfold checked at h
  split at h
  · next hfits => rw [wrapping, wrap_of_fits hw hfits, h]
  · exact absurd h (by simp)

end OwnX
