import Mathlib.Data.UInt
import Mathlib.Tactic

/-!
# Machine integers and byte strings

Signed 64-bit integers are integers together with `wrap64`, which a sum or a product goes through
wherever the machine would lose its high bits. Division truncates toward zero (`Int.tdiv`), a right
shift rounds down (`/`). Byte strings are compared lexicographically.

## Main results

* `wrap64_of_fits` — within the range nothing is lost
-/

namespace CometBFT

def minInt64 : ℤ := -9223372036854775808

def maxInt64 : ℤ := 9223372036854775807

theorem minInt64_eq : minInt64 = -9223372036854775808 := rfl

theorem maxInt64_eq : maxInt64 = 9223372036854775807 := rfl

/-- `x` is a signed 64-bit integer. -/
def Fits64 (x : ℤ) : Prop := minInt64 ≤ x ∧ x ≤ maxInt64

instance (x : ℤ) : Decidable (Fits64 x) := inferInstanceAs (Decidable (_ ∧ _))

/-- What is left of `x` in 64 bits. -/
def wrap64 (x : ℤ) : ℤ := (x + 9223372036854775808) % 18446744073709551616 - 9223372036854775808

theorem wrap64_of_fits {x : ℤ} (h : Fits64 x) : wrap64 x = x := by
  obtain ⟨h₁, h₂⟩ := h
  simp only [minInt64, maxInt64] at h₁ h₂
  unfold wrap64
  omega

theorem fits64_of_bounds {x : ℤ} (h : -9223372036854775808 ≤ x ∧ x ≤ 9223372036854775807) :
    Fits64 x :=
  h

/-- A byte string. -/
abbrev Bytes := List UInt8

/-- Bytes are ordered as the numbers they are, so that byte strings are ordered lexicographically. -/
instance instLinearOrderUInt8 : LinearOrder UInt8 where
  le_refl a := UInt8.le_refl a
  le_trans a b c := UInt8.le_trans
  le_antisymm a b := UInt8.le_antisymm
  le_total a b := UInt8.le_total a b
  lt_iff_le_not_ge a b := by rw [UInt8.not_le]; exact ⟨fun h => ⟨UInt8.le_of_lt h, h⟩, fun h => h.2⟩
  toDecidableLE := inferInstance
  toDecidableEq := inferInstance
  toDecidableLT := inferInstance

end CometBFT
