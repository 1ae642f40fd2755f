import Mathlib.Algebra.Ring.Nat

/-!
# Exact arithmetic of machine words

Guards of the form `increment > max - value` are the usual way to test for
overflow without overflowing. The lemmas here state what such guards, and the
additions and subtractions they protect, mean for the unbounded values.
-/

namespace Word

theorem toNat_le_max (a : UInt64) : a.toNat ≤ 2 ^ 64 - 1 := by
  have := a.toNat_lt
  omega

/-- The subtraction in an overflow guard never wraps. -/
theorem toNat_max_sub (a : UInt64) :
    (0xFFFFFFFFFFFFFFFF - a : UInt64).toNat = 2 ^ 64 - 1 - a.toNat := by
  have hmax : (0xFFFFFFFFFFFFFFFF : UInt64).toNat = 2 ^ 64 - 1 := rfl
  have ha : a ≤ 0xFFFFFFFFFFFFFFFF := by
    rw [UInt64.le_iff_toNat_le, hmax]
    exact toNat_le_max a
  rw [UInt64.toNat_sub_of_le _ _ ha, hmax]

/-- The guard `b ≤ max - a` says that `a + b` is representable. -/
theorem le_max_sub_iff {a b : UInt64} :
    b ≤ 0xFFFFFFFFFFFFFFFF - a ↔ a.toNat + b.toNat < 2 ^ 64 := by
  rw [UInt64.le_iff_toNat_le, toNat_max_sub]
  have := a.toNat_lt
  omega

theorem toNat_add_of_lt {a b : UInt64} (h : a.toNat + b.toNat < 2 ^ 64) :
    (a + b).toNat = a.toNat + b.toNat := by
  rw [UInt64.toNat_add, Nat.mod_eq_of_lt h]

theorem toNat_sub_of_le {a b : UInt64} (h : b.toNat ≤ a.toNat) :
    (a - b).toNat = a.toNat - b.toNat :=
  UInt64.toNat_sub_of_le _ _ (UInt64.le_iff_toNat_le.mpr h)

theorem toNat_sub32_of_le {a b : UInt32} (h : b.toNat ≤ a.toNat) :
    (a - b).toUInt64.toNat = a.toNat - b.toNat := by
  rw [UInt32.toNat_toUInt64, UInt32.toNat_sub_of_le _ _ (UInt32.le_iff_toNat_le.mpr h)]

theorem toNat_min (a b : UInt64) : (min a b).toNat = min a.toNat b.toNat := by
  change (if a ≤ b then a else b).toNat = _
  by_cases h : a ≤ b
  · rw [if_pos h, Nat.min_eq_left (UInt64.le_iff_toNat_le.mp h)]
  · have h' : b.toNat ≤ a.toNat := by
      rw [UInt64.le_iff_toNat_le] at h
      omega
    rw [if_neg h, Nat.min_eq_right h']

/-- A narrowing conversion keeps a value that fits. -/
theorem toNat_toUInt32_of_lt {a : UInt64} (h : a.toNat < 2 ^ 32) :
    a.toUInt32.toNat = a.toNat := by
  rw [UInt64.toNat_toUInt32, Nat.mod_eq_of_lt h]

theorem pos_iff {a : UInt64} : a ≠ 0 ↔ 0 < a.toNat := by
  rw [Ne, ← UInt64.toNat_inj, UInt64.toNat_zero]
  omega

theorem pos_iff32 {a : UInt32} : a ≠ 0 ↔ 0 < a.toNat := by
  rw [Ne, ← UInt32.toNat_inj, UInt32.toNat_zero]
  omega

/-- A counter that did not come round to zero was incremented. -/
theorem toNat_succ32 {count : UInt32} (h : count + 1 ≠ 0) :
    (count + 1).toNat = count.toNat + 1 := by
  have bound := count.toNat_lt
  have sum : (count + 1).toNat = (count.toNat + 1) % 2 ^ 32 := UInt32.toNat_add ..
  have positive := pos_iff32.mp h
  by_cases last : count.toNat + 1 = 2 ^ 32
  · rw [sum, last, Nat.mod_self] at positive
    exact (Nat.lt_irrefl 0 positive).elim
  · rw [sum, Nat.mod_eq_of_lt (by omega)]

end Word
