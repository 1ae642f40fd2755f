import Mathlib.Data.Nat.Digits.Lemmas

/-!
# Numerals in a base

A numeral is a list of digits, most significant first. `value` reads one by Horner's
rule, `digits` writes the shortest one for a number; zero has one digit.
-/

namespace Numeral

/-- What a numeral that continues the number `start` denotes. -/
def extend (base start : Nat) (ds : List Nat) : Nat := ds.foldl (fun n d => n * base + d) start

def value (base : Nat) (ds : List Nat) : Nat := extend base 0 ds

def digits (base n : Nat) : List Nat := if n = 0 then [0] else (Nat.digits base n).reverse

variable {base n start : Nat} {ds es : List Nat}

@[simp] theorem extend_nil : extend base start [] = start := rfl

@[simp] theorem extend_cons {d : Nat} :
    extend base start (d :: ds) = extend base (start * base + d) ds := rfl

theorem extend_append : extend base start (ds ++ es) = extend base (extend base start ds) es :=
  List.foldl_append

/-- Reading on never makes the number smaller. -/
theorem le_extend (pos : 0 < base) : start ≤ extend base start ds := by
  induction ds generalizing start with
  | nil => exact Nat.le_refl _
  | cons d ds ih =>
      have more : start ≤ start * base := Nat.le_mul_of_pos_right start pos
      exact Nat.le_trans (Nat.le_trans more (Nat.le_add_right _ d)) ih

/-- Leading zeros do not count. -/
theorem value_zeros (k : Nat) : value base (List.replicate k 0 ++ ds) = value base ds := by
  induction k with
  | zero => rfl
  | succ k ih =>
      rw [List.replicate_succ, List.cons_append, value, extend_cons, Nat.zero_mul]
      exact ih

theorem value_reverse (ds : List Nat) : value base ds.reverse = Nat.ofDigits base ds := by
  induction ds with
  | nil => rfl
  | cons d ds ih =>
      rw [List.reverse_cons, value, extend_append, ← value, ih, Nat.ofDigits_cons, extend_cons,
        extend_nil, Nat.mul_comm, Nat.add_comm]

@[simp] theorem value_digits : value base (digits base n) = n := by
  rw [digits]
  split
  · next zero =>
      rw [zero, value, extend_cons, extend_nil, Nat.zero_mul]
  · rw [value_reverse, Nat.ofDigits_digits]

theorem digits_ne_nil : digits base n ≠ [] := by
  rw [digits]
  split
  · exact List.cons_ne_nil _ _
  · next positive =>
      intro none
      rw [List.reverse_eq_nil_iff] at none
      exact positive (Nat.digits_eq_nil_iff_eq_zero.mp none)

theorem digits_lt (large : 1 < base) {d : Nat} (member : d ∈ digits base n) : d < base := by
  rw [digits] at member
  split at member
  · rw [List.mem_singleton.mp member]
    omega
  · exact Nat.digits_lt_base large (List.mem_reverse.mp member)

end Numeral
