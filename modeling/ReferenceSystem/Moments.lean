import Mathlib.Algebra.BigOperators.Group.List.Basic
import Mathlib.Algebra.Order.BigOperators.Group.List
import Mathlib.Algebra.Order.Field.Basic
import Mathlib.Tactic.FieldSimp
import Mathlib.Tactic.LinearCombination
import Mathlib.Tactic.Positivity
import Mathlib.Tactic.Ring

/-!
# Mean and variance of a list

The arithmetic mean and the mean squared distance to it, and how both change
when a value is appended. The new variance needs only the old one and the
distances of the new value to the old and to the new mean.
-/

namespace ReferenceSystem

section
variable {K : Type} [Field K]

def mean (l : List K) : K := l.sum / l.length

def variance (l : List K) : K := (l.map fun x => (x - mean l) ^ 2).sum / l.length

theorem sum_sq_sub (l : List K) (c : K) :
    (l.map fun x => (x - c) ^ 2).sum = (l.map fun x => x ^ 2).sum - 2 * c * l.sum + l.length * c ^ 2 := by
  induction l with
  | nil => simp
  | cons x l ih =>
    simp only [List.map_cons, List.sum_cons, List.length_cons, Nat.cast_add, Nat.cast_one, ih]
    ring

variable [CharZero K]

theorem length_mul_mean (l : List K) : l.length * mean l = l.sum := by
  cases l with
  | nil => simp [mean]
  | cons x l =>
    have hlen : ((x :: l).length : K) ≠ 0 := Nat.cast_ne_zero.mpr (by simp)
    exact mul_div_cancel₀ _ hlen

theorem length_mul_variance (l : List K) :
    l.length * variance l = (l.map fun x => x ^ 2).sum - l.length * mean l ^ 2 := by
  have hsum := length_mul_mean l
  have hvariance : l.length * variance l = (l.map fun x => (x - mean l) ^ 2).sum := by
    cases l with
    | nil => simp [variance]
    | cons x l =>
      have hlen : ((x :: l).length : K) ≠ 0 := Nat.cast_ne_zero.mpr (by simp)
      exact mul_div_cancel₀ _ hlen
  rw [hvariance, sum_sq_sub, ← hsum]
  ring

theorem mean_snoc (l : List K) (x : K) : mean (l ++ [x]) = (l.length * mean l + x) / (l.length + 1) := by
  rw [length_mul_mean]
  simp [mean]

theorem variance_snoc (l : List K) (x : K) :
    variance (l ++ [x]) =
      (l.length * variance l + (x - mean l) * (x - mean (l ++ [x]))) / (l.length + 1) := by
  have hpos : ((l.length : K) + 1) ≠ 0 := Nat.cast_add_one_ne_zero _
  have hold := length_mul_variance l
  have hnew := length_mul_variance (l ++ [x])
  have hmean : ((l.length : K) + 1) * mean (l ++ [x]) = l.length * mean l + x := by
    rw [mean_snoc, mul_div_cancel₀ _ hpos]
  simp only [List.length_append, List.length_singleton, Nat.cast_add, Nat.cast_one, List.map_append, List.map_singleton,
    List.sum_append, List.sum_singleton] at hnew
  rw [eq_div_iff hpos, mul_comm]
  linear_combination hnew - hold - (mean (l ++ [x]) + mean l) * hmean

end

section
variable {K : Type} [Field K] [LinearOrder K] [IsStrictOrderedRing K]

theorem variance_nonneg (l : List K) : 0 ≤ variance l := by
  refine div_nonneg (List.sum_nonneg fun y hy => ?_) (Nat.cast_nonneg _)
  obtain ⟨x, _, rfl⟩ := List.mem_map.mp hy
  exact sq_nonneg _

end

theorem mean_perm {K : Type} [Field K] {l l' : List K} (h : l.Perm l') : mean l = mean l' := by
  rw [mean, mean, h.sum_eq, h.length_eq]

theorem variance_perm {K : Type} [Field K] {l l' : List K} (h : l.Perm l') : variance l = variance l' := by
  rw [variance, variance, mean_perm h, (h.map _).sum_eq, h.length_eq]

end ReferenceSystem
