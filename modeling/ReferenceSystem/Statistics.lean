import ReferenceSystem.Moments
import Mathlib.Analysis.Real.Sqrt

/-!
# Running statistics

`statistic_value_t`, to which all printed figures are handed one by one. The
operations on doubles are read as exact operations on reals; the counter and
the extreme values are 64-bit. The fields that only format the output are left
out.
-/

namespace ReferenceSystem

structure StatisticValue where
  average : ℝ := 0
  deviation : ℝ := 0
  min : UInt64 := UInt64.ofNat (2 ^ 64 - 1)
  max : UInt64 := 0
  current : UInt64 := 0
  totalNumber : UInt64 := 0

namespace StatisticValue

noncomputable section

/-- The average after `value`, the `totalNumber`-th value. -/
def nextAverage (v : StatisticValue) (totalNumber value : UInt64) : ℝ :=
  ((totalNumber - 1).toNat * v.average + value.toNat) / totalNumber.toNat

/-- The argument of the square root. -/
def nextRadicand (v : StatisticValue) (totalNumber value : UInt64) : ℝ :=
  let delta := value.toNat - v.average
  let delta2 := value.toNat - v.nextAverage totalNumber value
  (v.deviation * v.deviation * (totalNumber - 1).toNat + delta * delta2) / totalNumber.toNat

def set (v : StatisticValue) (value : UInt64) : StatisticValue :=
  let totalNumber := v.totalNumber + 1
  { average := v.nextAverage totalNumber value
    deviation := √(v.nextRadicand totalNumber value)
    min := Min.min v.min value
    max := Max.max v.max value
    current := value
    totalNumber }

/-- A fresh statistic to which the values have been handed in order. -/
def of (values : List UInt64) : StatisticValue := values.foldl set {}

end

theorem of_snoc (values : List UInt64) (value : UInt64) : of (values ++ [value]) = (of values).set value := by
  unfold of
  rw [List.foldl_append]
  rfl

theorem totalNumber_of (values : List UInt64) : (of values).totalNumber = UInt64.ofNat values.length := by
  induction values using List.reverseRecOn with
  | nil => rfl
  | append_singleton values value ih =>
    rw [of_snoc, List.length_append, List.length_singleton, UInt64.ofNat_add, ← ih]
    rfl

/-! ## Mean and variance -/

def reals (values : List UInt64) : List ℝ := values.map fun x => (x.toNat : ℝ)

section
variable {values : List UInt64} (value : UInt64) (hlen : values.length + 1 < 2 ^ 64)
include hlen

/-- The counter before and after a value, as the divisions see it. -/
theorem counts : ((of values).totalNumber + 1).toNat = values.length + 1 ∧
    ((of values).totalNumber + 1 - 1).toNat = values.length := by
  have hnow : (of values).totalNumber.toNat = values.length := by
    rw [totalNumber_of, UInt64.toNat_ofNat']
    exact Nat.mod_eq_of_lt (by omega)
  have hnext : ((of values).totalNumber + 1).toNat = values.length + 1 := by
    rw [UInt64.toNat_add, hnow]
    exact Nat.mod_eq_of_lt hlen
  refine ⟨hnext, ?_⟩
  rw [UInt64.add_sub_cancel, hnow]

theorem nextAverage_eq (haverage : (of values).average = mean (reals values)) :
    (of values).nextAverage ((of values).totalNumber + 1) value = mean (reals (values ++ [value])) := by
  obtain ⟨hnext, hnow⟩ := counts hlen
  unfold nextAverage reals
  rw [hnext, hnow, haverage, List.map_append, List.map_singleton, mean_snoc]
  simp [reals]

theorem nextRadicand_eq (haverage : (of values).average = mean (reals values))
    (hdeviation : (of values).deviation ^ 2 = variance (reals values)) :
    (of values).nextRadicand ((of values).totalNumber + 1) value = variance (reals (values ++ [value])) := by
  obtain ⟨hnext, hnow⟩ := counts hlen
  have hsquare : (of values).deviation * (of values).deviation = variance (reals values) := by
    rw [← sq, hdeviation]
  unfold nextRadicand
  simp only [nextAverage_eq value hlen haverage, hsquare, hnext, hnow, haverage]
  have happend : reals (values ++ [value]) = reals values ++ [(value.toNat : ℝ)] := by
    simp [reals]
  rw [happend, variance_snoc, mul_comm]
  simp [reals]

end

theorem moments_of (values : List UInt64) (hlen : values.length < 2 ^ 64) :
    (of values).average = mean (reals values) ∧ (of values).deviation ^ 2 = variance (reals values) := by
  induction values using List.reverseRecOn with
  | nil => simp [of, reals, mean, variance]
  | append_singleton values value ih =>
    rw [List.length_append, List.length_singleton] at hlen
    obtain ⟨haverage, hdeviation⟩ := ih (by omega)
    rw [of_snoc]
    refine ⟨nextAverage_eq value hlen haverage, ?_⟩
    have hradicand := nextRadicand_eq value hlen haverage hdeviation
    show √((of values).nextRadicand ((of values).totalNumber + 1) value) ^ 2 = _
    rw [hradicand, Real.sq_sqrt (variance_nonneg _)]

theorem deviation_nonneg (values : List UInt64) : 0 ≤ (of values).deviation := by
  induction values using List.reverseRecOn with
  | nil => exact le_rfl
  | append_singleton values value ih =>
    rw [of_snoc]
    exact Real.sqrt_nonneg _

/-! ## Extreme values -/

instance : Std.LawfulOrderMax UInt64 where
  max_eq_or a b := by
    show (if a ≤ b then b else a) = a ∨ (if a ≤ b then b else a) = b
    by_cases h : a ≤ b
    · exact Or.inr (if_pos h)
    · exact Or.inl (if_neg h)
  max_le_iff a b c := by
    show (if a ≤ b then b else a) ≤ c ↔ a ≤ c ∧ b ≤ c
    by_cases h : a ≤ b
    · rw [if_pos h]
      exact ⟨fun hb => ⟨UInt64.le_trans h hb, hb⟩, And.right⟩
    · have hle : b ≤ a := UInt64.le_of_lt (UInt64.not_le.mp h)
      rw [if_neg h]
      exact ⟨fun ha => ⟨ha, UInt64.le_trans hle ha⟩, And.left⟩

theorem min_of (values : List UInt64) : (values ≠ [] → (of values).min ∈ values) ∧ ∀ x ∈ values, (of values).min ≤ x := by
  induction values using List.reverseRecOn with
  | nil => exact ⟨fun h => absurd rfl h, List.forall_mem_nil _⟩
  | append_singleton values value ih =>
    obtain ⟨hmem, hle⟩ := ih
    rw [of_snoc]
    show (_ → Min.min (of values).min value ∈ _) ∧ ∀ x ∈ _, Min.min (of values).min value ≤ x
    refine ⟨fun _ => ?_, List.forall_mem_append.mpr
      ⟨fun x hx => UInt64.le_trans Std.min_le_left (hle x hx), List.forall_mem_singleton.mpr Std.min_le_right⟩⟩
    rcases Std.min_eq_or (a := (of values).min) (b := value) with hmin | hmin
    · by_cases hnil : values = []
      · -- the initial value is the greatest one, so the first value is no greater
        subst hnil
        have hbound : (of []).min ≤ value := hmin ▸ Std.min_le_right
        have hfirst : (of []).min = value := UInt64.le_antisymm hbound (Nat.le_sub_one_of_lt value.toNat_lt)
        rw [hmin]
        exact List.mem_singleton.mpr hfirst
      · rw [hmin]
        exact List.mem_append_left _ (hmem hnil)
    · rw [hmin]
      exact List.mem_append_right _ (List.mem_singleton_self _)

theorem max_of (values : List UInt64) : (values ≠ [] → (of values).max ∈ values) ∧ ∀ x ∈ values, x ≤ (of values).max := by
  induction values using List.reverseRecOn with
  | nil => exact ⟨fun h => absurd rfl h, List.forall_mem_nil _⟩
  | append_singleton values value ih =>
    obtain ⟨hmem, hle⟩ := ih
    rw [of_snoc]
    show (_ → Max.max (of values).max value ∈ _) ∧ ∀ x ∈ _, x ≤ Max.max (of values).max value
    refine ⟨fun _ => ?_, List.forall_mem_append.mpr
      ⟨fun x hx => UInt64.le_trans (hle x hx) Std.left_le_max, List.forall_mem_singleton.mpr Std.right_le_max⟩⟩
    rcases Std.max_eq_or (a := (of values).max) (b := value) with hmax | hmax
    · by_cases hnil : values = []
      · subst hnil
        have hbound : value ≤ (of []).max := hmax ▸ Std.right_le_max
        have hfirst : (of []).max = value := UInt64.le_antisymm (Nat.zero_le _) hbound
        rw [hmax]
        exact List.mem_singleton.mpr hfirst
      · rw [hmax]
        exact List.mem_append_left _ (hmem hnil)
    · rw [hmax]
      exact List.mem_append_right _ (List.mem_singleton_self _)

/-- **Running statistics are exact** as long as the counter does not wrap. -/
theorem running_statistics_exact {values : List UInt64} (hne : values ≠ []) (hlen : values.length < 2 ^ 64) :
    (of values).totalNumber.toNat = values.length ∧
    (of values).average = mean (reals values) ∧
    (of values).deviation ^ 2 = variance (reals values) ∧
    (∀ before value after, values = before ++ value :: after →
      0 ≤ (of before).nextRadicand ((of before).totalNumber + 1) value) ∧
    ((of values).min ∈ values ∧ ∀ x ∈ values, (of values).min ≤ x) ∧
    ((of values).max ∈ values ∧ ∀ x ∈ values, x ≤ (of values).max) ∧
    values.getLast? = some (of values).current ∧
    ∀ values' : List UInt64, values'.Perm values →
      (of values').average = (of values).average ∧ (of values').deviation = (of values).deviation := by
  obtain ⟨haverage, hdeviation⟩ := moments_of values hlen
  refine ⟨?_, haverage, hdeviation, fun before value after hvalues => ?_, ⟨(min_of values).1 hne, (min_of values).2⟩,
    ⟨(max_of values).1 hne, (max_of values).2⟩, ?_, fun values' hperm => ?_⟩
  · rw [totalNumber_of, UInt64.toNat_ofNat']
    exact Nat.mod_eq_of_lt hlen
  · have hbefore : before.length + 1 < 2 ^ 64 := by
      rw [hvalues, List.length_append, List.length_cons] at hlen
      omega
    obtain ⟨haverage, hdeviation⟩ := moments_of before (by omega)
    rw [nextRadicand_eq value hbefore haverage hdeviation]
    exact variance_nonneg _
  · rw [← List.dropLast_append_getLast hne, of_snoc, List.getLast?_concat]
    rfl
  · obtain ⟨haverage', hdeviation'⟩ := moments_of values' (hperm.length_eq ▸ hlen)
    have hreals : (reals values').Perm (reals values) := hperm.map _
    refine ⟨by rw [haverage, haverage', mean_perm hreals], ?_⟩
    have hsquares : (of values').deviation ^ 2 = (of values).deviation ^ 2 := by
      rw [hdeviation, hdeviation', variance_perm hreals]
    exact (sq_eq_sq₀ (deviation_nonneg values') (deviation_nonneg values)).mp hsquares

theorem threeDrops_exact : (of [2, 4, 6]).average = 4 ∧ (of [2, 4, 6]).deviation ^ 2 = 8 / 3 ∧
    (of [6, 4, 2]).deviation = (of [2, 4, 6]).deviation := by
  have hne : ([2, 4, 6] : List UInt64) ≠ [] := by decide
  obtain ⟨_, haverage, hdeviation, _, _, _, _, hperm⟩ := running_statistics_exact hne (by decide)
  have hreals : reals [2, 4, 6] = [(2 : ℕ), (4 : ℕ), (6 : ℕ)] := rfl
  have hmean : mean (reals [2, 4, 6]) = 4 := by
    rw [hreals]
    norm_num [mean]
  have hvariance : variance (reals [2, 4, 6]) = 8 / 3 := by
    rw [variance, hmean, hreals]
    norm_num
  exact ⟨haverage.trans hmean, hdeviation.trans hvariance, (hperm [6, 4, 2] (by decide)).2⟩

/-- After 2^64 values the counter is back at zero. -/
theorem countedOut_wrong : List.replicate (2 ^ 64) (0 : UInt64) ≠ [] ∧
    (of (List.replicate (2 ^ 64) 0)).totalNumber.toNat ≠ (List.replicate (2 ^ 64) (0 : UInt64)).length := by
  constructor
  · rw [ne_eq, List.replicate_eq_nil_iff]
    decide
  · rw [totalNumber_of, List.length_replicate]
    decide

end StatisticValue

end ReferenceSystem
