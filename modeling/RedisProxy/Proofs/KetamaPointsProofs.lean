import RedisProxy.Dispatch

/-!
# Proofs: the number of points of a server

Each operation of the computation in `float` costs a factor of `1 - 2 ^ -24`. Nine of them are less than a millionth, so
the number of points is what the fraction of the weights says, up to one point.
-/

namespace RedisProxy

open Lib

/-- The factor that one rounding to `float` costs. -/
def floatFactor : ℚ := 1 - 1 / 2 ^ 24

theorem floatFactor_pos : 0 < floatFactor := by norm_num [floatFactor]

theorem close_float {q : ℚ} (hq : 0 ≤ q) : Close floatFactor 1 (float q) q := Close.roundTo hq

theorem float_nonneg {q : ℚ} (hq : 0 ≤ q) : 0 ≤ float q := (close_float hq).nonneg floatFactor_pos hq

theorem close_double {q : ℚ} (hq : 0 ≤ q) : Close floatFactor 1 (double q) q := by
  have h : Close (1 - 1 / 2 ^ 53) 1 (double q) q := Close.roundTo hq
  exact h.weaken floatFactor_pos.le (by norm_num [floatFactor]) (h.nonneg (by norm_num) hq) hq

/-- A rounding to `float` after other operations. -/
theorem Lib.Close.float {x y : ℚ} {i : ℕ} (hy : 0 ≤ y) (h : Close floatFactor i x y) :
    Close floatFactor (1 + i) (float x) y :=
  (close_float (h.nonneg floatFactor_pos hy)).trans floatFactor_pos h

theorem floatFactor_pow_nine : 1 - 1 / 10 ^ 6 ≤ floatFactor ^ 9 := by norm_num [floatFactor]

section

variable {w T n : ℕ}

/-- What the number of points is before the sum in `double`. -/
def floatPoints (w T n : ℕ) : ℚ := float (float (float (float (float w / float T) * 160) / 4) * float n)

theorem close_floatPoints (hT : 0 < T) : Close floatFactor 7 (floatPoints w T n) (w / T * 160 / 4 * n) := by
  have hT' : (0 : ℚ) < T := by exact_mod_cast hT
  have hc := floatFactor_pos
  have hw := close_float (q := w) (by positivity)
  have hTc := close_float (by positivity)
  have hfT : 0 < float T := hTc.pos hc hT'
  have hfw : 0 ≤ float w := float_nonneg (by positivity)
  have hquot : Close floatFactor 2 (float w / float T) (w / T) := by
    rw [div_eq_mul_inv, div_eq_mul_inv]
    exact hw.mul hc hfw (by positivity) (by positivity) (by positivity) (hTc.inv hfT hT')
  have hpct := hquot.float (by positivity)
  have hpct0 : 0 ≤ float (float w / float T) := float_nonneg (by positivity)
  have h160 := (hpct.mul hc hpct0 (by norm_num) (by positivity) (by norm_num) (Close.refl floatFactor 160)).float (by positivity)
  have h1600 : 0 ≤ float (float (float w / float T) * 160) := float_nonneg (by positivity)
  have h4 := (h160.mul hc h1600 (by norm_num) (by positivity) (by norm_num) (Close.refl floatFactor (4⁻¹))).float (by positivity)
  have h40 : 0 ≤ float (float (float (float w / float T) * 160) * 4⁻¹) := float_nonneg (by positivity)
  have hn := (h4.mul hc h40 (float_nonneg (by positivity)) (by positivity) (by positivity)
    (close_float (q := n) (by positivity))).float (by positivity)
  exact hn

/-- The number of points by the weights, for each four points. -/
def fairPoints (w T n : ℕ) : ℚ := 40 * n * w / T

/-- The number of labels before it is cut to an integer. -/
def floatLabels (w T n : ℕ) : ℚ := float (double (floatPoints w T n + double (1 / 10 ^ 10)))

theorem floatLabels_bounds (hT : 0 < T) :
    fairPoints w T n * (1 - 1 / 10 ^ 6) ≤ floatLabels w T n ∧
      floatLabels w T n * (1 - 1 / 10 ^ 6) ≤ fairPoints w T n + 1 / 10 ^ 9 := by
  have hc := floatFactor_pos
  have hc1 : floatFactor ≤ 1 := by norm_num [floatFactor]
  have hfair : (w : ℚ) / T * 160 / 4 * n = fairPoints w T n := by
    rw [fairPoints]
    ring
  have hfair0 : 0 ≤ fairPoints w T n := by
    rw [fairPoints]
    positivity
  have hpoints := close_floatPoints (w := w) (n := n) hT
  rw [hfair] at hpoints
  have hpoints0 := hpoints.nonneg hc hfair0
  have hd := close_double (q := 1 / 10 ^ 10) (by norm_num)
  have hd0 : 0 ≤ double (1 / 10 ^ 10) := hd.nonneg hc (by norm_num)
  have hd1 : double (1 / 10 ^ 10) ≤ 1 / 10 ^ 9 := by
    have hup := hd.upper
    have : (1 : ℚ) / 2 ≤ floatFactor ^ 1 := by norm_num [floatFactor]
    nlinarith
  have hsum : Close floatFactor 2 (floatLabels w T n) (floatPoints w T n + double (1 / 10 ^ 10)) :=
    (close_double (by positivity)).float (by positivity)
  have hlabels0 : 0 ≤ floatLabels w T n := hsum.nonneg hc (by positivity)
  have hnine := floatFactor_pow_nine
  constructor
  · calc fairPoints w T n * (1 - 1 / 10 ^ 6) ≤ fairPoints w T n * floatFactor ^ 9 := by gcongr
      _ = fairPoints w T n * floatFactor ^ 7 * floatFactor ^ 2 := by ring
      _ ≤ (floatPoints w T n + double (1 / 10 ^ 10)) * floatFactor ^ 2 := by
          have := hpoints.lower
          gcongr
          linarith
      _ ≤ floatLabels w T n := hsum.lower
  · have hseven : floatFactor ^ 7 ≤ 1 := pow_le_one₀ hc.le hc1
    calc floatLabels w T n * (1 - 1 / 10 ^ 6) ≤ floatLabels w T n * floatFactor ^ 9 := by gcongr
      _ = floatLabels w T n * floatFactor ^ 2 * floatFactor ^ 7 := by ring
      _ ≤ (floatPoints w T n + double (1 / 10 ^ 10)) * floatFactor ^ 7 := by
          have := hsum.upper
          gcongr
      _ = floatPoints w T n * floatFactor ^ 7 + double (1 / 10 ^ 10) * floatFactor ^ 7 := by ring
      _ ≤ fairPoints w T n + 1 / 10 ^ 9 := by
          have := hpoints.upper
          have : double (1 / 10 ^ 10) * floatFactor ^ 7 ≤ double (1 / 10 ^ 10) * 1 := by gcongr
          linarith

theorem fairPoints_le (hwT : w ≤ T) (hT : 0 < T) : fairPoints w T n ≤ 40 * n := by
  have hT' : (0 : ℚ) < T := by exact_mod_cast hT
  rw [fairPoints, div_le_iff₀ hT']
  gcongr

/-- A server has as many points as its weight says, up to four. -/
theorem pointerPerServer_spec (hT : 0 < T) (hwT : w ≤ T) (hn : n < 1024) :
    ∃ K : ℕ, pointerPerServer w T n = some (K * 4) ∧
      (K : ℚ) * (1 - 1 / 10 ^ 6) ≤ fairPoints w T n + 1 / 10 ^ 9 ∧ fairPoints w T n * (1 - 1 / 10 ^ 6) < K + 1 := by
  obtain ⟨hlower, hupper⟩ := floatLabels_bounds (w := w) (n := n) hT
  have hfair := fairPoints_le (n := n) hwT hT
  have hn' : (n : ℚ) < 1024 := by exact_mod_cast hn
  have hfair0 : 0 ≤ fairPoints w T n := by
    rw [fairPoints]
    positivity
  have h0 : 0 ≤ floatLabels w T n := by nlinarith
  obtain ⟨K, hK⟩ := Int.eq_ofNat_of_zero_le (Int.floor_nonneg.mpr h0)
  have hKle : (K : ℚ) ≤ floatLabels w T n := by
    have := Int.floor_le (floatLabels w T n)
    rwa [hK, Int.cast_natCast] at this
  have hKlt : floatLabels w T n < K + 1 := by
    have := Int.lt_floor_add_one (floatLabels w T n)
    rwa [hK, Int.cast_natCast] at this
  have hKsmall : K < 50000 := by
    have : (K : ℚ) < 50000 := by linarith
    exact_mod_cast this
  have hfloat : float ((K : ℤ) * 4 : ℚ) = ((K * 4 : ℕ) : ℚ) := by
    rw [Int.cast_natCast, show ((K : ℚ) * 4) = ((K * 4 : ℕ) : ℚ) by push_cast; rfl]
    exact roundTo_natCast (by omega)
  refine ⟨K, ?_, by linarith, by linarith⟩
  unfold pointerPerServer
  rw [if_neg hT.ne']
  change (if 0 ≤ float (⌊floatLabels w T n⌋ * 4) ∧ float (⌊floatLabels w T n⌋ * 4) < 2 ^ 32 then
    some ⌊float (⌊floatLabels w T n⌋ * 4)⌋.toNat else none) = _
  rw [hK]
  rw [hfloat, if_pos ⟨by positivity, by exact_mod_cast (by omega : K * 4 < 2 ^ 32)⟩, Int.floor_natCast, Int.toNat_natCast]

end

end RedisProxy
