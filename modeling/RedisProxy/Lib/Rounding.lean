import Mathlib

/-!
# Rounding to a number of binary digits

A binary floating point format with `p` digits and no bounds on its exponents, over the rational numbers. `Close c i x y`
says that `x` and `y` differ by at most `i` factors `c`; a rounding costs one factor, and products and quotients add
their factors.
-/

namespace RedisProxy.Lib

/-- The integer next to `q`; of two at the same distance the even one. -/
def nearestEven (q : ℚ) : ℤ :=
  if q - ⌊q⌋ < 1 / 2 then ⌊q⌋
  else if 1 / 2 < q - ⌊q⌋ then ⌊q⌋ + 1
  else if ⌊q⌋ % 2 = 0 then ⌊q⌋ else ⌊q⌋ + 1

/-- The exponent of the last of `p` digits. -/
def lastPlace (p : ℕ) (q : ℚ) : ℤ := Int.log 2 |q| + 1 - p

/-- The number with `p` binary digits that is next to `q`. -/
def roundTo (p : ℕ) (q : ℚ) : ℚ := nearestEven (q / 2 ^ lastPlace p q) * 2 ^ lastPlace p q

theorem abs_nearestEven_sub_le (q : ℚ) : |nearestEven q - q| ≤ 1 / 2 := by
  have h0 := Int.floor_le q
  have h1 := Int.lt_floor_add_one q
  rw [abs_le]
  unfold nearestEven
  split_ifs <;> push_cast <;> constructor <;> linarith

@[simp] theorem nearestEven_intCast (n : ℤ) : nearestEven n = n := by
  rw [nearestEven, Int.floor_intCast, sub_self, if_pos (by norm_num)]

@[simp] theorem roundTo_zero (p : ℕ) : roundTo p 0 = 0 := by
  rw [roundTo, zero_div]
  have := nearestEven_intCast 0
  rw [Int.cast_zero] at this
  rw [this, Int.cast_zero, zero_mul]

/-- A rounding changes a number by at most half a unit in the last place. -/
theorem abs_roundTo_sub_le (p : ℕ) {q : ℚ} (hq : 0 ≤ q) : |roundTo p q - q| ≤ q / 2 ^ p := by
  rcases hq.eq_or_lt with rfl | hq
  · simp
  have hpos : (0 : ℚ) < 2 ^ lastPlace p q := by positivity
  have herr := mul_le_mul_of_nonneg_right (abs_nearestEven_sub_le (q / 2 ^ lastPlace p q)) hpos.le
  have hlog : (2 : ℚ) ^ Int.log 2 q ≤ q := Int.zpow_log_le_self (by decide) hq
  calc |roundTo p q - q| = |nearestEven (q / 2 ^ lastPlace p q) - q / 2 ^ lastPlace p q| * 2 ^ lastPlace p q := by
        rw [← abs_of_pos hpos, ← abs_mul, sub_mul, abs_of_pos hpos, div_mul_cancel₀ _ hpos.ne', roundTo]
    _ ≤ 1 / 2 * 2 ^ lastPlace p q := herr
    _ = 2 ^ Int.log 2 q / 2 ^ p := by
        rw [lastPlace, abs_of_pos hq, zpow_sub₀ (by norm_num), zpow_add₀ (by norm_num), zpow_one, zpow_natCast]
        ring
    _ ≤ q / 2 ^ p := by gcongr

/-- Natural numbers with at most `p` digits are not changed. -/
theorem roundTo_natCast {p n : ℕ} (h : n < 2 ^ p) : roundTo p n = n := by
  rcases Nat.eq_zero_or_pos n with rfl | hn
  · simp
  have hn' : (0 : ℚ) < n := by exact_mod_cast hn
  -- the last place is behind the binary point, so nothing is cut off
  obtain ⟨k, hk⟩ : ∃ k : ℕ, lastPlace p n = -(k : ℤ) := by
    have hlt : Int.log 2 (n : ℚ) < p := by
      rw [← Int.lt_zpow_iff_log_lt (by decide) hn']
      exact_mod_cast h
    refine ⟨(p - 1 - Int.log 2 (n : ℚ)).toNat, ?_⟩
    rw [lastPlace, abs_of_pos hn']
    omega
  have hint : (n : ℚ) / 2 ^ lastPlace p n = ((n * 2 ^ k : ℤ) : ℚ) := by
    rw [hk, zpow_neg, div_inv_eq_mul, zpow_natCast]
    push_cast
    rfl
  rw [roundTo, hint, nearestEven_intCast, ← hint, div_mul_cancel₀]
  positivity

/-- `x` and `y` differ by at most `i` factors `c`. -/
structure Close (c : ℚ) (i : ℕ) (x y : ℚ) : Prop where
  lower : y * c ^ i ≤ x
  upper : x * c ^ i ≤ y

namespace Close

variable {c x x' y y' z : ℚ} {i j : ℕ}

theorem trans (hc : 0 < c) (h : Close c i x y) (h' : Close c j y z) : Close c (i + j) x z := by
  have hi : 0 ≤ c ^ i := by positivity
  have hj : 0 ≤ c ^ j := by positivity
  constructor
  · calc z * c ^ (i + j) = z * c ^ j * c ^ i := by rw [pow_add]; ring
      _ ≤ y * c ^ i := mul_le_mul_of_nonneg_right h'.lower hi
      _ ≤ x := h.lower
  · calc x * c ^ (i + j) = x * c ^ i * c ^ j := by rw [pow_add]; ring
      _ ≤ y * c ^ j := mul_le_mul_of_nonneg_right h.upper hj
      _ ≤ z := h'.upper

theorem mul (hc : 0 < c) (hx : 0 ≤ x) (hx' : 0 ≤ x') (hy : 0 ≤ y) (hy' : 0 ≤ y') (h : Close c i x y)
    (h' : Close c j x' y') : Close c (i + j) (x * x') (y * y') := by
  constructor
  · calc y * y' * c ^ (i + j) = y * c ^ i * (y' * c ^ j) := by rw [pow_add]; ring
      _ ≤ x * x' := mul_le_mul h.lower h'.lower (by positivity) hx
  · calc x * x' * c ^ (i + j) = x * c ^ i * (x' * c ^ j) := by rw [pow_add]; ring
      _ ≤ y * y' := mul_le_mul h.upper h'.upper (by positivity) hy

theorem inv (hx : 0 < x) (hy : 0 < y) (h : Close c i x y) : Close c i x⁻¹ y⁻¹ := by
  constructor
  · rw [inv_mul_le_iff₀ hy, ← div_eq_mul_inv, le_div_iff₀ hx, mul_comm]
    exact h.upper
  · rw [inv_mul_le_iff₀ hx, ← div_eq_mul_inv, le_div_iff₀ hy, mul_comm]
    exact h.lower

theorem refl (c x : ℚ) : Close c 0 x x := by
  constructor <;> rw [pow_zero, mul_one]

/-- The factor may be replaced by a smaller one. -/
theorem weaken {c' : ℚ} (hc' : 0 ≤ c') (hle : c' ≤ c) (hx : 0 ≤ x) (hy : 0 ≤ y) (h : Close c i x y) : Close c' i x y := by
  have hpow : c' ^ i ≤ c ^ i := pow_le_pow_left₀ hc' hle i
  exact ⟨(mul_le_mul_of_nonneg_left hpow hy).trans h.lower, (mul_le_mul_of_nonneg_left hpow hx).trans h.upper⟩

theorem nonneg (hc : 0 < c) (hy : 0 ≤ y) (h : Close c i x y) : 0 ≤ x :=
  (by positivity : 0 ≤ y * c ^ i).trans h.lower

theorem pos (hc : 0 < c) (hy : 0 < y) (h : Close c i x y) : 0 < x :=
  (by positivity : 0 < y * c ^ i).trans_le h.lower

/-- A rounding costs one factor. -/
theorem roundTo {p : ℕ} {q : ℚ} (hq : 0 ≤ q) : Close (1 - 1 / 2 ^ p) 1 (roundTo p q) q := by
  have herr := abs_le.mp (abs_roundTo_sub_le p hq)
  have hu1 : (1 : ℚ) / 2 ^ p ≤ 1 := by
    rw [div_le_one (by positivity)]
    exact one_le_pow₀ (by norm_num)
  have hdiv : q / 2 ^ p = q * (1 / 2 ^ p) := by ring
  constructor
  · rw [pow_one]
    linarith [herr.1]
  · rw [pow_one]
    calc Lib.roundTo p q * (1 - 1 / 2 ^ p) ≤ q * (1 + 1 / 2 ^ p) * (1 - 1 / 2 ^ p) :=
          mul_le_mul_of_nonneg_right (by linarith [herr.2]) (by linarith)
      _ = q - q * (1 / 2 ^ p) ^ 2 := by ring
      _ ≤ q := by
          have : 0 ≤ q * (1 / 2 ^ p) ^ 2 := by positivity
          linarith

end Close

end RedisProxy.Lib
