import Mathlib

/-!
# Cyclic redundancy checks

The remainder of a message by a polynomial, a bit at a time and the highest bit first. A shift of the
remainder is linear in exclusive or, so the eight shifts for a byte are a shift by eight places and a
word that depends on the highest byte only: the entry of a table.
-/

namespace RedisProxy.Lib.Crc

variable {w : Nat} (poly : BitVec w)

/-- One bit: the remainder moves up, and the polynomial is subtracted if a bit falls out. -/
def shift (c : BitVec w) : BitVec w := if c.msb then (c <<< 1) ^^^ poly else c <<< 1

/-- `n` bits. -/
def shifts : Nat → BitVec w → BitVec w
  | 0, c => c
  | n + 1, c => shift poly (shifts n c)

/-- One byte. -/
def crcByte (c : BitVec w) (b : BitVec 8) : BitVec w := shifts poly 8 (c ^^^ (b.setWidth w <<< (w - 8)))

/-- The remainder of a message. -/
def crc (bs : List (BitVec 8)) : BitVec w := bs.foldl (crcByte poly) 0#w

theorem shift_xor (a b : BitVec w) : shift poly (a ^^^ b) = shift poly a ^^^ shift poly b := by
  have hcancel : ∀ x y p : BitVec w, x ^^^ p ^^^ (y ^^^ p) = x ^^^ y := by
    intro x y p
    rw [BitVec.xor_assoc, ← BitVec.xor_assoc p, BitVec.xor_comm p y, BitVec.xor_assoc y, BitVec.xor_self, BitVec.xor_zero]
  unfold shift
  rw [BitVec.msb_xor, BitVec.shiftLeft_xor_distrib]
  cases a.msb <;> cases b.msb
  · rfl
  · exact BitVec.xor_assoc _ _ _
  · show (a <<< 1) ^^^ (b <<< 1) ^^^ poly = (a <<< 1) ^^^ poly ^^^ (b <<< 1)
    rw [BitVec.xor_assoc, BitVec.xor_comm (b <<< 1), ← BitVec.xor_assoc]
  · exact (hcancel _ _ _).symm

theorem shifts_xor (n : Nat) (a b : BitVec w) : shifts poly n (a ^^^ b) = shifts poly n a ^^^ shifts poly n b := by
  induction n with
  | zero => rfl
  | succ n ih => rw [shifts, ih, shift_xor, shifts, shifts]

/-- A remainder with `n` free places only moves up. -/
theorem shifts_low {n : Nat} {c : BitVec w} (hc : ∀ i, w ≤ i + n → c.getLsbD i = false) : ∀ k ≤ n, shifts poly k c = c <<< k := by
  intro k
  induction k with
  | zero =>
    intro _
    rw [shifts, BitVec.shiftLeft_zero]
  | succ k ih =>
    intro hk
    have hmsb : (c <<< k).msb = false := by
      rw [BitVec.msb_eq_getLsbD_last, BitVec.getLsbD_shiftLeft]
      by_cases hlt : w - 1 < k
      · simp [hlt]
      · rw [hc _ (by omega), Bool.and_false]
    rw [shifts, ih (by omega), shift, hmsb, if_neg Bool.false_ne_true, ← BitVec.shiftLeft_add]

/-- The highest byte. -/
def top (c : BitVec w) : BitVec 8 := (c >>> (w - 8)).setWidth 8

/-- What is left without the highest byte. -/
def low (c : BitVec w) : BitVec w := c ^^^ ((top c).setWidth w <<< (w - 8))

theorem getLsbD_low (hw : 8 ≤ w) (c : BitVec w) (i : Nat) : (low c).getLsbD i = (decide (i < w - 8) && c.getLsbD i) := by
  unfold low top
  by_cases hi : i < w
  · simp only [BitVec.getLsbD_xor, BitVec.getLsbD_shiftLeft, BitVec.getLsbD_setWidth, BitVec.getLsbD_ushiftRight]
    by_cases hlow : i < w - 8
    · simp [hlow]
    · have hsub : w - 8 + (i - (w - 8)) = i := by omega
      rw [hsub]
      simp [hlow, hi, show i - (w - 8) < 8 by omega, show i - (w - 8) < w by omega]
  · rw [BitVec.getLsbD_of_ge _ _ (Nat.not_lt.mp hi), BitVec.getLsbD_of_ge _ _ (Nat.not_lt.mp hi), Bool.and_false]

theorem low_shift (hw : 8 ≤ w) (c : BitVec w) : low c <<< 8 = c <<< 8 := by
  apply BitVec.eq_of_getLsbD_eq
  intro i hi
  rw [BitVec.getLsbD_shiftLeft, BitVec.getLsbD_shiftLeft, getLsbD_low hw]
  by_cases h8 : i < 8
  · simp [h8]
  · simp [show i - 8 < w - 8 by omega]

/-- The step for a byte with a table: the entries of the table are the remainders of single bytes. -/
theorem crcByte_table (hw : 8 ≤ w) (c : BitVec w) (b : BitVec 8) :
    crcByte poly c b = (c <<< 8) ^^^ crcByte poly 0#w (top c ^^^ b) := by
  have hsplit : c ^^^ (b.setWidth w <<< (w - 8)) = low c ^^^ ((top c ^^^ b).setWidth w <<< (w - 8)) := by
    rw [low, BitVec.setWidth_xor, BitVec.shiftLeft_xor_distrib, BitVec.xor_assoc, ← BitVec.xor_assoc ((top c).setWidth w <<< (w - 8)),
      BitVec.xor_self, BitVec.zero_xor]
  have hlow : shifts poly 8 (low c) = c <<< 8 := by
    rw [← low_shift hw]
    refine shifts_low poly (fun i hi => ?_) 8 le_rfl
    rw [getLsbD_low hw, decide_eq_false (by omega), Bool.false_and]
  unfold crcByte
  rw [hsplit, shifts_xor, hlow, BitVec.zero_xor]

end RedisProxy.Lib.Crc
