import RedisProxy.KeyHashSlot
import RedisProxy.Lib.Crc

/-!
# Proofs: the slot of a key

The lower half of the accumulator of `Crc16` is the remainder of the bytes read so far.
-/

namespace RedisProxy

open Lib List Byte

/-! ## `Crc16` -/

/-- The table holds the remainders of the single bytes. -/
theorem crc16tab_eq (b : BitVec 8) : (crc16tab.getD b.toNat 0).toBitVec = Crc.crcByte 0x1021#16 0#16 b := by
  have h : ∀ i : Fin 256, (crc16tab.getD i.val 0).toBitVec = Crc.crcByte 0x1021#16 0#16 (BitVec.ofFin i) := by
    decide +kernel
  exact h b.toFin

/-- The sign of a byte is cut off with the mask. -/
theorem charToUInt32_mod (c : UInt8) : (charToUInt32 c).toNat % 256 = c.toNat := by
  have h : ∀ i : Fin 256, (charToUInt32 ⟨BitVec.ofFin i⟩).toNat % 256 = i.val := by
    decide +kernel
  exact h c.toBitVec.toFin

theorem crc16Index_eq (crc : UInt32) (c : UInt8) :
    (((crc >>> 8) ^^^ charToUInt32 c) &&& 0x00ff).toNat = (Crc.top (crc.toBitVec.setWidth 16) ^^^ c.toBitVec).toNat := by
  have hmask : ∀ n : Nat, n &&& 255 = n % 2 ^ 8 := fun n => Nat.and_two_pow_sub_one_eq_mod n 8
  have htop : (Crc.top (crc.toBitVec.setWidth 16)).toNat = crc.toNat >>> 8 % 2 ^ 8 := by
    unfold Crc.top
    simp only [BitVec.toNat_setWidth, BitVec.toNat_ushiftRight, UInt32.toNat_toBitVec, Nat.shiftRight_eq_div_pow]
    omega
  have hchar : (charToUInt32 c).toNat % 2 ^ 8 = c.toNat := charToUInt32_mod c
  rw [BitVec.toNat_xor, htop, UInt8.toNat_toBitVec, ← hchar, ← Nat.xor_mod_two_pow, ← hmask]
  simp

/-- One byte: the lower half of the accumulator is the remainder. -/
theorem crc16Step_eq (crc : UInt32) (c : UInt8) :
    (crc16Step crc c).toBitVec.setWidth 16 = Crc.crcByte 0x1021#16 (crc.toBitVec.setWidth 16) c.toBitVec := by
  rw [Crc.crcByte_table _ (by decide), ← crc16tab_eq, ← crc16Index_eq]
  unfold crc16Step
  generalize crc16tab.getD _ 0 = t
  apply BitVec.eq_of_getLsbD_eq
  intro i hi
  simp [hi]

theorem crc16_eq (szKey : List UInt8) :
    (crc16 szKey).toBitVec.setWidth 16 = Crc.crc 0x1021#16 (szKey.map UInt8.toBitVec) := by
  have hfold : ∀ crc : UInt32, (szKey.foldl crc16Step crc).toBitVec.setWidth 16 =
      (szKey.map UInt8.toBitVec).foldl (Crc.crcByte 0x1021#16) (crc.toBitVec.setWidth 16) := by
    induction szKey with
    | nil => exact fun crc => rfl
    | cons c szKey ih =>
      intro crc
      rw [foldl_cons, ih, crc16Step_eq]
      rfl
  exact hfold 0

/-- The mask takes the remainder modulo the number of slots. -/
theorem slot_eq (szKey : List UInt8) :
    (crc16 szKey &&& 0x3FFF).toNat = (Crc.crc 0x1021#16 (szKey.map UInt8.toBitVec)).toNat % 16384 := by
  have hmask : (crc16 szKey &&& 0x3FFF).toNat = (crc16 szKey).toNat % 2 ^ 14 := by
    rw [UInt32.toNat_and]
    exact Nat.and_two_pow_sub_one_eq_mod _ 14
  rw [hmask, ← crc16_eq, BitVec.toNat_setWidth, UInt32.toNat_toBitVec]
  omega

/-! ## `KeyHashSlot` -/

section Scan

variable {ch : UInt8} {as bs : List UInt8}

/-- Where a loop that looks for a byte stops. -/
theorem findIdx_first (h : ch ∉ as) : (as ++ ch :: bs).findIdx (· == ch) = as.length := by
  have hnone : as.findIdx (· == ch) = as.length := by
    rw [findIdx_eq_length]
    intro c hc
    rw [beq_eq_false_iff_ne]
    rintro rfl
    exact h hc
  rw [findIdx_append, hnone, if_neg (Nat.lt_irrefl _), findIdx_cons, beq_self_eq_true]
  exact Nat.zero_add _

theorem findIdx_mem (h : as.findIdx (· == ch) ≠ as.length) : ∃ us vs, as = us ++ ch :: vs ∧ ch ∉ us := by
  apply eq_append_cons_of_mem
  by_contra hno
  apply h
  rw [findIdx_eq_length]
  intro c hc
  rw [beq_eq_false_iff_ne]
  rintro rfl
  exact hno hc

end Scan

/-- A key with a tag. -/
theorem keyHashSlot_tag {before tag behind : List UInt8} (hopen : Byte.braceOpen ∉ before) (hclose : Byte.braceClose ∉ tag)
    (hne : tag ≠ []) :
    keyHashSlot (before ++ Byte.braceOpen :: (tag ++ Byte.braceClose :: behind)) = crc16 tag &&& 0x3FFF := by
  have htag : tag.length ≠ 0 := fun h => hne (length_eq_zero_iff.mp h)
  have hdrop : (before ++ braceOpen :: (tag ++ braceClose :: behind)).drop (before.length + 1) =
      tag ++ braceClose :: behind := by
    rw [← drop_drop, drop_left, drop_one, tail_cons]
  unfold keyHashSlot
  dsimp only
  rw [findIdx_first hopen, hdrop, findIdx_first hclose]
  simp only [length_append, length_cons]
  rw [if_neg (by omega), if_neg (by omega), show before.length + 1 + tag.length - before.length - 1 = tag.length by omega,
    take_left]

/-- A key without one. -/
theorem keyHashSlot_whole {key : List UInt8}
    (hno : ¬∃ before tag behind, key = before ++ Byte.braceOpen :: (tag ++ Byte.braceClose :: behind) ∧
      Byte.braceOpen ∉ before ∧ Byte.braceClose ∉ tag ∧ tag ≠ []) : keyHashSlot key = crc16 key &&& 0x3FFF := by
  unfold keyHashSlot
  by_cases hs : key.findIdx (· == braceOpen) = key.length
  · rw [if_pos hs]
  · rw [if_neg hs]
    obtain ⟨before, rest, rfl, hopen⟩ := findIdx_mem hs
    have hdrop : (before ++ braceOpen :: rest).drop (before.length + 1) = rest := by
      rw [← drop_drop, drop_left, drop_one, tail_cons]
    rw [findIdx_first hopen, hdrop]
    -- the second loop runs to the end, or it stops behind the brace at once
    apply if_pos
    by_contra he
    rw [not_or] at he
    have hstop : rest.findIdx (· == braceClose) ≠ rest.length := by
      intro heq
      apply he.1
      rw [heq]
      simp
      omega
    obtain ⟨tag, behind, rfl, hclose⟩ := findIdx_mem hstop
    refine hno ⟨before, tag, behind, rfl, hopen, hclose, ?_⟩
    rintro rfl
    exact he.2 rfl

/-- The slot of a key is the CRC16 of the part that is hashed, modulo the number of slots. -/
theorem keyHashSlot_eq (key : List UInt8) :
    (∃ part, HashPart key part) ∧ ∀ part, HashPart key part →
      (keyHashSlot key).toNat = (Crc.crc 0x1021#16 (part.map UInt8.toBitVec)).toNat % 16384 := by
  constructor
  · by_cases h : ∃ before tag behind, key = before ++ braceOpen :: (tag ++ braceClose :: behind) ∧
        braceOpen ∉ before ∧ braceClose ∉ tag ∧ tag ≠ []
    · obtain ⟨before, tag, behind, hkey, hopen, hclose, hne⟩ := h
      exact ⟨tag, .tag before tag behind hkey hopen hclose hne⟩
    · exact ⟨key, .whole h⟩
  · intro part hpart
    cases hpart with
    | tag before _ behind hkey hopen hclose hne => rw [hkey, keyHashSlot_tag hopen hclose hne, slot_eq]
    | whole hno => rw [keyHashSlot_whole hno, slot_eq]

end RedisProxy
