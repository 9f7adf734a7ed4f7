import RedisProxy.Rdb
import RedisProxy.Proofs.RequestChunkProofs

/-!
# Proofs: the lengths that `RdbLoadLenByRef` reads

The sign of a byte goes into the length where the byte is used as it is. It is masked away in the first byte of the
short forms, so these are read as long as their second byte is small. The first byte of the long forms is negative and
never equal to the positive constant it is compared with.
-/

namespace RedisProxy

open List

variable {b : UInt8} {n : Nat}

/-! ## One byte -/

theorem charInt_low6 : ∀ b : UInt8, charInt b &&& 0x3f#32 = BitVec.ofNat 32 (b.toNat % 64) := by
  have h : ∀ n : Fin 256, charInt (UInt8.ofNat n) &&& 0x3f#32 = BitVec.ofNat 32 ((UInt8.ofNat n).toNat % 64) := by
    decide +kernel
  intro b
  simpa using h ⟨b.toNat, b.toNat_lt⟩

theorem charInt_type : ∀ b : UInt8, (charInt b &&& 0xc0#32).sshiftRight 6 = BitVec.ofNat 32 (b.toNat / 64) := by
  have h : ∀ n : Fin 256, (charInt (UInt8.ofNat n) &&& 0xc0#32).sshiftRight 6 =
      BitVec.ofNat 32 ((UInt8.ofNat n).toNat / 64) := by
    decide +kernel
  intro b
  simpa using h ⟨b.toNat, b.toNat_lt⟩

theorem charInt_of_lt (h : b.toNat < 128) : charInt b = BitVec.ofNat 32 b.toNat := by
  have hmsb : b.toBitVec.msb = false := by
    rw [BitVec.msb_eq_false_iff_two_mul_lt]
    change 2 * b.toNat < 256
    omega
  rw [charInt, BitVec.signExtend_eq_setWidth_of_msb_false hmsb]
  apply BitVec.eq_of_toNat_eq
  rw [BitVec.toNat_setWidth, BitVec.toNat_ofNat]
  rfl

theorem charInt_msb (h : 128 ≤ b.toNat) : (charInt b).msb = true := by
  have hmsb : b.toBitVec.msb = true := by
    rw [BitVec.msb_eq_true_iff_two_mul_ge]
    change 256 ≤ 2 * b.toNat
    omega
  rw [charInt, BitVec.msb_signExtend]
  simpa using hmsb

/-- A length that is not negative as an `int` keeps its value. -/
theorem signExtend_small (h : n < 2 ^ 31) : (BitVec.ofNat 32 n).signExtend 64 = BitVec.ofNat 64 n := by
  have hmsb : (BitVec.ofNat 32 n).msb = false := by
    rw [BitVec.msb_eq_false_iff_two_mul_lt, BitVec.toNat_ofNat]
    omega
  rw [BitVec.signExtend_eq_setWidth_of_msb_false hmsb]
  apply BitVec.eq_of_toNat_eq
  rw [BitVec.toNat_setWidth, BitVec.toNat_ofNat, BitVec.toNat_ofNat]
  omega

/-- The two bytes of a 14-bit length. -/
theorem shift_or_byte {a b : Nat} (ha : a < 64) (hb : b < 256) :
    BitVec.ofNat 32 a <<< 8 ||| BitVec.ofNat 32 b = BitVec.ofNat 32 (a * 256 + b) := by
  apply BitVec.eq_of_toNat_eq
  rw [BitVec.toNat_or, BitVec.toNat_shiftLeft, BitVec.toNat_ofNat, BitVec.toNat_ofNat, BitVec.toNat_ofNat,
    Nat.mod_eq_of_lt (by omega), Nat.mod_eq_of_lt (by omega), Nat.mod_eq_of_lt (by omega), Nat.shiftLeft_eq,
    Nat.mod_eq_of_lt (by omega), Nat.mul_comm]
  exact (Nat.two_pow_add_eq_or_of_lt hb a).symm

/-! ## The forms -/

section

variable {rd : Int → UInt8} {szMsgEnd szNowPos : Int} {lLen : BitVec 64}

theorem rdbLoadLen_6bit (h : (rd szNowPos).toNat < 64) :
    rdbLoadLenByRef rd szMsgEnd szNowPos lLen = ⟨.ok, BitVec.ofNat 64 (rd szNowPos).toNat, 1, 0⟩ := by
  have htype : (rd szNowPos).toNat / 64 = 0 := by omega
  have hlow : (rd szNowPos).toNat % 64 = (rd szNowPos).toNat := Nat.mod_eq_of_lt h
  unfold rdbLoadLenByRef
  simp only [charInt_type, charInt_low6, htype, hlow]
  rw [if_neg (by decide), if_pos trivial, signExtend_small (by omega)]

theorem rdbLoadLen_14bit (h : (rd szNowPos).toNat / 64 = 1) :
    rdbLoadLenByRef rd szMsgEnd szNowPos lLen =
      if szMsgEnd - szNowPos < 2 then ⟨.eagain, lLen, 0, 0⟩
      else ⟨.ok, (BitVec.ofNat 32 ((rd szNowPos).toNat % 64) <<< 8 ||| charInt (rd (szNowPos + 1))).signExtend 64, 2, 0⟩ := by
  unfold rdbLoadLenByRef
  simp only [charInt_type, charInt_low6, h]
  rw [if_neg (by decide), if_neg (by decide), if_pos trivial]

/-- The first byte of a long form is not recognized. -/
theorem rdbLoadLen_long (h : (rd szNowPos).toNat / 64 = 2) :
    rdbLoadLenByRef rd szMsgEnd szNowPos lLen = ⟨.error, lLen, 0, 0⟩ := by
  have hneg : (charInt (rd szNowPos)).msb = true := charInt_msb (by omega)
  have hne : ∀ x : BitVec 32, x.msb = false → charInt (rd szNowPos) ≠ x := by
    intro x hx heq
    rw [heq, hx] at hneg
    cases hneg
  unfold rdbLoadLenByRef
  simp only [charInt_type, h]
  rw [if_neg (by decide), if_neg (by decide), if_neg (by decide), if_neg (hne _ (by decide)), if_neg (hne _ (by decide))]

end

/-! ## The lengths that are read -/

/-- The encoding of `n` is read as `n`, and a part of it asks for more. -/
structure ReadsLength (n : Nat) : Prop where
  whole : ∀ (rd : Int → UInt8) (szMsgEnd szNowPos : Int) (lLen : BitVec 64),
    bytesAt rd szNowPos (rdbLength n).length = rdbLength n → szNowPos + (rdbLength n).length ≤ szMsgEnd →
      rdbLoadLenByRef rd szMsgEnd szNowPos lLen = ⟨.ok, BitVec.ofNat 64 n, (rdbLength n).length, 0⟩
  part : ∀ (rd : Int → UInt8) (szNowPos : Int) (lLen : BitVec 64) (k : Nat),
    0 < k → k < (rdbLength n).length → bytesAt rd szNowPos k = (rdbLength n).take k →
      (rdbLoadLenByRef rd (szNowPos + k) szNowPos lLen).ret = .eagain

theorem toNat_toUInt8 (h : n < 256) : n.toUInt8.toNat = n := by
  simpa using h

theorem readsLength_6bit (h : n < 64) : ReadsLength n := by
  have hlen : rdbLength n = [n.toUInt8] := if_pos (by omega)
  constructor
  · intro rd szMsgEnd szNowPos lLen hmem _
    rw [hlen] at hmem ⊢
    have hbyte : rd szNowPos = n.toUInt8 := (cons.inj hmem).1
    have hnat : (rd szNowPos).toNat = n := by rw [hbyte, toNat_toUInt8 (by omega)]
    rw [rdbLoadLen_6bit (by omega), hnat]
    rfl
  · intro rd szNowPos lLen k hk hlt _
    rw [hlen, length_singleton] at hlt
    omega

/-- The second byte of a 14-bit length is extended by its sign. -/
theorem rdbLoadLen_14bit_eq (h : 64 ≤ n) (hlt : n < 2 ^ 14) {rd : Int → UInt8} {szMsgEnd szNowPos : Int}
    {lLen : BitVec 64} (h0 : rd szNowPos = (64 + n / 256).toUInt8) (h1 : rd (szNowPos + 1) = (n % 256).toUInt8)
    (hend : szNowPos + 2 ≤ szMsgEnd) : rdbLoadLenByRef rd szMsgEnd szNowPos lLen =
      ⟨.ok, (BitVec.ofNat 32 (n / 256) <<< 8 ||| charInt (n % 256).toUInt8).signExtend 64, 2, 0⟩ := by
  have hn0 : (rd szNowPos).toNat = 64 + n / 256 := by rw [h0, toNat_toUInt8 (by omega)]
  have hlow : (64 + n / 256) % 64 = n / 256 := by omega
  rw [rdbLoadLen_14bit (by omega), if_neg (by omega), h1, hn0, hlow]

theorem readsLength_14bit (h : 64 ≤ n) (hlt : n < 2 ^ 14) (hlow : n % 256 < 128) : ReadsLength n := by
  have hlen : rdbLength n = [(64 + n / 256).toUInt8, (n % 256).toUInt8] := by
    rw [rdbLength, if_neg (by omega), if_pos hlt]
  constructor
  · intro rd szMsgEnd szNowPos lLen hmem hend
    rw [hlen] at hmem hend ⊢
    obtain ⟨h0, hrest⟩ := cons.inj hmem
    obtain ⟨h1, -⟩ := cons.inj hrest
    rw [rdbLoadLen_14bit_eq h hlt h0 h1 hend, charInt_of_lt (by rw [toNat_toUInt8] <;> omega),
      toNat_toUInt8 (by omega), shift_or_byte (by omega) (by omega), signExtend_small (by omega),
      Nat.div_add_mod']
    rfl
  · intro rd szNowPos lLen k hk hklt hmem
    rw [hlen] at hmem hklt
    obtain rfl : k = 1 := by
      simp only [length_cons, length_nil] at hklt
      omega
    have h0 : rd szNowPos = (64 + n / 256).toUInt8 := (cons.inj hmem).1
    have hn0 : (rd szNowPos).toNat = 64 + n / 256 := by rw [h0, toNat_toUInt8 (by omega)]
    rw [rdbLoadLen_14bit (by omega), if_pos (by omega)]

/-- What is read from a memory that holds nothing but the encoding. -/
theorem ReadsLength.eval (h : ReadsLength n) : rdbLoadLenByRef (memoryWith (rdbLength n)) (rdbLength n).length 0 0 =
      ⟨.ok, BitVec.ofNat 64 n, (rdbLength n).length, 0⟩ :=
  h.whole _ _ 0 0 (bytesAt_memoryWith _) (by omega)

/-- A large second byte makes a 14-bit length negative. -/
theorem not_readsLength_14bit (h : 64 ≤ n) (hlt : n < 2 ^ 14) (hlow : 128 ≤ n % 256) : ¬ ReadsLength n := by
  intro hreads
  have hlen : rdbLength n = [(64 + n / 256).toUInt8, (n % 256).toUInt8] := by
    rw [rdbLength, if_neg (by omega), if_pos hlt]
  have heval := hreads.eval
  rw [hlen, rdbLoadLen_14bit_eq h hlt rfl rfl (by simp)] at heval
  have hbits := congrArg (fun r => r.lLen.msb) heval
  have hmsb : (charInt (n % 256).toUInt8).msb = true := charInt_msb (by rw [toNat_toUInt8] <;> omega)
  have hpos : (BitVec.ofNat 64 n).msb = false := by
    rw [BitVec.msb_eq_false_iff_two_mul_lt, BitVec.toNat_ofNat]
    omega
  simp only [BitVec.msb_signExtend, hpos] at hbits
  simp [BitVec.msb_or, hmsb] at hbits

/-- No length of a long form is read. -/
theorem not_readsLength_long (h : 2 ^ 14 ≤ n) : ¬ ReadsLength n := by
  intro hreads
  have hfirst : ∃ b rest, rdbLength n = b :: rest ∧ b.toNat / 64 = 2 := by
    rw [rdbLength, if_neg (by omega), if_neg (by omega)]
    split_ifs
    · exact ⟨_, _, rfl, rfl⟩
    · exact ⟨_, _, rfl, rfl⟩
  obtain ⟨b, rest, hlen, hb⟩ := hfirst
  have heval := hreads.eval
  rw [hlen, rdbLoadLen_long hb] at heval
  cases congrArg RdbLen.ret heval

/-- `RdbLoadLenByRef` reads the lengths of one byte, and those of two bytes whose second byte is below 128. -/
theorem readsLength_iff (n : Nat) (_ : n < 2 ^ 64) : ReadsLength n ↔ n < 2 ^ 6 ∨ n < 2 ^ 14 ∧ n % 256 < 128 := by
  constructor
  · intro hreads
    by_contra hne
    by_cases h : n < 2 ^ 14
    · exact not_readsLength_14bit (by omega) h (by omega) hreads
    · exact not_readsLength_long (by omega) hreads
  · intro h
    by_cases h6 : n < 2 ^ 6
    · exact readsLength_6bit h6
    · exact readsLength_14bit (by omega) (by omega) (by omega)

theorem readsLength_iff_300 : ReadsLength 300 :=
  (readsLength_iff 300 (by decide)).mpr (.inr ⟨by decide, by decide⟩)

/-- The length 200 in 14 bits is read as `2 ^ 64 - 56`, and the length 16384 in 32 bits is an error. -/
theorem lengths_misread :
    rdbLoadLenByRef (memoryWith (rdbLength 200)) 2 0 0 = ⟨.ok, BitVec.ofNat 64 (2 ^ 64 - 56), 2, 0⟩ ∧
      rdbLoadLenByRef (memoryWith (rdbLength 16384)) 5 0 0 = ⟨.error, 0, 0, 0⟩ ∧
      ¬ ReadsLength 200 ∧ ¬ ReadsLength 16384 :=
  ⟨by decide, by decide, not_readsLength_14bit (by decide) (by decide) (by decide), not_readsLength_long (by decide)⟩

end RedisProxy
