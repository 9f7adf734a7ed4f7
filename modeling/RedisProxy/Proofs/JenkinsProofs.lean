import RedisProxy.Jenkins

/-!
# Proofs: `Jenkins` does not depend on the alignment

A word is the sum of its bytes, each at its place, and masking a word leaves the bytes of the key. The three paths
therefore add the same numbers. What the path for odd addresses reads are the bytes of the key and no others.
-/

namespace RedisProxy.Jenkins

section Words

variable (rd : Int → UInt8)
variable {m n : Nat} {k : Int}

theorem load8_eq (k : Int) : load8 rd k = UInt32.ofNat (rd k).toNat := by
  apply UInt32.toNat_inj.mp
  simp [load8]

theorem shift_eq (hn : n < 32) (hm : m < 2 ^ 32) : UInt32.ofNat m <<< UInt32.ofNat n = UInt32.ofNat (m * 2 ^ n) := by
  apply UInt32.toNat_inj.mp
  rw [UInt32.toNat_shiftLeft, UInt32.toNat_ofNat', UInt32.toNat_ofNat', UInt32.toNat_ofNat', Nat.shiftLeft_eq,
    Nat.mod_eq_of_lt (a := n) (by omega), Nat.mod_eq_of_lt hn, Nat.mod_eq_of_lt hm]

theorem load8_shift (k : Int) (hn : n < 32) :
    load8 rd k <<< UInt32.ofNat n = UInt32.ofNat ((rd k).toNat * 2 ^ n) := by
  have := (rd k).toNat_lt
  rw [load8_eq, shift_eq hn (by omega)]

theorem load8_shift8 (k : Int) : load8 rd k <<< 8 = UInt32.ofNat ((rd k).toNat * 2 ^ 8) :=
  load8_shift rd k (by decide)

theorem load8_shift16 (k : Int) : load8 rd k <<< 16 = UInt32.ofNat ((rd k).toNat * 2 ^ 16) :=
  load8_shift rd k (by decide)

theorem load8_shift24 (k : Int) : load8 rd k <<< 24 = UInt32.ofNat ((rd k).toNat * 2 ^ 24) :=
  load8_shift rd k (by decide)

/-- A word of 16 bits is the sum of its bytes. -/
theorem load16_eq (k : Int) : load16 rd k = load8 rd k + load8 rd (k + 1) <<< 8 := by
  rw [load8_shift8, load8_eq, load16, UInt32.ofNat_add]

theorem load16_shift (k : Int) : load16 rd k <<< 16 = load8 rd k <<< 16 + load8 rd (k + 1) <<< 24 := by
  have h0 := (rd k).toNat_lt
  have h1 := (rd (k + 1)).toNat_lt
  rw [load8_shift16, load8_shift24, load16, show (16 : UInt32) = UInt32.ofNat 16 from rfl, shift_eq (by decide) (by omega),
    ← UInt32.ofNat_add]
  exact congrArg UInt32.ofNat (by omega)

/-- A word of 32 bits is the sum of its bytes. -/
theorem load32_eq (k : Int) :
    load32 rd k = load8 rd k + load8 rd (k + 1) <<< 8 + load8 rd (k + 2) <<< 16 + load8 rd (k + 3) <<< 24 := by
  rw [load8_shift8, load8_shift16, load8_shift24, load8_eq, load32, UInt32.ofNat_add, UInt32.ofNat_add, UInt32.ofNat_add]

/-- Masking a word is taking a remainder. -/
theorem mask_eq (hm : m < 2 ^ 32) (hn : n < 32) :
    UInt32.ofNat m &&& UInt32.ofNat (2 ^ n - 1) = UInt32.ofNat (m % 2 ^ n) := by
  have hpow : 2 ^ n < 2 ^ 32 := Nat.pow_lt_pow_right (by decide) hn
  apply UInt32.toNat_inj.mp
  rw [UInt32.toNat_and, UInt32.toNat_ofNat', UInt32.toNat_ofNat', UInt32.toNat_ofNat', Nat.mod_eq_of_lt hm,
    Nat.mod_eq_of_lt (by omega), Nat.and_two_pow_sub_one_eq_mod,
    Nat.mod_eq_of_lt (a := m % 2 ^ n) (by omega)]

theorem load32_mask (k : Int) (hn : n < 32) :
    load32 rd k &&& UInt32.ofNat (2 ^ n - 1) = UInt32.ofNat (((rd k).toNat + (rd (k + 1)).toNat * 2 ^ 8 +
      (rd (k + 2)).toNat * 2 ^ 16 + (rd (k + 3)).toNat * 2 ^ 24) % 2 ^ n) := by
  have h0 := (rd k).toNat_lt
  have h1 := (rd (k + 1)).toNat_lt
  have h2 := (rd (k + 2)).toNat_lt
  have h3 := (rd (k + 3)).toNat_lt
  exact mask_eq (by omega) hn

theorem load32_mask8 (k : Int) : load32 rd k &&& (0xff : UInt32) = load8 rd k := by
  have h0 := (rd k).toNat_lt
  rw [show (0xff : UInt32) = UInt32.ofNat (2 ^ 8 - 1) from rfl, load32_mask rd k (by decide), load8_eq]
  exact congrArg UInt32.ofNat (by omega)

theorem load32_mask16 (k : Int) : load32 rd k &&& (0xffff : UInt32) = load8 rd k + load8 rd (k + 1) <<< 8 := by
  have h0 := (rd k).toNat_lt
  have h1 := (rd (k + 1)).toNat_lt
  rw [show (0xffff : UInt32) = UInt32.ofNat (2 ^ 16 - 1) from rfl, load32_mask rd k (by decide), load8_shift8, load8_eq,
    ← UInt32.ofNat_add]
  exact congrArg UInt32.ofNat (by omega)

theorem load32_mask24 (k : Int) :
    load32 rd k &&& (0xffffff : UInt32) = load8 rd k + load8 rd (k + 1) <<< 8 + load8 rd (k + 2) <<< 16 := by
  have h0 := (rd k).toNat_lt
  have h1 := (rd (k + 1)).toNat_lt
  have h2 := (rd (k + 2)).toNat_lt
  rw [show (0xffffff : UInt32) = UInt32.ofNat (2 ^ 24 - 1) from rfl, load32_mask rd k (by decide), load8_shift8,
    load8_shift16, load8_eq, ← UInt32.ofNat_add, ← UInt32.ofNat_add]
  exact congrArg UInt32.ofNat (by omega)

/-! ## The three paths -/

theorem add32_eq : add32 rd = add8 rd := by
  funext x k
  rw [add32, add8, load32_eq]
  grind

theorem add16_eq : add16 rd = add8 rd := by
  funext x k
  rw [add16, add8, load16_shift, load16_eq, add_assoc k 2 1]
  grind

theorem blocks_rest (add : UInt32 → Int → UInt32) (k : Int) (iKeyLen : Nat) (s : Jenkins) :
    (blocks add k iKeyLen s).2.1 ≤ 12 := by
  induction iKeyLen using Nat.strong_induction_on generalizing k s with
  | _ iKeyLen ih =>
    rw [blocks]
    split_ifs with h
    · exact ih _ (by omega) _ _
    · exact not_lt.mp h

theorem tail32_eq (hn : n ≤ 12) (s : Jenkins) : tail32 rd k n s = tail8 rd k n s := by
  interval_cases n
  all_goals
    -- the masked words first: they are no longer sums of all their bytes
    simp only [tail32, load32_mask8, load32_mask16, load32_mask24]
    simp [tail8, load32_eq, add_assoc k]
  all_goals grind

theorem tail16_eq (hn : n ≤ 12) (s : Jenkins) : tail16 rd k n s = tail8 rd k n s := by
  interval_cases n
  all_goals
    simp only [tail16, add16, load16_shift]
    simp [tail8, load16_eq, add_assoc k]
  all_goals grind

theorem path32_eq : path32 rd = path8 rd := by
  funext szKey iKeyLen
  rw [path32, path8, path, path, add32_eq]
  dsimp only
  rw [tail32_eq rd (blocks_rest ..)]

theorem path16_eq : path16 rd = path8 rd := by
  funext szKey iKeyLen
  rw [path16, path8, path, path, add16_eq]
  dsimp only
  rw [tail16_eq rd (blocks_rest ..)]

end Words

/-! ## The bytes that are read -/

section Key

variable {rd rd' : Int → UInt8} {k k' : Int}
variable {n : Nat}

theorem add8_congr (h : ∀ i : Nat, i < 4 → rd (k + i) = rd' (k' + i)) (x : UInt32) : add8 rd x k = add8 rd' x k' := by
  have h0 := h 0 (by decide)
  have h1 := h 1 (by decide)
  have h2 := h 2 (by decide)
  have h3 := h 3 (by decide)
  push_cast at h0 h1 h2 h3
  rw [add_zero, add_zero] at h0
  simp only [add8, load8, h0, h1, h2, h3]

theorem tail8_congr (h : ∀ i : Nat, i < n → rd (k + i) = rd' (k' + i)) (s : Jenkins) :
    tail8 rd k n s = tail8 rd' k' n s := by
  have hload : ∀ i : Nat, i < n → load8 rd (k + i) = load8 rd' (k' + i) := by
    intro i hi
    rw [load8, load8, h i hi]
  have h0 := hload 0
  rw [Nat.cast_zero, add_zero, add_zero] at h0
  have h1 := hload 1
  have h2 := hload 2
  have h3 := hload 3
  have h4 := hload 4
  have h5 := hload 5
  have h6 := hload 6
  have h7 := hload 7
  have h8 := hload 8
  have h9 := hload 9
  have h10 := hload 10
  have h11 := hload 11
  push_cast at h1 h2 h3 h4 h5 h6 h7 h8 h9 h10 h11
  by_cases hn : n ≤ 12
  · interval_cases n
    all_goals simp [tail8, *]
  · rw [tail8, tail8, if_pos (.inr (not_le.mp hn)), if_pos (.inr (not_le.mp hn))]

/-- The loop depends on the bytes it has passed. -/
theorem blocks8_congr (h : ∀ i : Nat, i < n → rd (k + i) = rd' (k' + i)) (s : Jenkins) :
    ∃ (off rest : Nat) (s' : Jenkins), blocks (add8 rd) k n s = (k + off, rest, s') ∧
      blocks (add8 rd') k' n s = (k' + off, rest, s') ∧ off + rest = n := by
  induction n using Nat.strong_induction_on generalizing k k' s with
  | _ n ih =>
    rw [blocks, blocks.eq_1 (add8 rd')]
    by_cases hn : 12 < n
    · have hsub : ∀ j : Nat, j + 4 ≤ n → ∀ x, add8 rd x (k + j) = add8 rd' x (k' + j) := by
        intro j hj x
        apply add8_congr
        intro i hi
        have := h (j + i) (by omega)
        push_cast at this
        rwa [← add_assoc, ← add_assoc] at this
      have h0 := hsub 0 (by omega)
      have h4 := hsub 4 (by omega)
      have h8 := hsub 8 (by omega)
      push_cast at h0 h4 h8
      rw [add_zero, add_zero] at h0
      have hrest : ∀ i : Nat, i < n - 12 → rd (k + 12 + i) = rd' (k' + 12 + i) := by
        intro i hi
        have := h (12 + i) (by omega)
        push_cast at this
        rwa [← add_assoc, ← add_assoc] at this
      obtain ⟨off, rest, s', h₁, h₂, hlen⟩ := ih (n - 12) (by omega) hrest
        (mix ⟨add8 rd s.a k, add8 rd s.b (k + 4), add8 rd s.c (k + 8)⟩)
      refine ⟨12 + off, rest, s', ?_, ?_, by omega⟩
      · rw [if_pos hn, h₁]
        push_cast
        rw [add_assoc]
      · rw [if_pos hn, ← h0, ← h4, ← h8, h₂]
        push_cast
        rw [add_assoc]
    · rw [if_neg hn, if_neg hn]
      exact ⟨0, n, s, by simp, by simp, by omega⟩

theorem path8_congr (h : ∀ i : Nat, i < n → rd (k + i) = rd' (k' + i)) : path8 rd k n = path8 rd' k' n := by
  obtain ⟨off, rest, s, h₁, h₂, hlen⟩ := blocks8_congr h (start n)
  rw [path8, path8, path, path, h₁, h₂]
  dsimp only
  rw [tail8_congr fun i hi => ?_]
  have := h (off + i) (by omega)
  push_cast at this
  rwa [← add_assoc, ← add_assoc] at this

end Key

theorem byte_of_bytesAt {rd rd' : Int → UInt8} {k k' : Int} {n i : Nat} (h : bytesAt rd k n = bytesAt rd' k' n) (hi : i < n) :
    rd (k + i) = rd' (k' + i) := by
  induction n generalizing k k' i with
  | zero => omega
  | succ n ih =>
    obtain ⟨hhead, htail⟩ := List.cons.inj h
    cases i with
    | zero => simpa using hhead
    | succ i =>
      have := ih htail (Nat.lt_of_succ_lt_succ hi)
      push_cast
      rwa [add_comm (i : Int) 1, ← add_assoc, ← add_assoc]

theorem jenkins_eq (rd : Int → UInt8) (szKey : Int) (n : Nat) : jenkins rd szKey n = path8 rd szKey n := by
  rw [jenkins, path32_eq, path16_eq, ite_self, ite_self]

/-- The three paths of `Jenkins` return the same value, and it is the same wherever the key lies. -/
theorem alignment_independent (rd : Int → UInt8) (szKey : Int) (iKeyLen : Nat) :
    path32 rd szKey iKeyLen = path8 rd szKey iKeyLen ∧ path16 rd szKey iKeyLen = path8 rd szKey iKeyLen ∧
      ∀ (rd' : Int → UInt8) (szKey' : Int), bytesAt rd' szKey' iKeyLen = bytesAt rd szKey iKeyLen →
        jenkins rd' szKey' iKeyLen = jenkins rd szKey iKeyLen := by
  refine ⟨by rw [path32_eq], by rw [path16_eq], fun rd' szKey' hkey => ?_⟩
  rw [jenkins_eq, jenkins_eq]
  exact path8_congr fun i hi => byte_of_bytesAt hkey hi

/-- A key of five bytes, once at the address 4 and once at the address 5. -/
theorem alignment_independent_five :
    jenkins (fun p => (p - 1).toNat.toUInt8) 5 5 = jenkins (fun p => p.toNat.toUInt8) 4 5 :=
  (alignment_independent (fun p => p.toNat.toUInt8) 4 5).2.2 _ 5 (by decide)

end RedisProxy.Jenkins
