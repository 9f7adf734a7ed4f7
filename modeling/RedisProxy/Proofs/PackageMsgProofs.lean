import RedisProxy.PackageMsg
import RedisProxy.Proofs.RequestChunkProofs

/-!
# What `PackageMsg` writes

The request has the length that is counted in advance (`length_encode`), the loop writes it behind what is there already
(`Written`), and the parser reads it back.
-/

namespace RedisProxy

open List Byte

variable {k n : Nat} {c : UInt8}

open Resp Lib

/-! ### Decimal numbers -/

theorem decimal_append (ds : List UInt8) (d : UInt8) : decimal (ds ++ [d]) = decimal ds * 10 + digitNat d := by
  unfold decimal
  rw [foldl_append]
  rfl

theorem digit_ofNat (hk : k < 10) : Byte.isDigit (UInt8.ofNat (48 + k)) = true ∧ digitNat (UInt8.ofNat (48 + k)) = k := by
  interval_cases k <;> decide

theorem decimalText_spec (n : Nat) : Canonical (decimalText n) ∧ decimal (decimalText n) = n := by
  induction n using decimalText.induct with
  | case1 n hn =>
    rw [decimalText, if_pos hn]
    obtain ⟨h1, h2⟩ := digit_ofNat hn
    refine ⟨⟨⟨by simp, by simpa using h1⟩, fun h => ?_⟩, ?_⟩
    · simp only [head?_cons, Option.some.injEq] at h
      rw [h]
    · simpa [decimal] using h2
  | case2 n hn ih =>
    rw [decimalText, if_neg hn]
    obtain ⟨h1, h2⟩ := digit_ofNat (Nat.mod_lt n (show 10 > 0 by decide))
    obtain ⟨⟨⟨hne, hd⟩, hc⟩, hv⟩ := ih
    refine ⟨⟨⟨by simp, fun d hm => ?_⟩, fun h => ?_⟩, ?_⟩
    · rcases mem_append.mp hm with hm | hm
      · exact hd d hm
      · cases mem_singleton.mp hm
        exact h1
    · -- the leading part would be 0
      rw [head?_append_of_ne_nil _ hne] at h
      rw [hc h] at hv
      have : n / 10 = 0 := hv.symm
      omega
    · rw [decimal_append, hv, h2]
      omega

theorem decimalText_digit (hc : c ∈ decimalText k) : Byte.isDigit c = true :=
  (decimalText_spec k).1.1.2 c hc

theorem decimalText_notMem (k : Nat) (hc : Byte.isDigit c = false) : c ∉ decimalText k := fun hm => by
  rw [decimalText_digit hm] at hc
  cases hc

theorem decimalText_ne (k : Nat) : decimalText k ≠ [] := (decimalText_spec k).1.1.1

theorem decimalText_inj {l : Nat} (h : decimalText k = decimalText l) : k = l := by
  rw [← (decimalText_spec k).2, ← (decimalText_spec l).2, h]

theorem length_decimalText_lt (h : n < 10) : (decimalText n).length = 1 := by
  rw [decimalText, if_pos h]
  rfl

theorem length_decimalText_ge (h : 10 ≤ n) : (decimalText n).length = (decimalText (n / 10)).length + 1 := by
  rw [decimalText, if_neg (not_lt.mpr h), length_append]
  rfl

/-- A number of at least `k + 1` digits without its last `k` digits. -/
theorem length_decimalText_div (h : 10 ^ k ≤ n) : (decimalText n).length = (decimalText (n / 10 ^ k)).length + k := by
  induction k generalizing n with
  | zero => rw [pow_zero, Nat.div_one, Nat.add_zero]
  | succ k ih =>
    have hn : 10 ≤ n := le_trans (Nat.le_self_pow (Nat.succ_ne_zero k) 10) h
    have hk : 10 ^ k ≤ n / 10 := by
      rw [Nat.le_div_iff_mul_le (by decide), ← pow_succ]
      exact h
    rw [length_decimalText_ge hn, ih hk, Nat.div_div_eq_div_mul, ← pow_succ']
    rfl

/-- A number of `k + 1` digits. -/
theorem length_decimalText_eq (h : 10 ^ k ≤ n) (hlt : n < 10 ^ (k + 1)) : (decimalText n).length = k + 1 := by
  rw [length_decimalText_div h, length_decimalText_lt, Nat.add_comm]
  rw [Nat.div_lt_iff_lt_mul (Nat.pow_pos (by decide)), ← pow_succ']
  exact hlt

theorem countDigitsFrom_eq (v result : Nat) : countDigitsFrom v (result + 1) = result + (decimalText v).length := by
  generalize hr : result + 1 = r
  induction v, r using countDigitsFrom.induct generalizing result with
  | case1 v r h1 => rw [countDigitsFrom, if_pos h1, length_decimalText_lt h1, hr]
  | case2 v r h1 h2 =>
    rw [countDigitsFrom, if_neg h1, if_pos h2, length_decimalText_eq (k := 1) (by omega) (by omega)]
    omega
  | case3 v r h1 h2 h3 =>
    rw [countDigitsFrom, if_neg h1, if_neg h2, if_pos h3, length_decimalText_eq (k := 2) (by omega) (by omega)]
    omega
  | case4 v r h1 h2 h3 h4 =>
    rw [countDigitsFrom, if_neg h1, if_neg h2, if_neg h3, if_pos h4, length_decimalText_eq (k := 3) (by omega) (by omega)]
    omega
  | case5 v r h1 h2 h3 h4 ih =>
    rw [countDigitsFrom, if_neg h1, if_neg h2, if_neg h3, if_neg h4, ih (result + 4) (by omega),
      length_decimalText_div (show 10 ^ 4 ≤ v by omega), show 10 ^ 4 = 10000 from rfl]
    omega

/-- `countDigits` counts the digits. -/
theorem countDigits_eq (v : Nat) : countDigits v = (decimalText v).length := by
  rw [countDigits, countDigitsFrom_eq v 0, Nat.zero_add]

theorem digits10_eq (v : Nat) : digits10 v = (decimalText v).length := by
  induction v using Nat.strong_induction_on with
  | _ v ih =>
    rw [digits10]
    split_ifs
    · rw [length_decimalText_lt (by omega)]
    · rw [length_decimalText_eq (k := 1) (by omega) (by omega)]
    · rw [length_decimalText_eq (k := 2) (by omega) (by omega)]
    · rw [length_decimalText_eq (k := 3) (by omega) (by omega)]
    · rw [length_decimalText_eq (k := 5) (by omega) (by omega)]
    · rw [length_decimalText_eq (k := 4) (by omega) (by omega)]
    · rw [length_decimalText_eq (k := 7) (by omega) (by omega)]
    · rw [length_decimalText_eq (k := 6) (by omega) (by omega)]
    · rw [length_decimalText_eq (k := 9) (by omega) (by omega)]
    · rw [length_decimalText_eq (k := 8) (by omega) (by omega)]
    · rw [length_decimalText_eq (k := 11) (by omega) (by omega)]
    · rw [length_decimalText_eq (k := 10) (by omega) (by omega)]
    · rw [length_decimalText_div (show 10 ^ 12 ≤ v by omega), ih _ (by omega), Nat.add_comm]
      rfl

/-- Both ways to count the digits of a number agree with the text that is printed. -/
theorem digit_counts_agree (v : Nat) : countDigits v = digits10 v ∧ digits10 v = (decimalText v).length := by
  rw [countDigits_eq, digits10_eq]
  exact ⟨rfl, rfl⟩

/-! ### The request -/

/-- The bulk string `arg`, as `PackageMsg` writes it. -/
def encodeArg (arg : List UInt8) : List UInt8 := Byte.usd :: decimalText arg.length ++ crlf ++ arg ++ crlf

/-- The request with the arguments `argv`, as `PackageMsg` writes it. -/
def encode (argv : List (List UInt8)) : List UInt8 :=
  Byte.star :: decimalText argv.length ++ crlf ++ (argv.map encodeArg).flatten

theorem request_encode (argv : List (List UInt8)) : Request Canonical argv (encode argv) := by
  obtain ⟨h1, h2⟩ := decimalText_spec argv.length
  refine ⟨decimalText argv.length, argv.map encodeArg, h1, h2, ?_, rfl⟩
  rw [forall₂_map_right_iff]
  refine forall₂_same.mpr fun arg _ => ?_
  obtain ⟨h3, h4⟩ := decimalText_spec arg.length
  exact ⟨decimalText arg.length, h3, h4, rfl⟩

theorem length_encodeArg (arg : List UInt8) : (encodeArg arg).length = bulkLen arg.length := by
  simp only [encodeArg, bulkLen, countDigits_eq, crlf, length_append, length_cons, length_nil]
  omega

/-- The length that is counted in advance, if it does not overflow. -/
theorem totlen_eq {argv : List (List UInt8)} (h : (encode argv).length < 2 ^ 31) : totlen argv = (encode argv).length := by
  have hhead : (star :: decimalText argv.length ++ crlf).length = 1 + countDigits argv.length + 2 := by
    simp only [countDigits_eq, crlf, length_append, length_cons, length_nil]
    omega
  have hfold : ∀ (as : List (List UInt8)) (n : Nat), n + ((as.map encodeArg).flatten).length < 2 ^ 31 →
      as.foldl (fun totlen arg => int32 (totlen + bulkLen arg.length)) (n : Int) = (n + ((as.map encodeArg).flatten).length : Nat) := by
    intro as
    induction as with
    | nil => simp
    | cons a as ih =>
      intro n hn
      simp only [map_cons, flatten_cons, length_append, length_encodeArg] at hn ⊢
      rw [foldl_cons, int32_eq (by omega) (by omega), ← Nat.cast_add, ih (n + bulkLen a.length) (by omega)]
      push_cast
      omega
  unfold encode at h ⊢
  rw [length_append, hhead] at h ⊢
  unfold totlen
  rw [int32_eq (by omega) (by omega)]
  exact_mod_cast hfold argv _ h

/-! ### The memory -/

section

variable {mem mem' : Int → UInt8} {cmd p : Int} {w bs : List UInt8} {s : PackageMsg.Cmd}
variable {argv : List (List UInt8)}

theorem bytesAt_congr {n : Nat} (h : ∀ a, p ≤ a → a < p + n → mem a = mem' a) : bytesAt mem p n = bytesAt mem' p n := by
  induction n generalizing p with
  | zero => rfl
  | succ n ih =>
    unfold bytesAt
    rw [h p (le_refl _) (by omega), ih fun a h1 h2 => h a (by omega) (by push_cast; omega)]

theorem bytesAt_writeAt (mem : Int → UInt8) (p : Int) (bs : List UInt8) : bytesAt (writeAt mem p bs) p bs.length = bs := by
  refine Layer.bytesAt_of_getD fun i hi => ?_
  unfold writeAt
  rw [if_pos ⟨by omega, by omega⟩, add_sub_cancel_left, Int.toNat_natCast]

theorem writeAt_of_not {a : Int} (h : a < p ∨ p + bs.length ≤ a) : writeAt mem p bs a = mem a :=
  if_neg (by omega)

/-- The bytes `w` have been written to `cmd`, and nothing else but one byte after them. -/
structure Written (mem : Int → UInt8) (cmd : Int) (w : List UInt8) (s : PackageMsg.Cmd) : Prop where
  bytes : bytesAt s.mem cmd w.length = w
  pos : s.pos = w.length
  frame : ∀ a, a < cmd ∨ cmd + w.length < a → s.mem a = mem a

/-- More bytes, and `z` after them. -/
theorem Written.write (h : Written mem cmd w s) (t z : List UInt8) (hz : z.length ≤ 1) (hlt : (w ++ t).length < 2 ^ 31) :
    Written mem cmd (w ++ t) ⟨writeAt s.mem (cmd + s.pos) (t ++ z), int32 (s.pos + t.length)⟩ := by
  obtain ⟨h1, h2, h3⟩ := h
  rw [length_append] at hlt
  refine ⟨?_, ?_, fun a ha => ?_⟩
  · have hw : bytesAt (writeAt s.mem (cmd + s.pos) (t ++ z)) cmd w.length = w := by
      rw [bytesAt_congr fun a _ h5 => writeAt_of_not (.inl (by omega)), h1]
    have ht := Layer.bytesAt_left (bytesAt_writeAt s.mem (cmd + s.pos) (t ++ z))
    rw [length_append, RedisMsg.bytesAt_add, hw, ← h2, ht]
  · dsimp only
    rw [int32_eq (by omega) (by omega), h2, length_append]
    rfl
  · rw [length_append] at ha
    dsimp only
    rw [writeAt_of_not (by rw [length_append]; push_cast; omega)]
    exact h3 a (by omega)

theorem Written.packageArg (h : Written mem cmd w s) {arg : List UInt8} (hlt : (w ++ encodeArg arg).length < 2 ^ 31) :
    Written mem cmd (w ++ encodeArg arg) (PackageMsg.packageArg cmd s arg) := by
  have e : w ++ encodeArg arg = w ++ (usd :: decimalText arg.length ++ crlf) ++ arg ++ [cr] ++ [lf] := by
    simp [encodeArg, crlf]
  rw [e] at hlt ⊢
  have h1 := h.write (usd :: decimalText arg.length ++ crlf) [0] (le_refl _)
    (by simp only [length_append] at hlt ⊢; omega)
  have h2 := h1.write arg [] (by simp) (by simp only [length_append] at hlt ⊢; omega)
  have h3 := h2.write [cr] [] (by simp) (by simp only [length_append] at hlt ⊢; omega)
  have h4 := h3.write [lf] [] (by simp) hlt
  simp only [append_nil] at h4
  exact h4

/-- The second loop. -/
theorem Written.args (h : Written mem cmd w s) (hlt : (w ++ (argv.map encodeArg).flatten).length < 2 ^ 31) :
    Written mem cmd (w ++ (argv.map encodeArg).flatten) (argv.foldl (PackageMsg.packageArg cmd) s) := by
  induction argv generalizing w s with
  | nil => simpa using h
  | cons a argv ih =>
    rw [map_cons, flatten_cons, ← append_assoc] at hlt ⊢
    have hle : (w ++ encodeArg a).length < 2 ^ 31 := by
      rw [length_append] at hlt
      omega
    exact ih (h.packageArg hle) hlt

/-- The assertion holds, the block has the request, and no other byte of the memory has changed. -/
theorem packageMsg_eq (mem : Int → UInt8) (cmd : Int) (hlt : (encode argv).length < 2 ^ 31) :
    ∃ mem', packageMsg mem cmd argv = some (mem', totlen argv) ∧ bytesAt mem' cmd (encode argv).length = encode argv ∧
      ∀ a, a < cmd ∨ cmd + totlen argv < a → mem' a = mem a := by
  have htot := totlen_eq hlt
  have h0 : Written mem cmd [] ⟨mem, 0⟩ := ⟨rfl, rfl, fun _ _ => rfl⟩
  have h1 := h0.write (star :: decimalText argv.length ++ crlf) [0] (le_refl _)
    (by unfold encode at hlt; simp only [nil_append, length_append] at hlt ⊢; omega)
  have h2 : Written mem cmd (encode argv) (argv.foldl (PackageMsg.packageArg cmd)
    ((PackageMsg.Cmd.mk mem 0).sprintf cmd (star :: decimalText argv.length ++ crlf))) := h1.args hlt
  unfold packageMsg
  dsimp only
  generalize argv.foldl (PackageMsg.packageArg cmd)
    ((PackageMsg.Cmd.mk mem 0).sprintf cmd (star :: decimalText argv.length ++ crlf)) = s at h2
  obtain ⟨h3, h4, h5⟩ := h2
  have hpos : s.pos = totlen argv := h4.trans htot.symm
  refine ⟨_, by rw [if_pos hpos, hpos], ?_, fun a ha => ?_⟩
  · rw [bytesAt_congr fun a _ h6 => writeAt_of_not (.inl (by omega)), h3]
  · rw [writeAt_of_not (by simp only [length_singleton]; omega)]
    exact h5 a (by omega)

end

/-! ### Reading it back -/

namespace Layer

section

variable {rd : Int → UInt8} {ch : UInt8} {pr pr' : Option MsgResults} {m m' : Layer} {next next' : List Layer}

/-- A byte does the same without results, unless there is no room for a line. -/
theorem byte_without (h : m.byte rd ch pr next = (none, pr', m', next')) : m.byte rd ch none next = (none, none, m', next') := by
  rw [byte_eq] at h ⊢
  unfold layerByte at h ⊢
  split_ifs at h ⊢ with hr
  · rcases hl : m.lineByte ch next (subByte rd ch m next) with ⟨_ | _ | iRet, m1, next1⟩
    · rw [hl] at h
      cases h
      rfl
    · rw [hl] at h
      dsimp only at h ⊢
      unfold endLine at h ⊢
      rcases ha : m1.addResult pr with _ | pr1
      · rw [ha] at h
        cases h
      · rw [ha] at h
        dsimp only [addResult] at h ⊢
        by_cases h0 : (m1.lineDone rd).iNeedArgNum = 0
        · rw [if_pos h0] at h
          cases h
        · rw [if_neg h0] at h ⊢
          simp only [Prod.mk.injEq, true_and] at h ⊢
          exact h.2
    · rw [hl] at h
      cases h
  · simp only [Prod.mk.injEq] at h ⊢
    exact ⟨h.1, trivial, h.2.2⟩

/-- A condition along the bytes, if there are results. -/
theorem Tracks.along_results {c : Scan} {x : Nat} {bs : List UInt8} {P : UInt8 → Scan → Prop}
    {Q : UInt8 → Layer → List Layer → Prop} (hPQ : ∀ b m next c x, Tracks m next c x → P b c → Q b m next)
    (ht : Tracks m next c x) (ha : Along Scan.Fit Scan.step bs c) (hp : Along P Scan.step bs c) (pr : Option MsgResults) :
    Along (fun b s => Q b s.this s.next) (Parse.step rd) bs ⟨pr, m, next⟩ := by
  have hnone : Along (fun b s => Q b s.this s.next) (Parse.step rd) bs ⟨none, m, next⟩ := ht.along hPQ ha hp
  refine Along.sim (R := fun s t => s.this = t.this ∧ s.next = t.next ∧ s.pResults = none) ?_ ?_ ⟨rfl, rfl, rfl⟩ hnone
  · rintro b s t ⟨h2, h3, -⟩ hf
    rw [← h2, ← h3]
    exact hf
  · rintro b s ⟨pr, m, next⟩ t' ⟨h2, h3, h4⟩ hs
    obtain ⟨pr0, m0, next0⟩ := s
    subst h2 h3 h4
    rcases hb : m0.byte rd b pr next0 with ⟨o, pr1, m1, next1⟩
    unfold Parse.step at hs ⊢
    rw [hb] at hs
    obtain ⟨rfl, rfl⟩ := hs
    rw [byte_without hb]
    exact ⟨_, rfl, rfl, rfl, rfl⟩

end

end Layer

end RedisProxy
