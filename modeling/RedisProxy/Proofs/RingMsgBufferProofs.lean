import RedisProxy.RingMsgBuffer
import RedisProxy.Proofs.MsgBufferProofs

/-!
# Proofs: a `GR_RingMsgBufferMgr` refines a queue of bytes

Where the end of the buffer is follows from the start and the number of bytes, except that it may stand at either
side of the block when the buffer is empty. Each operation keeps this.
-/

namespace RedisProxy

open Lib List

namespace RingMsgBufferMgr

variable {b b' : RingMsgBufferMgr}
variable {i iLen : Nat} {mem : Int → UInt8} {p a : Int} {bs : List UInt8}

/-! ## The invariant -/

/-- The bytes start inside the block, and the end is behind them. -/
structure WF (b : RingMsgBufferMgr) : Prop where
  cap : b.pData.sCapacity < 2 ^ 31
  start_ge : b.pData.uszData ≤ b.szMsgStart
  start_le : b.szMsgStart < b.pData.uszEnd ∨ b.pData.sCapacity = 0 ∧ b.szMsgStart = b.pData.uszData
  idx : b.ulStartIdx ≤ b.ulEndIdx
  idx_le : b.ulEndIdx ≤ 0xFFFFFFFF
  stored_le : b.stored ≤ b.pData.sCapacity
  left : b.iLeft = b.pData.sCapacity - b.stored
  stop : (b.szMsgStart + b.stored ≤ b.pData.uszEnd ∧ b.szMsgEnd = b.szMsgStart + b.stored) ∨
    (b.pData.uszEnd < b.szMsgStart + b.stored ∧ b.szMsgEnd = b.szMsgStart + b.stored - b.pData.sCapacity) ∨
    (b.stored = 0 ∧ b.szMsgStart = b.pData.uszData ∧ b.szMsgEnd = b.pData.uszEnd)

theorem reuse_wf (h : b.pData.sCapacity < 2 ^ 31) : b.reuse.WF where
  cap := h
  start_ge := le_rfl
  start_le := by
    change b.pData.uszData < b.pData.uszData + b.pData.sCapacity ∨ b.pData.sCapacity = 0 ∧ b.pData.uszData = b.pData.uszData
    omega
  idx := le_rfl
  idx_le := Nat.zero_le _
  stored_le := Nat.zero_le _
  left := by
    simp only [reuse, stored]
    rw [int32_eq (by omega) (by omega)]
    simp
  stop := by
    simp [reuse, stored, Block.uszEnd]

theorem reuse_contents (b : RingMsgBufferMgr) : b.reuse.contents = [] := rfl

theorem WF.leftCapcity_eq (h : b.WF) : b.leftCapcity = b.pData.sCapacity - b.stored := by
  have hcap := h.cap
  have hidx := h.idx
  have hle := h.stored_le
  unfold leftCapcity
  unfold stored at hle ⊢
  rw [int32_eq (by omega) (by omega)]
  omega

theorem length_contents (b : RingMsgBufferMgr) : b.contents.length = b.stored := by
  simp [contents]

theorem contents_getD (b : RingMsgBufferMgr) (hi : i < b.stored) : b.contents.getD i 0 = b.mem (b.addr i) := by
  simp [contents, getD_eq_getElem?_getD, hi]

/-- The bytes of the buffer, one by one. -/
theorem contents_eq {l : List UInt8} (hlen : b.stored = l.length)
    (h : ∀ i < b.stored, b.mem (b.addr i) = l.getD i 0) : b.contents = l := by
  apply ext_getElem
  · rw [length_contents, hlen]
  · intro i hi hi'
    have hbyte := h i (by rw [hlen]; exact hi')
    rw [← contents_getD b (by rw [hlen]; exact hi')] at hbyte
    rwa [getD_eq_getElem _ _ hi, getD_eq_getElem _ _ hi'] at hbyte

/-- `ResetIdx` keeps the difference of the indices. -/
theorem resetIdx_eq (hidx : b.ulStartIdx ≤ b.ulEndIdx) (hlen : b.stored ≤ b.pData.sCapacity) (hcap : b.pData.sCapacity < 2 ^ 31)
    (hpos : b.ulEndIdx ≤ 0xFFFFFFFF ∨ 0 < b.pData.sCapacity) :
    ∃ i j : Nat, b.resetIdx = some { b with ulStartIdx := i, ulEndIdx := j } ∧ i ≤ j ∧ j ≤ 0xFFFFFFFF ∧ j - i = b.stored := by
  unfold resetIdx
  rw [if_pos hidx]
  by_cases hbig : 0xFFFFFFFF < b.ulEndIdx
  · rw [if_pos hbig]
    have hmod : b.ulStartIdx % b.pData.sCapacity < b.pData.sCapacity := Nat.mod_lt _ (hpos.resolve_left (by omega))
    unfold stored at hlen
    have htmp : int32 (b.ulEndIdx - b.ulStartIdx) = ((b.ulEndIdx - b.ulStartIdx : Nat) : Int) := by
      rw [int32_eq (by omega) (by omega)]
      omega
    refine ⟨_, _, rfl, ?_, ?_, ?_⟩
    · rw [htmp]
      omega
    · rw [htmp]
      omega
    · rw [htmp]
      unfold stored
      omega
  · rw [if_neg hbig]
    exact ⟨_, _, rfl, hidx, by omega, rfl⟩

/-! ## Writing -/

/-- The byte `i` of what has been copied. -/
theorem writeAt_get (hi : i < bs.length) (ha : a = p + i) : writeAt mem p bs a = bs.getD i 0 := by
  unfold writeAt
  rw [if_pos (by omega)]
  congr 1
  omega

/-- The end of `Write`: the bytes `bs` have been copied behind the others. -/
theorem WF.wrote (h : b.WF) {szMsgEnd : Int} (hle : b.stored + bs.length ≤ b.pData.sCapacity)
    (hstop : (b.szMsgStart + b.stored + bs.length ≤ b.pData.uszEnd ∧ szMsgEnd = b.szMsgStart + b.stored + bs.length) ∨
      (b.pData.uszEnd < b.szMsgStart + b.stored + bs.length ∧
        szMsgEnd = b.szMsgStart + b.stored + bs.length - b.pData.sCapacity) ∨
      (b.stored + bs.length = 0 ∧ b.szMsgStart = b.pData.uszData ∧ szMsgEnd = b.pData.uszEnd))
    (hold : ∀ i < b.stored, mem (b.addr i) = b.mem (b.addr i))
    (hnew : ∀ i < bs.length, mem (b.addr (b.stored + i)) = bs.getD i 0) :
    ∃ b', RingMsgBufferMgr.wrote { b with mem, szMsgEnd } bs.length = some b' ∧ b'.WF ∧ b'.contents = b.contents ++ bs := by
  have hcap := h.cap
  have hidx := h.idx
  have hidx_le := h.idx_le
  have hmod : (b.ulEndIdx + bs.length) % uint64Size = b.ulEndIdx + bs.length := by
    rw [uint64Size]
    exact Nat.mod_eq_of_lt (by omega)
  have hlen : b.ulEndIdx + bs.length - b.ulStartIdx = b.stored + bs.length := by
    unfold stored
    omega
  unfold RingMsgBufferMgr.wrote
  rw [hmod]
  obtain ⟨i, j, hreset, hij, hj, hdiff⟩ := resetIdx_eq (b := { b with
    mem, szMsgEnd
    iLeft := b.iLeft - bs.length
    ulEndIdx := b.ulEndIdx + bs.length }) (by dsimp only; omega) (by rw [stored]; dsimp only; omega) hcap
    (by dsimp only; omega)
  rw [stored] at hdiff
  rw [hlen] at hdiff
  refine ⟨_, hreset, ⟨hcap, h.start_ge, h.start_le, hij, hj, ?_, ?_, ?_⟩, ?_⟩
  · rw [stored]
    dsimp only
    omega
  · rw [stored]
    rw [hdiff, h.left]
    push_cast
    omega
  · rw [stored]
    push_cast
    omega
  · apply contents_eq
    · rw [stored, length_append, length_contents]
      exact hdiff
    · intro k hk
      rw [stored] at hk
      rw [hdiff] at hk
      change mem (b.addr k) = _
      by_cases hold' : k < b.stored
      · rw [hold k hold', getD_append _ _ _ _ (by rw [length_contents]; exact hold'), contents_getD b hold']
      · obtain ⟨d, rfl⟩ := Nat.exists_eq_add_of_le (Nat.le_of_not_lt hold')
        rw [hnew d (by omega), getD_append_right _ _ _ _ (by rw [length_contents]; omega), length_contents,
          Nat.add_sub_cancel_left]

/-- `Write` of at most `LeftCapcity` bytes appends them. -/
theorem WF.write (h : b.WF) (hbs : bs.length ≤ b.leftCapcity) :
    ∃ b', b.write bs = some b' ∧ b'.WF ∧ b'.contents = b.contents ++ bs := by
  have hcap := h.cap
  have hge := h.start_ge
  have hleft := h.left
  have hstop := h.stop
  have hend : b.pData.uszEnd = b.pData.uszData + b.pData.sCapacity := rfl
  have hroom : b.stored + bs.length ≤ b.pData.sCapacity := by
    rw [h.leftCapcity_eq] at hbs
    omega
  -- the room up to the end of the block or up to the start of the bytes
  have hto : (b.iLeft = 0 ∧ b.leftCapcityToEnd = 0) ∨
      (b.iLeft ≠ 0 ∧ b.szMsgStart ≤ b.szMsgEnd ∧ b.leftCapcityToEnd = b.pData.uszEnd - b.szMsgEnd) ∨
      (b.iLeft ≠ 0 ∧ b.szMsgEnd < b.szMsgStart ∧ b.leftCapcityToEnd = b.szMsgStart - b.szMsgEnd) := by
    unfold leftCapcityToEnd
    by_cases h0 : b.iLeft = 0
    · exact .inl ⟨h0, if_pos h0⟩
    · rw [if_neg h0]
      by_cases horder : b.szMsgStart ≤ b.szMsgEnd
      · rw [if_pos horder, int32_eq (by omega) (by omega)]
        exact .inr (.inl ⟨h0, horder, rfl⟩)
      · rw [if_neg horder, int32_eq (by omega) (by omega)]
        exact .inr (.inr ⟨h0, by omega, rfl⟩)
  unfold RingMsgBufferMgr.write
  generalize b.leftCapcityToEnd = iEndLen at hto ⊢
  rw [if_pos ⟨by omega, hbs⟩]
  by_cases hfit : bs.length ≤ iEndLen
  · rw [if_pos hfit]
    apply h.wrote hroom
    · omega
    · intro i hi
      refine writeAt_of_not ?_
      unfold addr
      split_ifs <;> omega
    · intro i hi
      refine writeAt_get hi ?_
      unfold addr
      split_ifs <;> omega
  · rw [if_neg hfit]
    by_cases hpos : 0 < iEndLen
    · rw [if_pos hpos, if_pos (by omega)]
      have htake : (bs.take iEndLen.toNat).length = iEndLen.toNat := by
        rw [length_take]
        omega
      have hdrop : (bs.drop iEndLen.toNat).length = bs.length - iEndLen.toNat := length_drop
      apply h.wrote hroom
      · omega
      · intro i hi
        rw [writeAt_of_not, writeAt_of_not]
        · rw [htake]
          unfold addr
          split_ifs <;> omega
        · rw [hdrop]
          unfold addr
          split_ifs <;> omega
      · intro i hi
        by_cases hfirst : i < iEndLen.toNat
        · rw [writeAt_of_not, writeAt_get (by rw [htake]; exact hfirst)]
          · rw [getD_eq_getElem?_getD, getElem?_take_of_lt hfirst, getD_eq_getElem?_getD]
          · unfold addr
            split_ifs <;> omega
          · rw [hdrop]
            unfold addr
            split_ifs <;> omega
        · rw [writeAt_get (i := i - iEndLen.toNat) (by rw [hdrop]; omega)]
          · rw [getD_eq_getElem?_getD, getElem?_drop, getD_eq_getElem?_getD]
            congr 2
            omega
          · unfold addr
            split_ifs <;> omega
    · rw [if_neg hpos]
      apply h.wrote hroom
      · omega
      · intro i hi
        refine writeAt_of_not ?_
        unfold addr
        split_ifs <;> omega
      · intro i hi
        refine writeAt_get hi ?_
        unfold addr
        split_ifs <;> omega

/-! ## Reading -/

/-- `MsgLenToEnd` are the bytes of the buffer up to the end of the block. -/
theorem WF.msgLenToEnd_eq (h : b.WF) :
    ∃ n : Nat, b.msgLenToEnd = some (n : Int) ∧ n ≤ b.stored ∧ b.szMsgStart + n ≤ b.pData.uszEnd ∧ (0 < b.stored → 0 < n) := by
  have hcap := h.cap
  have hstart := h.start_le
  have hle := h.stored_le
  have hleft := h.left
  have hstop := h.stop
  have hend : b.pData.uszEnd = b.pData.uszData + b.pData.sCapacity := rfl
  unfold msgLenToEnd
  by_cases hempty : b.iLeft = b.pData.sCapacity
  · rw [if_pos hempty]
    exact ⟨0, rfl, Nat.zero_le _, by omega, by omega⟩
  · rw [if_neg hempty]
    by_cases hsame : b.szMsgStart = b.szMsgEnd
    · rw [if_pos hsame, if_pos (by omega), int32_eq (by omega) (by omega)]
      exact ⟨(b.pData.uszEnd - b.szMsgStart).toNat, congrArg some (by omega), by omega, by omega, by omega⟩
    · rw [if_neg hsame]
      by_cases horder : b.szMsgStart < b.szMsgEnd
      · rw [if_pos horder, int32_eq (by omega) (by omega)]
        exact ⟨(b.szMsgEnd - b.szMsgStart).toNat, congrArg some (by omega), by omega, by omega, by omega⟩
      · rw [if_neg horder, int32_eq (by omega) (by omega)]
        exact ⟨(b.pData.uszEnd - b.szMsgStart).toNat, congrArg some (by omega), by omega, by omega, by omega⟩

/-- A reader gets the first bytes, and `Read` drops them. -/
theorem WF.read (h : b.WF) (hpos : 0 < iLen) (hlen : iLen ≤ b.msgLenToEnd.getD 0) :
    bytesAt b.mem b.szMsgStart iLen = b.contents.take iLen ∧
      ∃ b', b.read iLen = some b' ∧ b'.WF ∧ b'.contents = b.contents.drop iLen := by
  obtain ⟨n, hn, hnle, hnend, -⟩ := h.msgLenToEnd_eq
  rw [hn] at hlen
  have hlen : iLen ≤ n := Int.ofNat_le.mp hlen
  have hcap := h.cap
  have hge := h.start_ge
  have hle := h.stored_le
  have hidx := h.idx
  have hidx_le := h.idx_le
  have hstop := h.stop
  have hend : b.pData.uszEnd = b.pData.uszData + b.pData.sCapacity := rfl
  constructor
  · have htake : (b.contents.take iLen).length = iLen := by
      rw [length_take, length_contents]
      omega
    have hbytes : bytesAt b.mem b.szMsgStart (b.contents.take iLen).length = b.contents.take iLen := by
      refine Layer.bytesAt_of_getD fun i hi => ?_
      rw [htake] at hi
      rw [getD_eq_getElem?_getD, getElem?_take_of_lt hi, ← getD_eq_getElem?_getD, contents_getD b (by omega)]
      unfold addr
      rw [if_pos (by omega)]
    rwa [htake] at hbytes
  · have hmod : (b.ulStartIdx + iLen) % uint64Size = b.ulStartIdx + iLen := by
      rw [uint64Size]
      refine Nat.mod_eq_of_lt ?_
      omega
    have hstored : b.ulEndIdx - (b.ulStartIdx + iLen) = b.stored - iLen := by
      unfold stored
      omega
    have hidx' : b.ulStartIdx + iLen ≤ b.ulEndIdx := by
      unfold stored at hnle
      omega
    unfold RingMsgBufferMgr.read
    dsimp only
    rw [if_pos hpos, hmod]
    obtain ⟨start, hs⟩ : ∃ start, start = if b.szMsgStart + iLen = b.pData.uszEnd then b.pData.uszData else b.szMsgStart + iLen :=
      ⟨_, rfl⟩
    rw [← hs]
    obtain ⟨i, j, hreset, hij, hj, hdiff⟩ := resetIdx_eq (b := { b with
      szMsgStart := start
      iLeft := b.iLeft + iLen
      ulStartIdx := b.ulStartIdx + iLen }) hidx' (by rw [stored]; dsimp only; omega) hcap (by dsimp only; omega)
    rw [stored] at hdiff
    rw [hstored] at hdiff
    refine ⟨_, hreset, ⟨hcap, ?_, ?_, hij, hj, ?_, ?_, ?_⟩, ?_⟩
    · dsimp only
      omega
    · dsimp only
      omega
    · rw [stored]
      dsimp only
      omega
    · rw [stored]
      dsimp only
      rw [hdiff, h.left]
      omega
    · rw [stored]
      dsimp only
      omega
    · apply contents_eq
      · rw [stored, length_drop, length_contents]
        exact hdiff
      · intro k hk
        rw [stored] at hk
        rw [hdiff] at hk
        rw [getD_eq_getElem?_getD, getElem?_drop, ← getD_eq_getElem?_getD, contents_getD b (by omega)]
        change b.mem _ = _
        congr 1
        unfold addr
        dsimp only
        split_ifs <;> omega

/-! ## Expanding -/

/-- The bytes have been copied to the start of a larger block. -/
theorem WF.moved (h : b.WF) {pData : Block} (mem : Int → UInt8) (hcap : pData.sCapacity < 2 ^ 31) (hlt : b.stored < pData.sCapacity)
    (hcopy : ∀ i < b.stored, mem (pData.uszData + i) = b.mem (b.addr i)) :
    let b' : RingMsgBufferMgr := { b with
      mem, pData
      szMsgEnd := pData.uszData + b.stored
      szMsgStart := pData.uszData
      iLeft := int32 (pData.sCapacity - (pData.uszData + b.stored - pData.uszData)) }
    b'.WF ∧ b'.contents = b.contents := by
  intro b'
  have hend : pData.uszEnd = pData.uszData + pData.sCapacity := rfl
  have hstored : b'.stored = b.stored := rfl
  constructor
  · refine ⟨hcap, le_rfl, .inl ?_, h.idx, h.idx_le, hlt.le, ?_, .inl ⟨?_, rfl⟩⟩
    · change pData.uszData < pData.uszEnd
      omega
    · change int32 _ = (pData.sCapacity : Int) - b.stored
      rw [int32_eq (by omega) (by omega)]
      omega
    · change pData.uszData + (b.stored : Int) ≤ pData.uszEnd
      omega
  · apply contents_eq
    · rw [length_contents, hstored]
    · intro i hi
      rw [contents_getD b hi, ← hcopy i hi]
      change mem _ = _
      congr 1
      change (if pData.uszData + (i : Int) < pData.uszEnd then _ else _) = _
      rw [if_pos (by omega)]

/-- The byte `i` of a copy. -/
theorem writeAt_bytesAt {mem' : Int → UInt8} {q : Int} {n : Nat} (hi : i < n) (ha : a = p + i) :
    writeAt mem p (bytesAt mem' q n) a = mem' (q + i) := by
  rw [writeAt_get (by rw [bytesAt_length]; exact hi) ha]
  induction n generalizing q i p with
  | zero => exact absurd hi (Nat.not_lt_zero i)
  | succ n ih =>
    cases i with
    | zero => simp [bytesAt]
    | succ i =>
      have hrest := ih (q := q + 1) (i := i) (p := a - i) (by omega) (by omega)
      rw [bytesAt, getD_cons_succ, hrest]
      congr 1
      omega

/-- `Expand` keeps the bytes, and there is room for the length afterwards. -/
theorem WF.expand (h : b.WF) {hint : Int} (hsafe : b.Expandable (.expand hint iLen)) :
    ∃ b', b.expand hint iLen = some b' ∧ b'.WF ∧ b'.contents = b.contents ∧ (iLen : Int) ≤ b'.leftCapcity := by
  obtain ⟨hpos, hne, hint31, hcap30⟩ := hsafe
  have hstart := h.start_le
  have hle := h.stored_le
  have hstop := h.stop
  have hend : b.pData.uszEnd = b.pData.uszData + b.pData.sCapacity := rfl
  -- the size of the new block
  obtain ⟨size, hsize⟩ : ∃ size : Nat, size = max (iLen + b.stored) (b.pData.sCapacity * 2) := ⟨_, rfl⟩
  have htmp : int32 (iLen + b.pData.sCapacity - b.leftCapcity) = ((iLen + b.stored : Nat) : Int) := by
    rw [h.leftCapcity_eq, int32_eq (by omega) (by omega)]
    omega
  obtain ⟨pData, hpData⟩ : ∃ pData, pData = b.pData.getData hint size := ⟨_, rfl⟩
  have hexpand : b.expand hint iLen = b.resetMemPool pData := by
    unfold RingMsgBufferMgr.expand
    dsimp only
    rw [htmp, hpData, hsize]
    by_cases hsmall : ((iLen + b.stored : Nat) : Int) < b.pData.sCapacity * 2
    · have hboth : (0 : Int) ≤ ((iLen + b.stored : Nat) : Int) ∧ ((iLen + b.stored : Nat) : Int) < b.pData.sCapacity * 2 :=
        ⟨by omega, hsmall⟩
      rw [if_pos hboth, int32_eq (by omega) (by omega), if_neg (by omega)]
      congr 2
      omega
    · have hnot : ¬((0 : Int) ≤ ((iLen + b.stored : Nat) : Int) ∧ ((iLen + b.stored : Nat) : Int) < b.pData.sCapacity * 2) :=
        fun hc => hsmall hc.2
      rw [if_neg hnot, if_neg (by omega)]
      congr 2
      omega
  obtain ⟨hnew, hapart⟩ := Block.getData_spec b.pData hint size
  rw [← hpData] at hnew hapart
  have hnewEnd : pData.uszEnd = pData.uszData + pData.sCapacity := rfl
  have hroom : size ≤ pData.sCapacity := by
    rw [hnew]
    exact MemPool.le_newSize size
  have hcap : pData.sCapacity < 2 ^ 31 := by
    rw [hnew]
    exact MemPool.newSize_lt (by omega) (by norm_num)
  have hlt : b.stored < pData.sCapacity := by omega
  have hleft : ∀ b' : RingMsgBufferMgr, b'.WF → b'.pData = pData → b'.stored = b.stored → (iLen : Int) ≤ b'.leftCapcity := by
    intro b' hwf hdata hstored
    rw [hwf.leftCapcity_eq, hdata, hstored]
    omega
  rw [hexpand]
  unfold RingMsgBufferMgr.resetMemPool
  rw [if_pos (by omega)]
  by_cases horder : b.szMsgStart < b.szMsgEnd
  · -- the bytes are in one piece
    have hlen : (b.szMsgEnd - b.szMsgStart).toNat = b.stored := by omega
    have hstopEq : pData.uszData + (b.szMsgEnd - b.szMsgStart) = pData.uszData + b.stored := by omega
    rw [if_pos horder]
    dsimp only
    rw [hlen, hstopEq, if_pos (by omega)]
    obtain ⟨hwf, hcontents⟩ := h.moved (writeAt b.mem pData.uszData (bytesAt b.mem b.szMsgStart b.stored)) hcap hlt
      (by
        intro i hi
        rw [writeAt_bytesAt hi rfl]
        congr 1
        unfold addr
        rw [if_pos (by omega)])
    exact ⟨_, rfl, hwf, hcontents, hleft _ hwf rfl rfl⟩
  · -- the bytes go on at the start of the block
    have hwrap : b.szMsgEnd < b.szMsgStart := by omega
    have hstopEq : pData.uszData + (b.pData.uszEnd - b.szMsgStart) + (b.szMsgEnd - b.pData.uszData) =
        pData.uszData + b.stored := by omega
    rw [if_neg horder, if_pos hwrap]
    dsimp only
    rw [hstopEq, if_pos (by omega)]
    obtain ⟨hwf, hcontents⟩ := h.moved (writeAt
      (writeAt b.mem pData.uszData (bytesAt b.mem b.szMsgStart (b.pData.uszEnd - b.szMsgStart).toNat))
      (pData.uszData + (b.pData.uszEnd - b.szMsgStart))
      (bytesAt (writeAt b.mem pData.uszData (bytesAt b.mem b.szMsgStart (b.pData.uszEnd - b.szMsgStart).toNat))
        b.pData.uszData (b.szMsgEnd - b.pData.uszData).toNat)) hcap hlt (by
        intro i hi
        by_cases hi' : i < (b.pData.uszEnd - b.szMsgStart).toNat
        · rw [writeAt_of_not (.inl (by omega)), writeAt_bytesAt hi' rfl]
          congr 1
          unfold addr
          rw [if_pos (by omega)]
        · rw [writeAt_bytesAt (i := i - (b.pData.uszEnd - b.szMsgStart).toNat) (by omega) (by omega), writeAt_of_not]
          · congr 1
            unfold addr
            omega
          · rw [bytesAt_length]
            omega)
    exact ⟨_, rfl, hwf, hcontents, hleft _ hwf rfl rfl⟩

/-! ## Runs -/

/-- One operation does to the bytes of the buffer what it does to the queue. -/
theorem WF.step (h : b.WF) {o : Op} (hallowed : b.Allowed o) (hsafe : b.Expandable o) :
    ∃ b', b.step o = some ((queueStep b.contents o).1, b') ∧ b'.WF ∧ b'.contents = (queueStep b.contents o).2 := by
  cases o with
  | write bs =>
    obtain ⟨b', hwrite, hwf, hcontents⟩ := h.write hallowed
    refine ⟨b', ?_, hwf, hcontents⟩
    rw [RingMsgBufferMgr.step, hwrite]
    rfl
  | read iLen =>
    obtain ⟨hbytes, b', hread, hwf, hcontents⟩ := h.read hallowed.1 hallowed.2
    refine ⟨b', ?_, hwf, hcontents⟩
    rw [RingMsgBufferMgr.step, hread, hbytes]
    rfl
  | reuse => exact ⟨b.reuse, rfl, reuse_wf h.cap, reuse_contents b⟩
  | expand hint iLen =>
    obtain ⟨b', hexpand, hwf, hcontents, -⟩ := h.expand hsafe
    refine ⟨b', ?_, hwf, hcontents⟩
    rw [RingMsgBufferMgr.step, hexpand]
    rfl

/-- A `GR_RingMsgBufferMgr` refines a queue of bytes, if `Expand` is called only for a buffer with bytes whose pointers
differ. No assertion fails, the bytes that are read are those of the queue, `m_iLeft` and `LeftCapcity` are the
capacity without the bytes in the queue, and `Expand` keeps the bytes and makes room for the length. -/
theorem ring_refines_queue (mem : Int → UInt8) (pData : Block) (hcap : pData.sCapacity < 2 ^ 31) (ops : List Op)
    (hops : Meets (next step) (fun b o => b.Allowed o ∧ b.Expandable o) (init mem pData) ops) :
    ∃ b, tryAll step (init mem pData) ops = some ((performAll queueStep [] ops).1, b) ∧
      b.contents = (performAll queueStep [] ops).2 ∧
      b.iLeft = b.pData.sCapacity - b.contents.length ∧ b.leftCapcity = b.iLeft ∧
      (∃ n : Nat, b.msgLenToEnd = some (n : Int) ∧ n ≤ b.contents.length ∧ (b.contents ≠ [] → 0 < n)) ∧
      ∀ hint iLen, b.Expandable (.expand hint iLen) → ∃ b', b.step (.expand hint iLen) = some ([], b') ∧
        b'.contents = b.contents ∧ b'.leftCapcity = b'.pData.sCapacity - b.contents.length ∧ iLen ≤ b'.leftCapcity := by
  obtain ⟨b, htry, hwf, hcontents⟩ := tryAll_simulation (R := fun b q => b.WF ∧ b.contents = q)
    (fun b q o h hC => by
      obtain ⟨hwf, rfl⟩ := h
      exact hwf.step hC.1 hC.2)
    ops (init mem pData) [] ⟨reuse_wf hcap, rfl⟩ hops
  refine ⟨b, htry, hcontents, ?_, ?_, ?_, ?_⟩
  · rw [length_contents, hwf.left]
  · rw [hwf.leftCapcity_eq, hwf.left]
  · obtain ⟨n, hn, hle, -, hpos⟩ := hwf.msgLenToEnd_eq
    rw [length_contents]
    refine ⟨n, hn, hle, fun hne => hpos ?_⟩
    rw [← length_contents]
    exact length_pos_iff.mpr hne
  · intro hint iLen hsafe
    obtain ⟨b', hexpand, hwf', hcontents', hroom⟩ := hwf.expand hsafe
    refine ⟨b', ?_, hcontents', ?_, hroom⟩
    · rw [RingMsgBufferMgr.step, hexpand]
      rfl
    · rw [hwf'.leftCapcity_eq, ← hcontents', length_contents]

/-- The bytes go on at the start of the block when it is expanded. -/
theorem ring_refines_queue_wrapped :
    let ops : List Op := [.write [1, 2, 3], .read 2, .write [4, 5], .expand 100 7, .read 3]
    Meets (next step) (fun b o => b.Allowed o ∧ b.Expandable o) (init (fun _ => 0) ⟨0, 4⟩) ops ∧
      ∃ b, tryAll step (init (fun _ => 0) ⟨0, 4⟩) ops = some ([[], [1, 2], [], [], [3, 4, 5]], b) := by
  intro ops
  have hops : Meets (next step) (fun b o => b.Allowed o ∧ b.Expandable o) (init (fun _ => 0) ⟨0, 4⟩) ops := by
    decide
  obtain ⟨b, htry, -⟩ := ring_refines_queue (fun _ => 0) ⟨0, 4⟩ (by decide) ops hops
  exact ⟨hops, b, htry⟩

/-- The pointers of a full buffer are equal: `Expand` copies nothing and fails its assertion. -/
theorem full_ring_not_expanded :
    let ops : List Op := [.write [1, 2, 3, 4], .read 2, .write [5, 6], .expand 100 1]
    Meets (next step) Allowed (init (fun _ => 0) ⟨0, 4⟩) ops ∧ tryAll step (init (fun _ => 0) ⟨0, 4⟩) ops = none := by
  intro ops
  constructor
  · decide
  · exact Option.isNone_iff_eq_none.mp (by decide)

end RingMsgBufferMgr

end RedisProxy
