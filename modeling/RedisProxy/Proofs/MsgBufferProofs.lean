import RedisProxy.MsgBuffer
import RedisProxy.Proofs.PackageMsgProofs
import RedisProxy.Proofs.PoolMemoryProofs

/-!
# Moving the bytes of a cache

`Reset` takes the parser to the place to which the bytes have been moved. Between two messages the parser is at the start
of the cache; when a message has been read, `StartNext` makes it so again.
-/

namespace RedisProxy

open Lib Resp List

namespace RedisMsg

variable {rd : Int → UInt8} {m : RedisMsg} {p q : Int}

theorem AtStart.tracks (h : AtStart p m) : Layer.Tracks m.this m.next Scan.init 0 := by
  obtain ⟨e, l, h⟩ := h
  rw [h]
  exact Layer.tracks_start rfl rfl rfl (le_refl _) (by simp [Layer.init, MsgInfo.zero]) (le_refl _) rfl rfl
    Scan.init_fine rfl

theorem AtStart.cursor (h : AtStart p m) : m.this.cursor m.next = p := by
  obtain ⟨e, l, h⟩ := h
  unfold Layer.cursor
  rw [Layer.active_of_ne (by rw [h]; exact nofun), h]
  rfl

theorem AtStart.expand (h : AtStart p m) (k : Int) : AtStart p (m.expand k) := by
  obtain ⟨e, l, h⟩ := h
  exact ⟨e + k, l, by rw [RedisMsg.expand, h]⟩

theorem AtStart.reset (h : AtStart p m) (q : Int) : AtStart q (m.reset q) := by
  obtain ⟨e, l, h⟩ := h
  refine ⟨q + (e - p), l, ?_⟩
  simp only [RedisMsg.reset, rebase, h]
  simp [Layer.init, MsgInfo.zero]

theorem AtStart.szStart (h : AtStart p m) : m.this.szStart = p := by
  obtain ⟨e, l, h⟩ := h
  rw [h]
  rfl

theorem AtStart.iLen (h : AtStart p m) : m.this.iLen = 0 := by
  obtain ⟨e, l, h⟩ := h
  rw [h]
  rfl

/-- A call of `ParseRsp` before a value that has been read as a whole. What stands after it does not matter. -/
theorem AtStart.parseRsp (h : AtStart p m) {v : List UInt8} (hv : Value Canonical v) (hb : bytesAt rd p v.length = v)
    (hle : p + v.length ≤ m.this.szEnd) (hlt : m.this.szEnd - p < 2 ^ 31) :
    ∃ m', m.parseRsp rd = some (.ok, m') ∧ m'.this.nowState = .msgEnd ∧ m'.this.szStart = p ∧
      m'.this.iLen = v.length ∧ m'.this.szEnd = m.this.szEnd := by
  have hcur := h.cursor
  obtain ⟨d, hreads, hstate, hlen⟩ := Scan.reads_value hv (by omega)
  -- the window is the value and some more bytes
  obtain ⟨n, hn⟩ : ∃ n : Nat, m.this.left m.next = v.length + n := by
    refine ⟨m.this.left m.next - v.length, ?_⟩
    unfold Layer.left
    omega
  have hwin : Layer.window rd m.this m.next = v ++ bytesAt rd (p + v.length) n := by
    rw [Layer.window, hcur, hn, bytesAt_add, hb]
  have hfit : Along Scan.Fit Scan.step (Layer.window rd m.this m.next) Scan.init := by
    rw [hwin]
    exact Along.mono (fun _ _ hg => hg.1) (hreads.2.cut hreads.1 prefix_rfl)
  obtain ⟨us, rs, o, d', m', h1, h2, h3, -, h4, h5⟩ := parseRsp_steps h.tracks (by rw [hcur]; omega)
    (by rw [hcur]; exact hlt) hfit
  have hpre : us <+: v ++ bytesAt rd (p + v.length) n := by
    rw [← hwin, h1]
    exact prefix_append us rs
  rcases feeds_cut hreads.1 hpre with ⟨s', h6, h7⟩ | ⟨r, rfl, h6⟩
  · -- the call does not stop in the middle of the value
    rw [h2] at h6
    obtain ⟨rfl, -⟩ := Prod.mk.injEq .. ▸ h6
    exfalso
    rcases h5 rfl with rfl | h5
    · rw [append_nil] at h1
      rw [← h1, hwin, length_append] at h7
      omega
    · have halong : Along Scan.Good Scan.step us Scan.init := hreads.2.cut hreads.1 hpre
      exact h5 (halong.mono fun _ _ hg => hg.2)
  · rw [h2] at h6
    cases h6
    obtain ⟨hend, hpos⟩ := h4.ended rfl
    have hl : m'.this.iLen = d.len := hend.len
    have hloc := hend.located
    rw [hcur, append_nil] at hpos
    refine ⟨m', h3, hend.atEnd.state, ?_, ?_, h4.szEnd⟩
    · omega
    · omega

end RedisMsg

/-! ## Readers between two messages -/

/-- The new block has room for the size. -/
theorem Block.getData_spec (used : Block) (hint : Int) (sSize : Nat) :
    (used.getData hint sSize).sCapacity = MemPool.newSize sSize ∧
      (used.uszEnd ≤ (used.getData hint sSize).uszData ∨ (used.getData hint sSize).uszEnd ≤ used.uszData) := by
  have heq : used.getData hint sSize = if Block.apart ⟨hint, MemPool.newSize sSize⟩ used then
      ⟨hint, MemPool.newSize sSize⟩ else ⟨used.uszEnd, MemPool.newSize sSize⟩ := rfl
  rw [heq]
  by_cases hapart : Block.apart ⟨hint, MemPool.newSize sSize⟩ used = true
  · rw [if_pos hapart]
    unfold Block.apart at hapart
    rw [Bool.or_eq_true, decide_eq_true_eq, decide_eq_true_eq] at hapart
    exact ⟨rfl, hapart.symm⟩
  · rw [if_neg hapart]
    exact ⟨rfl, .inl le_rfl⟩

theorem Block.getData_init (used : Block) (hint : Int) :
    (used.getData hint redisMsgInitBuffer).sCapacity = redisMsgInitBuffer := by
  unfold Block.getData
  dsimp only
  split_ifs <;> rfl

namespace Reader

variable {s : Reader} {k : Int}

/-- The parser is before a message, at the start of an empty cache whose block has the first size; it takes the `k` bytes
that follow for read. -/
structure AtRest (s : Reader) (k : Int) : Prop where
  start : s.readMsg.AtStart s.readCache.szMsgStart
  ahead : s.readMsg.this.szEnd = s.readCache.szMsgStart + k
  empty : s.readCache.szMsgEnd = s.readCache.szMsgStart
  lo : s.readCache.pData.uszData ≤ s.readCache.szMsgStart
  hi : s.readCache.szMsgStart ≤ s.readCache.pData.uszEnd
  cap : s.readCache.pData.sCapacity = redisMsgInitBuffer

theorem atRest_init (mem : Int → UInt8) (uszData : Int) : (init mem uszData).AtRest 0 where
  start := ⟨uszData, ⟨0, 0⟩, rfl⟩
  ahead := (add_zero uszData).symm
  empty := rfl
  lo := le_refl _
  hi := by simp [init, MsgBufferMgr.init, Block.uszEnd]
  cap := rfl

/-- A message of `n` bytes has been read, and it is all that the cache holds. -/
structure Complete (s : Reader) (n : Nat) (k : Int) : Prop where
  start : s.readMsg.this.szStart = s.readCache.szMsgStart
  len : s.readMsg.this.iLen = n
  ahead : s.readMsg.this.szEnd = s.readCache.szMsgStart + n + k
  bytes : s.readCache.szMsgEnd = s.readCache.szMsgStart + n
  cap : s.readCache.pData.sCapacity = redisMsgInitBuffer

/-- `StartNext` after the message. -/
theorem Complete.startNext {n : Nat} (h : s.Complete n k) (hint : Int) :
    ∃ s', s.startNext hint = some s' ∧ s'.AtRest k := by
  have hsize : int32 s.readCache.pData.sCapacity = redisMsgInitBuffer := by
    rw [h.cap]
    rfl
  unfold Reader.startNext MsgBufferMgr.resetMemPool
  dsimp only
  rw [hsize, if_neg (by simp [redisMsgInitBuffer]), Option.map_some]
  refine ⟨_, rfl, ?_⟩
  have hstart : RedisMsg.AtStart (s.readMsg.this.szStart + s.readMsg.this.iLen) s.readMsg.startNext :=
    RedisMsg.atStart_startNext rfl
  refine ⟨hstart.reset _, ?_, ?_, le_refl _, ?_, Block.getData_init _ _⟩
  · show _ + (s.readMsg.this.szEnd - (s.readMsg.this.szStart + s.readMsg.this.iLen)) = _ + k
    rw [h.ahead, h.start, h.len, add_sub_cancel_left]
    rfl
  · show _ + (s.readCache.szMsgEnd - (s.readCache.szMsgStart + s.readMsg.this.iLen)) = _
    rw [h.bytes, h.len, sub_self, add_zero]
    rfl
  · show Block.uszData _ ≤ Block.uszEnd _
    exact Int.le_add_of_nonneg_right (Int.natCast_nonneg _)

/-- `ResetBuffer` of an empty cache. -/
theorem AtRest.resetBuffer (h : s.AtRest k) : (s.moved (s.readCache.resetBuffer s.mem)).AtRest k where
  start := h.start.reset _
  ahead := by
    show _ + (s.readMsg.this.szEnd - s.readMsg.this.szStart) = _
    rw [h.ahead, h.start.szStart, add_sub_cancel_left]
    rfl
  empty := by
    show _ + (s.readCache.szMsgEnd - s.readCache.szMsgStart) = _
    rw [h.empty, sub_self, add_zero]
    rfl
  lo := le_refl _
  hi := by
    exact h.lo.trans h.hi
  cap := h.cap

/-- The parser is before a message, at whatever place, and the cache is empty. -/
structure Empty (s : Reader) : Prop where
  start : ∃ p, s.readMsg.AtStart p
  empty : s.readCache.szMsgEnd = s.readCache.szMsgStart
  lo : s.readCache.pData.uszData ≤ s.readCache.szMsgStart
  hi : s.readCache.szMsgStart ≤ s.readCache.pData.uszEnd
  cap : s.readCache.pData.sCapacity = redisMsgInitBuffer

theorem AtRest.toEmpty (h : s.AtRest k) : s.Empty := ⟨⟨_, h.start⟩, h.empty, h.lo, h.hi, h.cap⟩

/-- `StartNext` without a message. -/
theorem Empty.startNext (h : s.Empty) (hint : Int) : ∃ s', s.startNext hint = some s' ∧ s'.Empty := by
  obtain ⟨p, hp⟩ := h.start
  have hsize : int32 s.readCache.pData.sCapacity = redisMsgInitBuffer := by
    rw [h.cap]
    rfl
  unfold Reader.startNext MsgBufferMgr.resetMemPool
  dsimp only
  rw [hsize, if_neg (by simp [redisMsgInitBuffer]), Option.map_some]
  refine ⟨_, rfl, ⟨_, (RedisMsg.atStart_startNext rfl).reset _⟩, ?_, le_refl _, ?_, Block.getData_init _ _⟩
  · show _ + (s.readCache.szMsgEnd - (s.readCache.szMsgStart + s.readMsg.this.iLen)) = _
    rw [h.empty, hp.iLen, add_zero, sub_self, add_zero]
    rfl
  · show Block.uszData _ ≤ Block.uszEnd _
    exact Int.le_add_of_nonneg_right (Int.natCast_nonneg _)

theorem Empty.resetBuffer (h : s.Empty) : (s.moved (s.readCache.resetBuffer s.mem)).Empty where
  start := by
    obtain ⟨p, hp⟩ := h.start
    exact ⟨_, hp.reset _⟩
  empty := by
    show _ + (s.readCache.szMsgEnd - s.readCache.szMsgStart) = _
    rw [h.empty, sub_self, add_zero]
    rfl
  lo := le_refl _
  hi := h.lo.trans h.hi
  cap := h.cap

/-- A value is read as a whole. `PrepareSync` adds its bytes to the parser a second time. -/
theorem AtRest.parseRsp (h : s.AtRest k) {bs : List UInt8} (hv : Value Canonical bs) (hk : 0 ≤ k)
    (hlt : k + 2 * bs.length < 2 ^ 31) : ∃ m,
      ((s.receive bs).readMsg.expand bs.length).parseRsp (s.receive bs).mem = some (.ok, m) ∧
      m.this.nowState = .msgEnd ∧ m.this.szStart = s.readCache.szMsgStart ∧
      { s.receive bs with readMsg := m }.Complete bs.length (k + bs.length) := by
  have hstart : RedisMsg.AtStart s.readCache.szMsgStart ((s.receive bs).readMsg.expand bs.length) :=
    (h.start.expand _).expand _
  have hend : ((s.receive bs).readMsg.expand bs.length).this.szEnd = s.readCache.szMsgStart + k + bs.length + bs.length := by
    show s.readMsg.this.szEnd + bs.length + bs.length = _
    rw [h.ahead]
  have hmem : bytesAt (s.receive bs).mem s.readCache.szMsgStart bs.length = bs := by
    show bytesAt (writeAt s.mem s.readCache.szMsgEnd bs) _ _ = _
    rw [h.empty, bytesAt_writeAt]
  obtain ⟨m, h1, h2, h3, h4, h5⟩ := hstart.parseRsp hv hmem (by omega) (by omega)
  refine ⟨m, h1, h2, h3, h3, h4, ?_, ?_, h.cap⟩
  · show m.this.szEnd = s.readCache.szMsgStart + bs.length + (k + bs.length)
    omega
  · show s.readCache.szMsgEnd + bs.length = _
    rw [h.empty]
    rfl

end Reader

end RedisProxy
