import RedisProxy.Proofs.MsgBufferProofs
import RedisProxy.Proofs.ParserRangeProofs

/-!
# The parser and the cache

The parser of a connection reads what the cache holds: it has read the first bytes of a message there, and the message
starts where the bytes of the cache start (`Reading`). `Write` with `Expand`, a call of `ParseRsp`, `StartNext` and each
move of the bytes keep this, as long as no null byte stands before a message.
-/

namespace RedisProxy

open Lib List

/-! ## Messages -/

namespace Scan

variable {ch : UInt8} {us rs : List UInt8} {c d : Scan} {o : Option ParseRet} {P : UInt8 → Scan → Prop}

theorem feeds_len (h : feeds step us c = (o, d, [])) (ho : o ≠ some .startNull) : d.len = c.len + us.length := by
  induction us generalizing c with
  | nil =>
    cases h
    rfl
  | cons ch us ih =>
    rcases hs : step ch c with ⟨_ | e, c1⟩
    · rw [feeds_cons_none hs] at h
      rw [ih h, step_len hs nofun, length_cons]
      omega
    · rw [feeds_cons_some hs] at h
      cases h
      rw [step_len hs ho]
      rfl

theorem endLine_notNull (c : Scan) (n : Nat) (outer : List Nat) : (c.endLine n outer).1 ≠ some .startNull := by
  unfold endLine
  split <;> exact nofun

theorem endArray_notNull (c : Scan) : c.endArray.1 ≠ some .startNull := by
  unfold endArray
  split
  · exact nofun
  · exact endLine_notNull c _ _

theorem step_notNull (h : step ch c = (o, d)) (hn : NotNull ch c) : o ≠ some .startNull := by
  cases step_takes h with
  | null hs hc => exact absurd hc (hn hs)
  | noBody => exact endArray_notNull _
  | lineEnd => exact endLine_notNull _ _ _
  | _ => exact nofun

theorem maxLen_append {x : Nat} (h : feeds step us c = (none, d, [])) (rs : List UInt8) :
    maxLen (us ++ rs) c x = maxLen rs d (maxLen us c x) := by
  induction us generalizing c x with
  | nil =>
    cases h
    rfl
  | cons ch us ih =>
    rcases hs : step ch c with ⟨_ | e, c1⟩
    · rw [feeds_cons_none hs] at h
      simp only [cons_append, maxLen, hs]
      exact ih h
    · rw [feeds_cons_some hs] at h
      cases h

/-- Without null bytes before messages, `ParseRsp` does not stop at one. -/
theorem feeds_notNull (h : feeds step us c = (o, d, [])) (ha : Along NotNull step us c) : o ≠ some .startNull := by
  induction us generalizing c with
  | nil =>
    cases h
    exact nofun
  | cons ch us ih =>
    rcases hs : step ch c with ⟨_ | e, c1⟩
    · rw [feeds_cons_none hs] at h
      exact ih h (ha.cons_none hs)
    · rw [feeds_cons_some hs] at h
      cases h
      exact step_notNull hs ha.1

theorem Clear.ranged (h : Clear us) : Ranged us := Along.mono (fun _ _ hb => hb.1) h

/-- A stream that the reader goes through without an end has no message at its start, and no mistake. -/
theorem none_of_partial {v : List UInt8} {e : ParseRet} (h : feeds step us c = (none, d, [])) (hv : v <+: us) :
    ¬ ∃ d', feeds step v c = (some e, d', []) := by
  rintro ⟨d', hd⟩
  obtain ⟨r, rfl⟩ := hv
  rw [feeds_stop hd] at h
  cases h

/-- A stream starts with one message at most. -/
theorem IsMessage.unique {v w as bs : List UInt8} (hv : IsMessage v) (hw : IsMessage w) (h : v ++ as = w ++ bs) :
    v = w ∧ as = bs := by
  obtain ⟨d, hd⟩ := hv
  obtain ⟨d', hd'⟩ := hw
  have hstop : feeds step (v ++ as) init = _ := feeds_stop hd
  rw [h, feeds_stop hd'] at hstop
  cases hstop
  exact ⟨append_cancel_right h, rfl⟩

theorem not_isMessage_nil : ¬ IsMessage [] := nofun

/-- Messages at the start of a stream of messages are the first ones of it. -/
theorem messages_split {ts vs : List (List UInt8)} (hts : ∀ v ∈ ts, IsMessage v) (hvs : ∀ v ∈ vs, IsMessage v)
    (h : ts.flatten ++ us <+: vs.flatten) : ∃ rest, vs = ts ++ rest ∧ us <+: rest.flatten := by
  induction ts generalizing vs with
  | nil => exact ⟨vs, rfl, h⟩
  | cons t ts ih =>
    have ht := hts t mem_cons_self
    cases vs with
    | nil =>
      rw [flatten_cons, append_assoc, flatten_nil, prefix_nil, append_eq_nil_iff] at h
      rw [h.1] at ht
      exact absurd ht not_isMessage_nil
    | cons v vs =>
      obtain ⟨more, hmore⟩ := h
      rw [flatten_cons, flatten_cons, append_assoc, append_assoc] at hmore
      obtain ⟨rfl, hrest⟩ := ht.unique (hvs v mem_cons_self) hmore
      obtain ⟨rest, rfl, hus⟩ := ih (fun w hw => hts w (mem_cons_of_mem t hw)) (fun w hw => hvs w (mem_cons_of_mem t hw))
        ⟨more, (append_assoc _ _ _).trans hrest⟩
      exact ⟨rest, rfl, hus⟩

/-- A part of a stream of messages is not a mistake. -/
theorem messages_fine {vs : List (List UInt8)} (hvs : ∀ v ∈ vs, IsMessage v) (h : us <+: vs.flatten) :
    feeds step us init ≠ (some .error, d, []) := by
  intro hfail
  cases vs with
  | nil =>
    rw [flatten_nil, prefix_nil] at h
    rw [h] at hfail
    cases hfail
  | cons v vs =>
    obtain ⟨d', hv⟩ := hvs v mem_cons_self
    rcases feeds_cut hv h with ⟨c', hpart, -⟩ | ⟨r, -, hall⟩
    · rw [hfail] at hpart
      cases hpart
    · rw [hfail] at hall
      cases hall

theorem messages_message (h : feeds step us c = (some .ok, d, [])) (rs : List UInt8) :
    messages (us ++ rs) c = messages rs init + 1 := by
  induction us generalizing c with
  | nil => cases h
  | cons ch us ih =>
    rcases hs : step ch c with ⟨_ | e, c1⟩
    · rw [feeds_cons_none hs] at h
      simp only [cons_append, messages, hs]
      exact ih h
    · rw [feeds_cons_some hs] at h
      cases h
      simp only [cons_append, nil_append, messages, hs]

theorem messages_feeds (h : feeds step us c = (o, d, [])) (ho : o ≠ some .ok) (rs : List UInt8) :
    messages (us ++ rs) c = if o = some .error then 0 else messages rs d := by
  induction us generalizing c with
  | nil =>
    cases h
    rfl
  | cons ch us ih =>
    rcases hs : step ch c with ⟨_ | e, c1⟩
    · rw [feeds_cons_none hs] at h
      simp only [cons_append, messages, hs]
      exact ih h
    · rw [feeds_cons_some hs] at h
      cases h
      cases e <;> simp_all [messages]

/-- The messages of a stream are counted one by one. -/
theorem messages_flatten {vs : List (List UInt8)} (hvs : ∀ v ∈ vs, IsMessage v) (rs : List UInt8) :
    messages (vs.flatten ++ rs) init = vs.length + messages rs init := by
  induction vs with
  | nil => simp
  | cons v vs ih =>
    obtain ⟨d, hd⟩ := hvs v mem_cons_self
    rw [flatten_cons, append_assoc, messages_message hd, ih fun w hw => hvs w (mem_cons_of_mem v hw),
      length_cons]
    omega

theorem feeds_stream_error (hc : c.state ≠ .msgEnd) (h : feeds step us c = (some .error, d, [])) :
    feeds stream us c = (some .error, d, []) := by
  induction us generalizing c with
  | nil => cases h
  | cons ch us ih =>
    rcases hs : step ch c with ⟨_ | e, c1⟩
    · rw [feeds_cons_none hs] at h
      rw [feeds_cons_none (stream_of_step hc hs nofun)]
      exact ih (step_ne hs hc) h
    · rw [feeds_cons_some hs] at h
      cases h
      have hstream : stream ch c = (some .error, d) := by
        unfold stream
        rw [restart_of_ne hc, hs]
      rw [feeds_cons_some hstream]

theorem feeds_restart (bs : List UInt8) (c : Scan) : (feeds stream bs c.restart).1 = (feeds stream bs c).1 := by
  cases bs with
  | nil => rfl
  | cons ch bs => simp only [feeds, stream_restart]

/-- The reader does not fail in a stream without mistakes. -/
theorem Faultless.not_failed (h : Faultless rs) (hus : us <+: rs) : feeds step us init ≠ (some .error, d, []) := by
  intro hfail
  obtain ⟨more, rfl⟩ := hus
  have hstop : feeds stream (us ++ more) init = _ := feeds_stop (feeds_stream_error (by exact nofun) hfail)
  unfold Faultless at h
  rw [hstop] at h
  cases h

theorem Faultless.drop {vs : List (List UInt8)} (hvs : ∀ v ∈ vs, IsMessage v) (h : Faultless (vs.flatten ++ rs)) :
    Faultless rs := by
  induction vs with
  | nil => exact h
  | cons v vs ih =>
    obtain ⟨d, hd⟩ := hvs v mem_cons_self
    refine ih (fun w hw => hvs w (mem_cons_of_mem v hw)) ?_
    unfold Faultless at h
    rw [flatten_cons, append_assoc, feeds_append (feeds_stream (by exact nofun) hd nofun), ← feeds_restart,
      Scan.restart, if_pos (feeds_ok hd)] at h
    exact h

/-- What a stream keeps, it keeps after messages of it. -/
theorem Throughout.drop {vs : List (List UInt8)} (hvs : ∀ v ∈ vs, IsMessage v) (h : Throughout P (vs.flatten ++ rs) init) :
    Throughout P rs init := by
  induction vs with
  | nil => exact h
  | cons v vs ih =>
    obtain ⟨d, hd⟩ := hvs v mem_cons_self
    rw [flatten_cons, append_assoc] at h
    have hrest := h.after (by exact nofun) hd nofun
    rw [show d.restart = init from if_pos (feeds_ok hd)] at hrest
    exact ih (fun w hw => hvs w (mem_cons_of_mem v hw)) hrest

end Scan

/-! ## Moves of the bytes -/

namespace Layer

/-- `Reset` of the parser. -/
theorem moves_rebase (szStart szNewStart : Int) :
    Moves (szNewStart - szStart) (szNewStart - szStart) (RedisMsg.rebase szStart szNewStart) where
  szStart l := by
    simp only [RedisMsg.rebase]
    omega
  szNowPos l := by
    simp only [RedisMsg.rebase]
    omega
  szEnd l := by
    simp only [RedisMsg.rebase]
    omega
  nowState _ := rfl
  bReadingLine _ := rfl
  iNeedArgNum _ := rfl
  iArgLen _ := rfl
  iLen _ := rfl
  iMaxLen _ := rfl

end Layer

theorem bytesAt_drop (rd : Int → UInt8) (p : Int) (n k : Nat) :
    (bytesAt rd p n).drop k = bytesAt rd (p + k) (n - k) := by
  by_cases hk : k ≤ n
  · obtain ⟨j, rfl⟩ := Nat.exists_eq_add_of_le hk
    rw [RedisMsg.bytesAt_add, drop_left' (bytesAt_length rd p k), Nat.add_sub_cancel_left]
  · rw [drop_eq_nil_of_le (by rw [bytesAt_length]; omega), Nat.sub_eq_zero_of_le (by omega)]
    rfl

theorem bytesAt_take (rd : Int → UInt8) (p : Int) {n k : Nat} (hk : k ≤ n) : (bytesAt rd p n).take k = bytesAt rd p k := by
  obtain ⟨j, rfl⟩ := Nat.exists_eq_add_of_le hk
  rw [RedisMsg.bytesAt_add, take_left' (bytesAt_length rd p k)]

namespace Reader

variable {s : Reader} {c d : Scan} {x : Nat} {bs us rs : List UInt8}

/-- The bytes that the parser has not read. -/
def unread (s : Reader) : List UInt8 := Layer.window s.mem s.readMsg.this s.readMsg.next

/-- The parser is in the cache: it has read the first `c.len` bytes of the cache, and knows of all of them. -/
structure Aligned (s : Reader) (c : Scan) (x : Nat) : Prop where
  tracks : Layer.Tracks s.readMsg.this s.readMsg.next c x
  start : s.readMsg.this.szStart = s.readCache.szMsgStart
  cursor : s.readMsg.this.cursor s.readMsg.next = s.readCache.szMsgStart + c.len
  stop : s.readMsg.this.szEnd = s.readCache.szMsgEnd
  le : s.readCache.szMsgStart + c.len ≤ s.readCache.szMsgEnd
  lo : s.readCache.pData.uszData ≤ s.readCache.szMsgStart
  hi : s.readCache.szMsgEnd ≤ s.readCache.pData.uszEnd
  cap : 1 < s.readCache.pData.sCapacity ∧ s.readCache.pData.sCapacity < 2 ^ 31

/-- An empty cache with a parser at its start. -/
theorem aligned_empty (mem : Int → UInt8) {b : Block} (hcap : 1 < b.sCapacity ∧ b.sCapacity < 2 ^ 31) :
    Aligned ⟨mem, .init b, .init b.uszData⟩ Scan.init 0 where
  tracks := Layer.tracks_init b.uszData
  start := rfl
  cursor := (add_zero b.uszData).symm
  stop := rfl
  le := by simp [MsgBufferMgr.init, Scan.init]
  lo := le_rfl
  hi := by simp [MsgBufferMgr.init, Block.uszEnd]
  cap := hcap

theorem aligned_init (mem : Int → UInt8) (uszData : Int) : (init mem uszData).Aligned Scan.init 0 :=
  aligned_empty mem (by simp [redisMsgInitBuffer])

theorem content_empty (mem : Int → UInt8) (b : Block) (m : RedisMsg) : content ⟨mem, .init b, m⟩ = [] := by
  simp [content, MsgBufferMgr.content, MsgBufferMgr.init, bytesAt]

theorem content_length (s : Reader) : s.content.length = (s.readCache.szMsgEnd - s.readCache.szMsgStart).toNat :=
  bytesAt_length _ _ _

theorem Aligned.length_le (h : s.Aligned c x) : c.len ≤ s.content.length ∧ s.content.length ≤ s.readCache.pData.sCapacity := by
  have hle := h.le
  have hlo := h.lo
  have hhi := h.hi
  unfold Block.uszEnd at hhi
  rw [content_length]
  omega

theorem Aligned.within (h : s.Aligned c x) : s.readCache.Within where
  lo := h.lo
  le := by
    have hle := h.le
    omega
  hi := h.hi

theorem Aligned.unread_eq (h : s.Aligned c x) : s.unread = s.content.drop c.len := by
  unfold unread content Layer.window MsgBufferMgr.content Layer.left
  rw [bytesAt_drop, h.cursor, h.stop]
  congr 1
  omega

/-! ### The bytes of the cache -/

/-- `Write` of the cache adds bytes behind its bytes. -/
theorem content_receive (hle : s.readCache.szMsgStart ≤ s.readCache.szMsgEnd) (bs : List UInt8) :
    (s.receive bs).content = s.content ++ bs := by
  obtain ⟨n, hn⟩ : ∃ n : Nat, s.readCache.szMsgEnd = s.readCache.szMsgStart + n :=
    ⟨(s.readCache.szMsgEnd - s.readCache.szMsgStart).toNat, by omega⟩
  have hlen : (s.readCache.szMsgEnd + bs.length - s.readCache.szMsgStart).toNat = n + bs.length := by omega
  have hold : (s.readCache.szMsgEnd - s.readCache.szMsgStart).toNat = n := by omega
  show bytesAt (writeAt s.mem s.readCache.szMsgEnd bs) s.readCache.szMsgStart
    (s.readCache.szMsgEnd + bs.length - s.readCache.szMsgStart).toNat = _
  rw [hlen, RedisMsg.bytesAt_add, ← hn, bytesAt_writeAt, content, MsgBufferMgr.content, hold]
  congr 1
  exact bytesAt_congr fun a _ hlt => writeAt_of_not (.inl (by omega))

/-- The reader when the bytes have been copied to the start of the block `b`. -/
def movedTo (s : Reader) (b : Block) (mem : Int → UInt8) : Reader :=
  s.moved (⟨b, b.uszData, b.uszData + (s.readCache.szMsgEnd - s.readCache.szMsgStart)⟩, mem)

theorem content_movedTo {b : Block} {mem : Int → UInt8} (hcopy : bytesAt mem b.uszData s.content.length = s.content) :
    (s.movedTo b mem).content = s.content := by
  rw [content_length] at hcopy
  show bytesAt mem b.uszData (b.uszData + (s.readCache.szMsgEnd - s.readCache.szMsgStart) - b.uszData).toNat = s.content
  rw [add_sub_cancel_left]
  exact hcopy

/-- `MSGBUFFER_RESET` copies the bytes to the new block. -/
theorem moved_reset (s : Reader) (b : Block) : ∃ mem, s.moved (s.readCache.reset s.mem b) = s.movedTo b mem ∧
    bytesAt mem b.uszData s.content.length = s.content := by
  refine ⟨_, rfl, ?_⟩
  split_ifs with hlt
  · exact bytesAt_writeAt s.mem b.uszData s.content
  · have hnil : s.content = [] := by
      rw [← length_eq_zero_iff, content_length]
      omega
    rw [hnil]
    rfl

theorem moved_resetBuffer (s : Reader) : ∃ mem, s.moved (s.readCache.resetBuffer s.mem) = s.movedTo s.readCache.pData mem ∧
    bytesAt mem s.readCache.pData.uszData s.content.length = s.content :=
  ⟨_, rfl, bytesAt_writeAt s.mem _ s.content⟩

/-! ### The parser goes with them -/

/-- `Write` of the cache and `Expand` of the parser. -/
theorem Aligned.receive (h : s.Aligned c x) (hbs : (bs.length : Int) ≤ s.iLeft) : (s.receive bs).Aligned c x where
  tracks := h.tracks.grow bs.length
  start := h.start
  cursor := (Layer.cursor_grow _ _ _).trans h.cursor
  stop := by
    show s.readMsg.this.szEnd + bs.length = s.readCache.szMsgEnd + bs.length
    rw [h.stop]
  le := by
    have hle := h.le
    show s.readCache.szMsgStart + c.len ≤ s.readCache.szMsgEnd + bs.length
    omega
  lo := h.lo
  hi := by
    show s.readCache.szMsgEnd + bs.length ≤ s.readCache.pData.uszEnd
    unfold iLeft at hbs
    omega
  cap := h.cap

/-- The bytes have been copied to a block with room for them. -/
theorem Aligned.movedTo (h : s.Aligned c x) {b : Block} (hroom : s.content.length ≤ b.sCapacity)
    (hcap : 1 < b.sCapacity ∧ b.sCapacity < 2 ^ 31) (mem : Int → UInt8) : (s.movedTo b mem).Aligned c x where
  tracks := (Layer.moves_rebase s.readMsg.this.szStart b.uszData).tracks h.tracks
  start := by
    show b.uszData + (s.readMsg.this.szStart - s.readMsg.this.szStart) = b.uszData
    omega
  cursor := by
    have hcur := h.cursor
    have hstart := h.start
    refine ((Layer.moves_rebase s.readMsg.this.szStart b.uszData).cursor _ _).trans ?_
    show _ = b.uszData + (c.len : Int)
    omega
  stop := by
    show b.uszData + (s.readMsg.this.szEnd - s.readMsg.this.szStart) =
      b.uszData + (s.readCache.szMsgEnd - s.readCache.szMsgStart)
    rw [h.stop, h.start]
  le := by
    have hle := h.le
    show b.uszData + (c.len : Int) ≤ b.uszData + (s.readCache.szMsgEnd - s.readCache.szMsgStart)
    omega
  lo := le_rfl
  hi := by
    rw [content_length] at hroom
    show b.uszData + (s.readCache.szMsgEnd - s.readCache.szMsgStart) ≤ b.uszData + b.sCapacity
    omega
  cap := hcap

/-- The bytes are moved to another block. -/
theorem Aligned.reset (h : s.Aligned c x) {b : Block} (hroom : s.content.length ≤ b.sCapacity)
    (hcap : 1 < b.sCapacity ∧ b.sCapacity < 2 ^ 31) :
    (s.moved (s.readCache.reset s.mem b)).Aligned c x ∧ (s.moved (s.readCache.reset s.mem b)).content = s.content := by
  obtain ⟨mem, hmoved, hcopy⟩ := s.moved_reset b
  rw [hmoved]
  exact ⟨h.movedTo hroom hcap mem, content_movedTo hcopy⟩

theorem Aligned.resetBuffer (h : s.Aligned c x) : (s.moved (s.readCache.resetBuffer s.mem)).Aligned c x ∧
    (s.moved (s.readCache.resetBuffer s.mem)).content = s.content := by
  obtain ⟨mem, hmoved, hcopy⟩ := s.moved_resetBuffer
  rw [hmoved]
  exact ⟨h.movedTo h.length_le.2 h.cap mem, content_movedTo hcopy⟩

/-- `Expand` gets a block for the size that it has computed. -/
theorem expand_eq (s : Reader) (hint : Int) {iAtLeast : Int} {n : Nat}
    (hn : int32 (if iAtLeast < 0 ∨ (s.readCache.pData.sCapacity : Int) * 4 < iAtLeast then iAtLeast
      else (s.readCache.pData.sCapacity : Int) * 4) = n) :
    s.readCache.expand s.mem hint iAtLeast = some (s.readCache.reset s.mem (s.readCache.pData.getData hint n)) := by
  unfold MsgBufferMgr.expand MsgBufferMgr.resetMemPool
  rw [hn, if_neg (by omega), Int.toNat_natCast]

/-- `Expand` gets a block that is larger than the one before. -/
theorem expand_block (s : Reader) (hpos : 0 < s.readCache.pData.sCapacity) (hcap : s.readCache.pData.sCapacity < 2 ^ 29)
    (hint : Int) {iAtLeast : Int} (h0 : 0 ≤ iAtLeast) (hmax : iAtLeast < 2 ^ 31) :
    ∃ b : Block, s.readCache.expand s.mem hint iAtLeast = some (s.readCache.reset s.mem b) ∧
      s.readCache.pData.sCapacity < b.sCapacity ∧ b.sCapacity < 2 ^ 31 := by
  obtain ⟨n, hn, hle, hlt⟩ : ∃ n : Nat, int32 (if iAtLeast < 0 ∨ (s.readCache.pData.sCapacity : Int) * 4 < iAtLeast then iAtLeast
      else (s.readCache.pData.sCapacity : Int) * 4) = n ∧ s.readCache.pData.sCapacity * 4 ≤ n ∧ n < 2 ^ 31 := by
    split_ifs with hc
    · exact ⟨iAtLeast.toNat, by rw [int32_eq (by omega) hmax]; omega, by omega, by omega⟩
    · exact ⟨s.readCache.pData.sCapacity * 4, by rw [int32_eq (by omega) (by omega)]; rfl, le_rfl, by omega⟩
  have hsize := (Block.getData_spec s.readCache.pData hint n).1
  have hnew := MemPool.le_newSize n
  refine ⟨s.readCache.pData.getData hint n, s.expand_eq hint hn, ?_, ?_⟩
  · omega
  · rw [hsize]
    exact MemPool.newSize_lt hlt (by norm_num)

/-! ## Messages in the cache -/

/-- The parser has read a message of `n` bytes, the first ones of the cache. -/
structure Done (s : Reader) (n : Nat) : Prop where
  state : s.readMsg.this.nowState = .msgEnd
  start : s.readMsg.this.szStart = s.readCache.szMsgStart
  len : s.readMsg.this.iLen = n
  pos : s.readMsg.this.szNowPos = s.readMsg.this.szStart + n
  stop : s.readMsg.this.szEnd = s.readCache.szMsgEnd
  le : s.readCache.szMsgStart + n ≤ s.readCache.szMsgEnd
  lo : s.readCache.pData.uszData ≤ s.readCache.szMsgStart
  hi : s.readCache.szMsgEnd ≤ s.readCache.pData.uszEnd
  cap : 1 < s.readCache.pData.sCapacity ∧ s.readCache.pData.sCapacity < 2 ^ 31

theorem Done.within {n : Nat} (h : s.Done n) : s.readCache.Within where
  lo := h.lo
  le := by
    have hle := h.le
    omega
  hi := h.hi

theorem Done.receive {n : Nat} (h : s.Done n) (hbs : (bs.length : Int) ≤ s.iLeft) : (s.receive bs).Done n where
  state := h.state
  start := h.start
  len := h.len
  pos := h.pos
  stop := by
    show s.readMsg.this.szEnd + bs.length = s.readCache.szMsgEnd + bs.length
    rw [h.stop]
  le := by
    have hle := h.le
    show s.readCache.szMsgStart + n ≤ s.readCache.szMsgEnd + bs.length
    omega
  lo := h.lo
  hi := by
    show s.readCache.szMsgEnd + bs.length ≤ s.readCache.pData.uszEnd
    unfold iLeft at hbs
    omega
  cap := h.cap

theorem Done.movedTo {n : Nat} (h : s.Done n) {b : Block} (hroom : s.content.length ≤ b.sCapacity)
    (hcap : 1 < b.sCapacity ∧ b.sCapacity < 2 ^ 31) (mem : Int → UInt8) : (s.movedTo b mem).Done n where
  state := h.state
  start := by
    show b.uszData + (s.readMsg.this.szStart - s.readMsg.this.szStart) = b.uszData
    omega
  len := h.len
  pos := by
    have hpos := h.pos
    show b.uszData + (s.readMsg.this.szNowPos - s.readMsg.this.szStart) =
      b.uszData + (s.readMsg.this.szStart - s.readMsg.this.szStart) + n
    omega
  stop := by
    show b.uszData + (s.readMsg.this.szEnd - s.readMsg.this.szStart) =
      b.uszData + (s.readCache.szMsgEnd - s.readCache.szMsgStart)
    rw [h.stop, h.start]
  le := by
    have hle := h.le
    show b.uszData + (n : Int) ≤ b.uszData + (s.readCache.szMsgEnd - s.readCache.szMsgStart)
    omega
  lo := le_rfl
  hi := by
    rw [content_length] at hroom
    show b.uszData + (s.readCache.szMsgEnd - s.readCache.szMsgStart) ≤ b.uszData + b.sCapacity
    omega
  cap := hcap

/-- The reader when the message has been consumed and its block has not been given away. -/
def consumed (s : Reader) : Reader where
  mem := s.mem
  readCache := { s.readCache with szMsgStart := s.readCache.szMsgStart + s.readMsg.this.iLen }
  readMsg := s.readMsg.startNext

theorem Done.consumed {n : Nat} (h : s.Done n) : s.consumed.Aligned Scan.init 0 ∧ s.consumed.content = s.content.drop n := by
  have hlen := h.len
  have hle := h.le
  have hlo := h.lo
  constructor
  · exact {
      tracks := Layer.tracks_startNext _ _
      start := by
        show s.readMsg.this.szStart + s.readMsg.this.iLen = s.readCache.szMsgStart + s.readMsg.this.iLen
        rw [h.start]
      cursor := by
        show s.readMsg.startNext.this.cursor s.readMsg.startNext.next = s.readCache.szMsgStart + s.readMsg.this.iLen + (0 : Nat)
        unfold Layer.cursor
        rw [Layer.active_of_ne (by exact nofun), ← h.start]
        exact (add_zero _).symm
      stop := h.stop
      le := by
        show s.readCache.szMsgStart + s.readMsg.this.iLen + (0 : Nat) ≤ s.readCache.szMsgEnd
        omega
      lo := by
        show s.readCache.pData.uszData ≤ s.readCache.szMsgStart + s.readMsg.this.iLen
        omega
      hi := h.hi
      cap := h.cap }
  · show bytesAt s.mem (s.readCache.szMsgStart + s.readMsg.this.iLen)
      (s.readCache.szMsgEnd - (s.readCache.szMsgStart + s.readMsg.this.iLen)).toNat = _
    rw [content, MsgBufferMgr.content, bytesAt_drop, hlen]
    congr 1
    omega

theorem Done.length_le {n : Nat} (h : s.Done n) : n ≤ s.content.length := by
  have hle := h.le
  rw [content_length]
  omega

/-- The bytes of the message. -/
theorem Done.bytes {n : Nat} (h : s.Done n) (hfront : s.readCache.szMsgStart = s.readCache.pData.uszData) :
    bytesAt s.mem s.readCache.pData.uszData s.readMsg.this.iLen.toNat = s.content.take n := by
  have hle := h.le
  rw [h.len, Int.toNat_natCast, content, MsgBufferMgr.content, bytesAt_take _ _ (by omega), hfront]

/-- The rest of the bytes is moved to a block with room for it. -/
theorem Done.reset {n : Nat} (h : s.Done n) {b : Block} (hroom : s.content.length - n ≤ b.sCapacity)
    (hcap : 1 < b.sCapacity ∧ b.sCapacity < 2 ^ 31) :
    (s.consumed.moved (s.consumed.readCache.reset s.mem b)).Aligned Scan.init 0 ∧
      (s.consumed.moved (s.consumed.readCache.reset s.mem b)).content = s.content.drop n := by
  obtain ⟨hal, hcont⟩ := h.consumed
  obtain ⟨hal', hcont'⟩ := hal.reset (by rw [hcont, length_drop]; exact hroom) hcap
  exact ⟨hal', hcont'.trans hcont⟩

/-- `StartNext` after a message gets a block of the same size, or of the size of its class. -/
theorem Done.startNext {n : Nat} (h : s.Done n) (hpos : 0 < n) (hint : Int) : ∃ s', s.startNext hint = some s' ∧
    s'.Aligned Scan.init 0 ∧ s'.content = s.content.drop n ∧ s'.readCache.szMsgStart = s'.readCache.pData.uszData ∧
    s'.content.length < s'.readCache.pData.sCapacity ∧ s.readCache.pData.sCapacity ≤ s'.readCache.pData.sCapacity := by
  have hcap := h.cap
  have hlo := h.lo
  have hhi := h.hi
  unfold Block.uszEnd at hhi
  have hsize := (Block.getData_spec s.readCache.pData hint s.readCache.pData.sCapacity).1
  have hnew := MemPool.le_newSize s.readCache.pData.sCapacity
  have hlt := MemPool.newSize_lt hcap.2 (by norm_num)
  have hroom : s.content.length - n < (s.readCache.pData.getData hint s.readCache.pData.sCapacity).sCapacity := by
    rw [content_length, hsize]
    omega
  obtain ⟨hal, hcont⟩ := h.reset hroom.le (by rw [hsize]; omega)
  refine ⟨_, ?_, hal, hcont, rfl, ?_, ?_⟩
  · unfold Reader.startNext MsgBufferMgr.resetMemPool
    dsimp only
    rw [int32_eq (by omega) (by omega), if_neg (by omega), Int.toNat_natCast]
    rfl
  · rw [hcont, length_drop]
    exact hroom
  · exact hnew.trans hsize.ge

/-- The parser has read the first bytes of a message, which are the first ones of the block. -/
structure Reading (s : Reader) (c : Scan) (x : Nat) : Prop extends Aligned s c x where
  front : s.readCache.szMsgStart = s.readCache.pData.uszData
  scan : feeds Scan.step (s.content.take c.len) Scan.init = (none, c, [])
  longest : Scan.maxLen (s.content.take c.len) Scan.init 0 = x
  margin : Scan.Margin c x

theorem Reading.receive (h : s.Reading c x) (hbs : (bs.length : Int) ≤ s.iLeft) :
    (s.receive bs).Reading c x ∧ (s.receive bs).content = s.content ++ bs := by
  have hcont := content_receive h.within.le bs
  have htake : (s.receive bs).content.take c.len = s.content.take c.len := by
    rw [hcont, take_append_of_le_length h.length_le.1]
  refine ⟨⟨h.toAligned.receive hbs, h.front, ?_, ?_, h.margin⟩, hcont⟩
  · rw [htake]
    exact h.scan
  · rw [htake]
    exact h.longest

/-- `Reading` looks at the bytes of the cache only. -/
theorem Reading.of_aligned {s' : Reader} (h : s.Reading c x) (hal : s'.Aligned c x) (hcont : s'.content = s.content)
    (hfront : s'.readCache.szMsgStart = s'.readCache.pData.uszData) : s'.Reading c x where
  toAligned := hal
  front := hfront
  scan := by
    rw [hcont]
    exact h.scan
  longest := by
    rw [hcont]
    exact h.longest
  margin := h.margin

theorem Aligned.reading_init (h : s.Aligned Scan.init 0) (hfront : s.readCache.szMsgStart = s.readCache.pData.uszData) :
    s.Reading Scan.init 0 where
  toAligned := h
  front := hfront
  scan := rfl
  longest := rfl
  margin := ⟨nofun, by norm_num⟩

/-- What the bytes meet that the parser has not read. -/
theorem Reading.rest {P : UInt8 → Scan → Prop} (h : s.Reading c x) (hs : Scan.Throughout P s.content Scan.init) :
    Along P Scan.step s.unread c := by
  have hne := h.tracks.ne_msgEnd
  rw [← take_append_drop c.len s.content, ← h.unread_eq] at hs
  have hafter := hs.after (by exact nofun) h.scan nofun
  rw [Scan.restart_of_ne hne] at hafter
  exact hafter.along hne

theorem Aligned.take_unread (h : s.Aligned c x) (hwin : s.unread = us ++ rs) :
    s.content.take (c.len + us.length) = s.content.take c.len ++ us := by
  rw [take_add, ← h.unread_eq, hwin, take_left]

theorem Aligned.unread_le (h : s.Aligned c x) (hwin : s.unread = us ++ rs) : c.len + us.length ≤ s.content.length := by
  have hle := h.length_le.1
  have hlen := congrArg List.length (h.unread_eq.symm.trans hwin)
  rw [length_drop, length_append] at hlen
  omega

/-- What a call of `ParseRsp` leaves when it has read `c.len` bytes before. -/
inductive Parsed (s : Reader) (c : Scan) : ParseRet → RedisMsg → Prop
  /-- The message is not complete. -/
  | more {m : RedisMsg} {d : Scan} {x : Nat} (hread : { s with readMsg := m }.Reading d x)
      (hall : { s with readMsg := m }.unread = [] ∨
        ¬ Scan.Throughout (fun b c => ¬ Scan.Skips b c) s.content Scan.init) : Parsed s c .ok m
  /-- The message is complete. -/
  | message {m : RedisMsg} {n : Nat} (hlt : c.len < n)
      (hdone : { s with readMsg := m }.Done n) (hmsg : Scan.IsMessage (s.content.take n)) : Parsed s c .ok m
  /-- A null byte stands before a message. -/
  | null {m : RedisMsg} (hnull : ¬ Scan.Throughout Scan.NotNull s.content Scan.init) : Parsed s c .startNull m
  /-- The first bytes of the cache are not those of a message. -/
  | failed {m : RedisMsg} {us : List UInt8} {d : Scan} (hstop : m.this.szEnd = s.readCache.szMsgEnd) (hpre : us <+: s.content)
      (hfail : feeds Scan.step us Scan.init = (some .error, d, [])) : Parsed s c .error m

/-- The parser goes on in the message. -/
theorem Reading.more {o : Option ParseRet} {pr : Option MsgResults} {m : RedisMsg} (h : s.Reading c x)
    (hwin : s.unread = us ++ rs) (hfeeds : feeds Scan.step us c = (none, d, []))
    (hparse : feeds (Parse.step s.mem) us ⟨none, s.readMsg.this, s.readMsg.next⟩ = (o, ⟨pr, m.this, m.next⟩, []))
    (hst : Layer.Steps s.readMsg.this s.readMsg.next us.length (Scan.maxLen us c x) none m.this m.next d)
    (hrange : Along Scan.InRange Scan.step us c) :
    { s with readMsg := m }.Reading d (Scan.maxLen us c x) ∧ { s with readMsg := m }.unread = rs := by
  obtain ⟨htr, hcur⟩ := hst.again rfl
  have hlen := Scan.feeds_len hfeeds nofun
  have hle := h.le
  have hcur0 := h.cursor
  have hbound := h.unread_le hwin
  rw [content_length] at hbound
  have hstart : m.this.szStart = s.readCache.szMsgStart := by
    by_cases hd : d.state = .start
    · -- nothing has been read
      have h0 := htr.follows.fine.start hd
      have hnil : us = [] := length_eq_zero_iff.mp (by omega)
      subst hnil
      have hm : m.this = s.readMsg.this := (congrArg (fun r => r.2.1.this) hparse).symm
      rw [hm]
      exact h.start
    · have hloc := htr.located hd
      have hsize := htr.follows.len
      omega
  refine ⟨⟨⟨htr, hstart, ?_, hst.szEnd.trans h.stop, ?_, h.lo, h.hi, h.cap⟩, h.front, ?_, ?_, ?_⟩, ?_⟩
  · show m.this.cursor m.next = s.readCache.szMsgStart + d.len
    omega
  · show s.readCache.szMsgStart + d.len ≤ s.readCache.szMsgEnd
    omega
  · show feeds Scan.step (s.content.take d.len) Scan.init = _
    rw [hlen, h.take_unread hwin, feeds_append h.scan]
    exact hfeeds
  · show Scan.maxLen (s.content.take d.len) Scan.init 0 = _
    rw [hlen, h.take_unread hwin, Scan.maxLen_append h.scan, h.longest]
  · exact (h.margin.feeds hrange hfeeds).2 rfl
  · exact (RedisMsg.window_after m hwin hcur hst.szEnd).1

/-- The parser has read a message. -/
theorem Reading.message {m : RedisMsg} (h : s.Reading c x) (hwin : s.unread = us ++ rs)
    (hfeeds : feeds Scan.step us c = (some .ok, d, []))
    (hst : Layer.Steps s.readMsg.this s.readMsg.next us.length (Scan.maxLen us c x) (some .ok) m.this m.next d) :
    { s with readMsg := m }.Done (c.len + us.length) ∧ Scan.IsMessage (s.content.take (c.len + us.length)) := by
  obtain ⟨hend, hpos⟩ := hst.ended rfl
  have hlen := Scan.feeds_len hfeeds nofun
  have hle := h.le
  have hcur := h.cursor
  have hbound := h.unread_le hwin
  rw [content_length] at hbound
  have hloc := hend.located
  have hiLen := hend.len
  refine ⟨⟨hend.atEnd.state, ?_, ?_, ?_, hst.szEnd.trans h.stop, ?_, h.lo, h.hi, h.cap⟩, d, ?_⟩
  · show m.this.szStart = s.readCache.szMsgStart
    omega
  · show m.this.iLen = ((c.len + us.length : Nat) : Int)
    omega
  · show m.this.szNowPos = m.this.szStart + ((c.len + us.length : Nat) : Int)
    omega
  · show s.readCache.szMsgStart + ((c.len + us.length : Nat) : Int) ≤ s.readCache.szMsgEnd
    omega
  · rw [h.take_unread hwin, feeds_append h.scan]
    exact hfeeds

/-- A call of `ParseRsp`. -/
theorem Reading.parseRsp (h : s.Reading c x) (hs : Scan.Ranged s.content) :
    ∃ iRet m, s.readMsg.parseRsp s.mem = some (iRet, m) ∧ s.Parsed c iRet m := by
  have halong := h.rest hs
  have hle := h.le
  have hcur := h.cursor
  have hstop := h.stop
  have hcap := h.cap
  have hlo := h.lo
  have hhi := h.hi
  unfold Block.uszEnd at hhi
  obtain ⟨us, rs, o, d, m, hwin, hfeeds, hparse, ⟨pr, hpr⟩, hst, hall⟩ := RedisMsg.parseRsp_steps h.tracks (by omega)
    (by omega) (Along.mono (fun _ _ hb => hb.1) halong)
  have hwin' : s.unread = us ++ rs := hwin
  rw [hwin'] at halong
  have hus := halong.left
  -- what the whole cache meets, the bytes that have been read meet
  have hread : ∀ {P : UInt8 → Scan → Prop}, Scan.Throughout P s.content Scan.init → Along P Scan.step us c := fun hP => by
    have hrest := h.rest hP
    rw [hwin'] at hrest
    exact hrest.left
  refine ⟨o.getD .ok, m, hparse, ?_⟩
  rcases o with _ | _ | _ | _
  · obtain ⟨hmore, hrest⟩ := h.more hwin' hfeeds hpr hst hus
    refine .more hmore ?_
    rw [hrest]
    exact (hall rfl).imp id fun hskip hno => hskip (hread hno)
  · obtain ⟨hdone, hmsg⟩ := h.message hwin' hfeeds hst
    have hpos := RedisMsg.feeds_some_length hfeeds
    exact .message (by omega) hdone hmsg
  · have hpre : s.content.take c.len ++ us <+: s.content := by
      rw [← h.take_unread hwin']
      exact take_prefix _ _
    exact .failed (hst.szEnd.trans h.stop) hpre ((feeds_append h.scan).trans hfeeds)
  · exact .null fun hno => Scan.feeds_notNull hfeeds (hread hno) rfl

theorem Aligned.unread_lt_calls (h : s.Aligned c x) : s.unread.length < s.readMsg.calls := by
  have hpos : s.readMsg.this.szNowPos ≤ s.readMsg.this.cursor s.readMsg.next := h.tracks.ready.szNowPos_le
  unfold unread Layer.window Layer.left RedisMsg.calls
  rw [bytesAt_length]
  omega

theorem Reading.parsed {iRet : ParseRet} {m : RedisMsg} (h : s.Reading c x) (hs : Scan.Ranged s.content)
    (hparse : s.readMsg.parseRsp s.mem = some (iRet, m)) : s.Parsed c iRet m := by
  obtain ⟨iRet', m', hparse', hp⟩ := h.parseRsp hs
  rw [hparse] at hparse'
  cases hparse'
  exact hp

/-! ## Message after message -/

theorem Reading.iLeft_eq (h : s.Reading c x) : s.iLeft = s.readCache.pData.sCapacity - s.content.length := by
  have hle := h.within.le
  have hfront := h.front
  unfold iLeft Block.uszEnd
  rw [content_length]
  omega

/-- The messages `vs` have been consumed since `s₀`, each with a move of the rest. -/
structure Consumed (s₀ s : Reader) (vs : List (List UInt8)) : Prop where
  messages : ∀ v ∈ vs, Scan.IsMessage v
  content : s₀.content = vs.flatten ++ s.content
  room : vs ≠ [] → s.content.length < s.readCache.pData.sCapacity
  kept : vs = [] → s.readCache = s₀.readCache
  grown : s₀.readCache.pData.sCapacity ≤ s.readCache.pData.sCapacity

theorem consumed_refl (s : Reader) : Consumed s s [] := ⟨nofun, rfl, fun h => absurd rfl h, fun _ => rfl, le_rfl⟩

/-- Nothing is consumed of a message that is not complete. -/
theorem Consumed.eq_nil {s₀ : Reader} {vs : List (List UInt8)} (h : Consumed s₀ s vs)
    (hpart : feeds Scan.step s₀.content Scan.init = (none, d, [])) : vs = [] := by
  cases vs with
  | nil => rfl
  | cons v vs =>
    refine absurd (h.messages v mem_cons_self) (Scan.none_of_partial hpart ?_)
    rw [h.content, flatten_cons, append_assoc]
    exact prefix_append _ _

/-- What the bytes of the cache meet, the rest of them meets. -/
theorem Consumed.throughout {s₀ : Reader} {vs : List (List UInt8)} {P : UInt8 → Scan → Prop} (h : Consumed s₀ s vs)
    (hs : Scan.Throughout P s₀.content Scan.init) : Scan.Throughout P s.content Scan.init := by
  have hcont := h.content
  rw [hcont] at hs
  exact Scan.Throughout.drop h.messages hs

/-- One message more. -/
theorem Consumed.next {s₀ s' : Reader} {vs : List (List UInt8)} {m : RedisMsg} {n : Nat} {hint : Int} (h : Consumed s₀ s vs)
    (hfront : s.readCache.szMsgStart = s.readCache.pData.uszData) (hpos : 0 < n) (hdone : { s with readMsg := m }.Done n)
    (hmsg : Scan.IsMessage (s.content.take n)) (hnext : { s with readMsg := m }.startNext hint = some s') :
    s'.Reading Scan.init 0 ∧ s'.content = s.content.drop n ∧
      Consumed s₀ s' (vs ++ [bytesAt s.mem s.readCache.pData.uszData m.this.iLen.toNat]) := by
  obtain ⟨s₁, hnext₁, hal, hcont, hfront', hroom, hgrown⟩ := hdone.startNext hpos hint
  rw [hnext] at hnext₁
  cases hnext₁
  have hbytes : bytesAt s.mem s.readCache.pData.uszData m.this.iLen.toNat = s.content.take n := hdone.bytes hfront
  replace hcont : s'.content = s.content.drop n := hcont
  rw [hbytes]
  refine ⟨hal.reading_init hfront', hcont, ?_, ?_, fun _ => hroom,
    fun hnil => absurd hnil (append_ne_nil_of_right_ne_nil vs (cons_ne_nil _ _)), h.grown.trans hgrown⟩
  · intro v hv
    rcases mem_append.mp hv with hv | hv
    · exact h.messages v hv
    · rw [mem_singleton.mp hv]
      exact hmsg
  · rw [h.content, flatten_append, flatten_singleton, append_assoc, hcont, take_append_drop]

/-- There is room after a message has been consumed, and if the block was not full before. -/
theorem Consumed.room_of {s₀ : Reader} {vs : List (List UInt8)} (h : Consumed s₀ s vs) (hread : s.Reading c x)
    (hroom : vs = [] → 0 < s₀.iLeft) : 0 < s.iLeft := by
  by_cases hvs : vs = []
  · have hkept : s.iLeft = s₀.iLeft := by
      unfold iLeft
      rw [h.kept hvs]
    rw [hkept]
    exact hroom hvs
  · have hlt := h.room hvs
    rw [hread.iLeft_eq]
    omega

/-! ## Room for `read` -/

theorem Reading.leftCapcity_eq (h : s.Reading c x) : s.readCache.leftCapcity = s.iLeft := by
  have hle := h.within.le
  have hhi := h.within.hi
  have hfront := h.front
  have hcap := h.cap
  unfold Block.uszEnd at hhi
  unfold MsgBufferMgr.leftCapcity iLeft Block.uszEnd
  rw [int32_eq (by omega) (by omega)]
  omega

theorem Reading.atLeast (h : s.Reading c x) :
    0 ≤ int32 (s.readMsg.this.iMaxLen + 256) ∧ int32 (s.readMsg.this.iMaxLen + 256) < 2 ^ 31 := by
  have hx := h.margin.max
  rw [h.tracks.maxLen, int32_eq (by omega) (by omega)]
  omega

/-- `Expand` makes room. -/
theorem Reading.expand (h : s.Reading c x) (hcap : s.readCache.pData.sCapacity < 2 ^ 29) (hint : Int) {iAtLeast : Int}
    (h0 : 0 ≤ iAtLeast) (hmax : iAtLeast < 2 ^ 31) : ∃ r, s.readCache.expand s.mem hint iAtLeast = some r ∧
      (s.moved r).Reading c x ∧ (s.moved r).content = s.content ∧ 0 < (s.moved r).iLeft := by
  have hcap1 := h.cap.1
  obtain ⟨b, hexpand, hlt, hmaxb⟩ := s.expand_block (by omega) hcap hint h0 hmax
  have hlen := h.length_le.2
  obtain ⟨hal, hcont⟩ := h.toAligned.reset (b := b) (by omega) (by omega)
  have hread := h.of_aligned hal hcont rfl
  refine ⟨_, hexpand, hread, hcont, ?_⟩
  rw [hread.iLeft_eq, hcont]
  show (0 : Int) < b.sCapacity - s.content.length
  omega

/-- The bytes are at the start of the block already. -/
theorem Reading.resetBuffer (h : s.Reading c x) : (s.moved (s.readCache.resetBuffer s.mem)).Reading c x ∧
    (s.moved (s.readCache.resetBuffer s.mem)).content = s.content ∧
    (s.moved (s.readCache.resetBuffer s.mem)).iLeft = s.iLeft := by
  obtain ⟨hal, hcont⟩ := h.toAligned.resetBuffer
  have hread := h.of_aligned hal hcont rfl
  refine ⟨hread, hcont, ?_⟩
  rw [hread.iLeft_eq, h.iLeft_eq, hcont]
  rfl

/-- Writes outside of the block do not reach the bytes of the cache. -/
theorem content_congr {mem : Int → UInt8} (hw : s.readCache.Within) (hmem : ∀ a, s.readCache.pData.has a = true → mem a = s.mem a) :
    { s with mem }.content = s.content := by
  have hlo := hw.lo
  have hhi := hw.hi
  refine bytesAt_congr fun a hge hlt => hmem a ?_
  unfold Block.has
  rw [Bool.and_eq_true, decide_eq_true_eq, decide_eq_true_eq]
  replace hlt : a < s.readCache.szMsgStart + (s.readCache.szMsgEnd - s.readCache.szMsgStart).toNat := hlt
  replace hge : s.readCache.szMsgStart ≤ a := hge
  omega

theorem Reading.others (h : s.Reading c x) {mem : Int → UInt8} (hmem : ∀ a, s.readCache.pData.has a = true → mem a = s.mem a) :
    { s with mem }.Reading c x :=
  h.of_aligned ⟨h.tracks, h.start, h.cursor, h.stop, h.le, h.lo, h.hi, h.cap⟩ (content_congr h.within hmem) h.front

end Reader

namespace RedisMsg

/-- The calls report the messages of the stream up to the first mistake. -/
theorem Trace.reported {a a' : Mark} {bs rest : List UInt8} {calls : List Call} (h : Trace a bs calls a' rest)
    (hrest : (∀ call ∈ calls, call.iRet ≠ .error) → rest = []) :
    (calls.filter Call.isMsg).length = Scan.messages bs a.c := by
  induction h with
  | nil =>
    rw [hrest (by simp)]
    rfl
  | fail hf hc =>
    rw [Scan.messages_feeds hf (by simp), if_pos rfl]
    simp [Call.isMsg, hc.ret]
  | @cons a _ d us _ _ o call _ hf ho hc _ ih =>
    have hret : call.iRet ≠ .error := by
      rw [hc.ret]
      cases o <;> simp_all
    have hcount := ih fun hl => hrest (forall_mem_cons.mpr ⟨hret, hl⟩)
    by_cases hok : o = some .ok
    · subst hok
      have he := (hc.ended rfl).1
      have hnext : (a.next us d call).c = Scan.init := if_pos he.scan
      simp [Scan.messages_message hf, Call.isMsg, Call.isEnd, hc.ret, he.atEnd.state, hcount, hnext]
    · have hgo := (hc.again (by rcases o with _ | _ | _ | _ <;> simp_all)).1
      have hnext : (a.next us d call).c = d := Scan.restart_of_ne hgo.ne_msgEnd
      simp [Scan.messages_feeds hf hok, ho, Call.isMsg, Call.isEnd, hgo.ready.sane.notEnd, hcount, hnext]

/-- In whatever chunks a stream arrives, and well formed or not, the parser reports each message before
the first mistake. -/
theorem reports_messages (rd : Int → UInt8) (base : Int) (lens : List Nat) (hlens : ∀ len ∈ lens, len < 2 ^ 31)
    (hfit : Scan.Throughout Scan.Fit (bytesAt rd base lens.sum) Scan.init)
    (hskip : Scan.Throughout (fun b c => ¬ Scan.Skips b c) (bytesAt rd base lens.sum) Scan.init) :
    ∃ calls, feedAll rd (init base) lens = some calls ∧
      (calls.filter Call.isMsg).length = Scan.messages (bytesAt rd base lens.sum) Scan.init := by
  obtain ⟨calls, a', rest, hfeed, htrace, hrest⟩ := feedAll_init rd base lens hlens hfit (.inl hskip)
  exact ⟨calls, hfeed, htrace.reported fun h => hrest (fun x hx => h x (mem_of_getLast? hx)) hskip⟩

theorem reports_messages_fault : ∃ calls, feedAll (memoryOf "+OK\r\n*x") (init 0) [3, 4] = some calls ∧
    (calls.filter Call.isMsg).length = 1 :=
  reports_messages (memoryOf "+OK\r\n*x") 0 [3, 4] (by decide) (by decide) (by decide)

end RedisMsg

end RedisProxy
