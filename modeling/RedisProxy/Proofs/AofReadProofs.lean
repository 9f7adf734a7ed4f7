import RedisProxy.AofRead
import RedisProxy.Proofs.ReaderProofs

/-!
# How an append only file is read

The parser of the loader is in a message, or it has been left at the end of one (`Placed`). There a call of `ParseRsp`
steps over all the bytes that follow. In either case `StartNext` consumes bytes that the cache holds, so in an orderly run
the bytes of the cache stay in its block and nothing is lost.
-/

namespace RedisProxy

open Lib List

namespace Layer

variable {rd : Int → UInt8} {m : Layer} {next : List Layer}

/-- What `ParseRsp` leaves that has stepped over all the bytes behind a message. -/
structure Overrun (m m' : Layer) : Prop where
  state : m'.nowState = .msgEnd
  start : m'.szStart = m.szStart
  stop : m'.szEnd = m.szEnd
  pos : m'.szNowPos = m.szEnd
  len : m'.iLen = m.iLen + (m.szEnd - m.szNowPos)

/-- `ParseRsp` at the end of a message. -/
theorem parseRsp_msgEnd (hend : m.nowState = .msgEnd) (hline : m.bReadingLine = false) (k : Nat) (hk : m.szEnd = m.szNowPos + k)
    (h0 : 0 ≤ m.iLen) (hlt : m.iLen + k < 2 ^ 31) {n : Nat} (hn : k < n) :
    ∃ m', parseRsp rd n none m next = some (.ok, none, m', next) ∧ Overrun m m' := by
  induction k generalizing m n with
  | zero =>
    obtain ⟨n, rfl⟩ := Nat.exists_eq_succ_of_ne_zero (Nat.ne_of_gt hn)
    exact ⟨m, if_pos (by omega), hend, rfl, rfl, by omega, by omega⟩
  | succ k ih =>
    obtain ⟨n, rfl⟩ := Nat.exists_eq_succ_of_ne_zero (Nat.ne_of_gt (Nat.zero_lt_of_lt hn))
    have hswitch : (m.stepForward 1).parseSwitch m.szNowPos (rd m.szNowPos) = (none, m.stepForward 1) := by
      unfold parseSwitch stepForward
      simp only [hend]
    have hlen : (m.stepForward 1).iLen = m.iLen + 1 := int32_eq (by omega) (by omega)
    have hpos : (m.stepForward 1).szNowPos = m.szNowPos + 1 := rfl
    have hstop : (m.stepForward 1).szEnd = m.szEnd := rfl
    obtain ⟨m', hparse, hover⟩ := @ih (m.stepForward 1) hend hline (by omega) (by omega) (by omega) n (by omega)
    unfold parseRsp
    rw [if_neg (by omega), hline]
    simp only [Bool.false_eq_true, if_false, hswitch]
    have hlen' := hover.len
    exact ⟨m', hparse, hover.state, hover.start, hover.stop, hover.pos, by omega⟩

/-- The same for a parser that takes itself to be in a line. -/
theorem parseRsp_msgEnd_line (hend : m.nowState = .msgEnd) (hline : m.bReadingLine = true) (hlt : m.szNowPos < m.szEnd) (n : Nat) :
    parseRsp rd (n + 2) none m next = some (.error, none, m, next) := by
  unfold parseRsp
  rw [if_neg (by omega), hline]
  have hread : ∀ parse b, readLine rd parse b (n + 1) m.szNowPos m next = some (false, .error, m, next) := by
    intro parse b
    unfold readLine
    rw [if_neg (by omega), if_neg (by rw [hend]; simp), if_neg (by rw [hend]; simp)]
    unfold readSwitch
    simp only [hend]
  simp only [hread]
  rfl

end Layer

/-- At the end of a message, `ParseRsp` takes all the bytes of the cache for it, or fails. -/
theorem Reader.Done.parseRsp {s : Reader} {n : Nat} (h : s.Done n) : ∃ iRet m, s.readMsg.parseRsp s.mem = some (iRet, m) ∧
    (iRet = .ok → { s with readMsg := m }.Done s.content.length) := by
  have hle := h.le
  have hlo := h.lo
  have hhi := h.hi
  have hcap := h.cap
  have hstart := h.start
  have hstop := h.stop
  have hpos := h.pos
  have hlen := h.len
  have hlength := s.content_length
  unfold Block.uszEnd at hhi
  -- a parser that has come to `szEnd`
  have hdone : ∀ m : RedisMsg, Layer.Overrun s.readMsg.this m.this → { s with readMsg := m }.Done s.content.length := fun m hm => by
    have h1 := hm.start
    have h2 := hm.stop
    have h3 := hm.pos
    have h4 := hm.len
    refine ⟨hm.state, ?_, ?_, ?_, ?_, ?_, h.lo, h.hi, h.cap⟩ <;> dsimp only <;> omega
  unfold RedisMsg.parseRsp RedisMsg.parseRspResults
  by_cases hline : s.readMsg.this.bReadingLine = true ∧ s.readMsg.this.szNowPos < s.readMsg.this.szEnd
  · have hfail : Layer.parseRsp s.mem s.readMsg.rounds none s.readMsg.this s.readMsg.next =
        some (.error, none, s.readMsg.this, s.readMsg.next) := Layer.parseRsp_msgEnd_line h.state hline.1 hline.2 _
    rw [hfail]
    exact ⟨.error, s.readMsg, rfl, nofun⟩
  · obtain ⟨m', hparse, hover⟩ : ∃ m', Layer.parseRsp s.mem s.readMsg.rounds none s.readMsg.this s.readMsg.next =
        some (.ok, none, m', s.readMsg.next) ∧ Layer.Overrun s.readMsg.this m' := by
      by_cases hread : s.readMsg.this.bReadingLine = true
      · have hfull : s.readMsg.this.szEnd ≤ s.readMsg.this.szNowPos := not_lt.mp fun hlt => hline ⟨hread, hlt⟩
        refine ⟨s.readMsg.this, ?_, h.state, rfl, rfl, by omega, by omega⟩
        unfold RedisMsg.rounds Layer.parseRsp
        rw [if_pos hfull]
      · refine Layer.parseRsp_msgEnd h.state (Bool.not_eq_true _ ▸ hread) (s.readMsg.this.szEnd - s.readMsg.this.szNowPos).toNat
          (by omega) (by omega) (by omega) ?_
        unfold RedisMsg.rounds
        omega
    rw [hparse]
    exact ⟨.ok, ⟨m', s.readMsg.next⟩, rfl, fun _ => hdone ⟨m', s.readMsg.next⟩ hover⟩

namespace AofRead

variable {s : AofRead} {n : Nat}
variable {bs : List UInt8}

/-- The parser is in a message, or at the end of one. -/
def Placed (s : Reader) : Prop := (∃ c x, s.Reading c x) ∨ ∃ n, 0 < n ∧ s.Done n

/-- What has been read is what has been consumed and what the cache holds. -/
structure Kept (s : AofRead) : Prop where
  within : s.readCache.Within
  received : s.received = s.consumed ++ s.content

/-- `StartNext` gets a block of 512 bytes. -/
theorem startNext_spec (h : s.Done n) (hk : Kept s) (hroom : s.content.length - n ≤ 512) (hint : Int) :
    ∃ s', s.startNext hint = some s' ∧ Kept s' ∧ Placed s'.toReader ∧ s'.phase = s.phase ∧ s'.iProcFlag = s.iProcFlag := by
  have hsize : (s.readCache.pData.getData hint 1).sCapacity = 512 := (Block.getData_spec s.readCache.pData hint 1).1
  obtain ⟨hal, hcont⟩ := h.reset (by rw [hsize]; exact hroom) (by rw [hsize]; norm_num)
  have hread := hal.reading_init rfl
  refine ⟨_, rfl, ⟨hread.within, ?_⟩, .inl ⟨_, _, hread⟩, rfl, rfl⟩
  have hle := h.le
  have hbytes : bytesAt s.mem s.readCache.szMsgStart s.readMsg.this.iLen.toNat = s.content.take n := by
    rw [h.len, Int.toNat_natCast, Reader.content, MsgBufferMgr.content, bytesAt_take _ _ (by omega)]
  rw [hbytes, hk.received, append_assoc]
  congr 1
  refine ((congrArg (s.content.take n ++ ·) hcont).trans ?_).symm
  exact take_append_drop n s.content

/-- A request has been read; what follows it in the cache has room in the block of `StartNext`. -/
theorem process_spec (h : s.Done n) (hpos : 0 < n) (hk : Kept s) (hroom : s.content.length - n ≤ 512) (lUnixTime hint : Int) :
    ∃ o s', s.process lUnixTime hint = some (o, s') ∧ Kept s' ∧ Placed s'.toReader ∧ s'.phase = s.phase ∧
      s'.iProcFlag = s.iProcFlag := by
  have hstay : Placed s.toReader := .inr ⟨n, hpos, h⟩
  unfold process
  dsimp only
  split_ifs
  · obtain ⟨s', hnext, hspec⟩ := startNext_spec (s := s.getReply) h ⟨hk.within, hk.received⟩ hroom hint
    exact ⟨_, s', by rw [hnext]; rfl, hspec⟩
  · exact ⟨_, _, rfl, ⟨hk.within, hk.received⟩, hstay, rfl, rfl⟩
  · obtain ⟨s', hnext, hspec⟩ := startNext_spec (s := { s with iSelectNum := s.iSelectNum + 1 }.getReply) h
      ⟨hk.within, hk.received⟩ hroom hint
    exact ⟨_, s', by rw [hnext]; rfl, hspec⟩
  · exact ⟨_, _, rfl, hk, hstay, rfl, rfl⟩
  · exact ⟨_, _, rfl, hk, hstay, rfl, rfl⟩
  · exact ⟨_, _, rfl, hk, hstay, rfl, rfl⟩
  · obtain ⟨s', hnext, hspec⟩ := startNext_spec h hk hroom hint
    exact ⟨_, s', by rw [hnext]; rfl, hspec⟩

/-- The bytes behind the first message of the cache. -/
theorem behind_of_message (h : Scan.IsMessage (bs.take n)) : Scan.behind bs = bs.length - n := by
  obtain ⟨d, hd⟩ := h
  have hfeeds : feeds Scan.step (bs.take n ++ bs.drop n) Scan.init = (some .ok, d, bs.drop n) := feeds_stop hd
  rw [take_append_drop] at hfeeds
  unfold Scan.behind
  rw [hfeeds]
  exact length_drop

/-- A round of `ProcessMsg`. -/
theorem round_spec (hk : Kept s) (hp : Placed s.toReader) (hranged : Scan.Ranged s.content) (hbehind : Scan.behind s.content ≤ 512)
    (lUnixTime hint : Int) : ∃ o s', s.round lUnixTime hint = some (o, s') ∧ Kept s' ∧
      (o ≠ some .error → Placed s'.toReader) ∧ s'.phase = s.phase ∧ s'.iProcFlag = s.iProcFlag := by
  unfold round
  by_cases hring : s.ring.length = maxWaitRingLen
  · exact ⟨_, _, if_pos hring, hk, fun _ => hp, rfl, rfl⟩
  rw [if_neg hring]
  -- the rest of the round for a request of `n` bytes
  have hprocess : ∀ m n, { s.toReader with readMsg := m }.Done n → 0 < n → s.content.length - n ≤ 512 → ∃ o s',
      process lUnixTime { s with readMsg := m, ring := s.ring ++ [false] } hint = some (o, s') ∧ Kept s' ∧
      (o ≠ some .error → Placed s'.toReader) ∧ s'.phase = s.phase ∧ s'.iProcFlag = s.iProcFlag := by
    intro m n hdone hpos hroom
    obtain ⟨o, s', hprocess, hk', hp', hframe⟩ := process_spec (s := { s with readMsg := m, ring := s.ring ++ [false] }) hdone hpos
      ⟨hk.within, hk.received⟩ hroom lUnixTime hint
    exact ⟨o, s', hprocess, hk', fun _ => hp', hframe⟩
  rcases hp with ⟨c, x, hread⟩ | ⟨n, hpos, hdone⟩
  · obtain ⟨iRet, m, hparse, hp⟩ := hread.parseRsp hranged
    rw [hparse]
    cases hp with
    | more hmore =>
      exact ⟨_, _, if_neg hmore.tracks.ready.sane.notEnd, ⟨hk.within, hk.received⟩, fun _ => .inl ⟨_, _, hmore⟩, rfl, rfl⟩
    | message hlt hdone hmsg =>
      dsimp only
      rw [if_pos (by exact hdone.state)]
      exact hprocess m _ hdone (Nat.zero_lt_of_lt hlt) (by rw [← behind_of_message hmsg]; exact hbehind)
    | null => exact ⟨_, _, rfl, ⟨hk.within, hk.received⟩, fun hne => absurd rfl hne, rfl, rfl⟩
    | failed => exact ⟨_, _, rfl, ⟨hk.within, hk.received⟩, fun hne => absurd rfl hne, rfl, rfl⟩
  · obtain ⟨iRet, m, hparse, hover⟩ := hdone.parseRsp
    have hle := hdone.length_le
    rw [hparse]
    cases iRet with
    | ok =>
      dsimp only
      rw [if_pos (by exact (hover rfl).state)]
      exact hprocess m _ (hover rfl) (by omega) (by omega)
    | error => exact ⟨_, _, rfl, ⟨hk.within, hk.received⟩, fun hne => absurd rfl hne, rfl, rfl⟩
    | startNull => exact ⟨_, _, rfl, ⟨hk.within, hk.received⟩, fun hne => absurd rfl hne, rfl, rfl⟩

/-! ## Runs -/

/-- Nothing is lost, and as long as the loading has not failed, the parser is in its place. -/
structure Inv (s : AofRead) : Prop extends Kept s where
  placed : s.iProcFlag ≠ .error → Placed s.toReader
  busy : s.phase ≠ .idle → s.iProcFlag ≠ .error

theorem inv_init (mem : Int → UInt8) (uszData : Int) : Inv (init mem uszData) := by
  have hread : (init mem uszData).Reading Scan.init 0 := (Reader.aligned_init mem uszData).reading_init rfl
  exact ⟨⟨hread.within, (Reader.content_empty ..).symm⟩, fun _ => .inl ⟨_, _, hread⟩, fun hne => absurd rfl hne⟩

theorem Inv.again (h : Inv s) (hflag : s.iProcFlag ≠ .error) : Inv s.again := by
  unfold AofRead.again
  by_cases hring : s.ring.length = maxWaitRingLen
  · rw [if_pos hring]
    exact ⟨⟨h.within, h.received⟩, h.placed, fun _ => hflag⟩
  · rw [if_neg hring]
    exact ⟨⟨h.within, h.received⟩, h.placed, fun _ => hflag⟩

theorem Placed.receive {s : Reader} (h : Placed s) (hbs : (bs.length : Int) ≤ s.iLeft) : Placed (s.receive bs) := by
  rcases h with ⟨c, x, hread⟩ | ⟨n, hpos, hdone⟩
  · exact .inl ⟨c, x, (hread.receive hbs).1⟩
  · exact .inr ⟨n, hpos, hdone.receive hbs⟩

theorem Placed.within {s : Reader} (h : Placed s) : s.readCache.Within := by
  rcases h with ⟨c, x, hread⟩ | ⟨n, hpos, hdone⟩
  · exact hread.within
  · exact hdone.within

theorem Placed.cap {s : Reader} (h : Placed s) :
    s.content.length ≤ s.readCache.pData.sCapacity ∧ 1 < s.readCache.pData.sCapacity ∧ s.readCache.pData.sCapacity < 2 ^ 31 := by
  have hlen : s.content.length ≤ s.readCache.pData.sCapacity := by
    have hw := h.within
    have hlo := hw.lo
    have hle := hw.le
    have hhi := hw.hi
    unfold Block.uszEnd at hhi
    rw [Reader.content_length]
    omega
  rcases h with ⟨c, x, hread⟩ | ⟨n, hpos, hdone⟩
  · exact ⟨hlen, hread.cap⟩
  · exact ⟨hlen, hdone.cap⟩

theorem Placed.movedTo {s : Reader} (h : Placed s) {b : Block} {mem : Int → UInt8} (hroom : s.content.length ≤ b.sCapacity)
    (hcap : 1 < b.sCapacity ∧ b.sCapacity < 2 ^ 31) (hcopy : bytesAt mem b.uszData s.content.length = s.content) :
    Placed (s.movedTo b mem) := by
  rcases h with ⟨c, x, hread⟩ | ⟨n, hpos, hdone⟩
  · exact .inl ⟨c, x, hread.of_aligned (hread.movedTo hroom hcap mem) (Reader.content_movedTo hcopy) rfl⟩
  · exact .inr ⟨n, hpos, hdone.movedTo hroom hcap mem⟩

/-- The bytes are moved. -/
theorem Inv.move (h : Inv s) (hflag : s.iProcFlag ≠ .error) (hexp : s.expands → s.readCache.pData.sCapacity < 2 ^ 29)
    (hint : Int) : ∃ s', s.move hint = some s' ∧ Inv s' := by
  have hp := h.placed hflag
  obtain ⟨hlen, hpos, hmax⟩ := hp.cap
  -- the state after the bytes have been copied to the block `b`
  have hmoved : ∀ (b : Block) (mem : Int → UInt8), s.content.length ≤ b.sCapacity → 1 < b.sCapacity ∧ b.sCapacity < 2 ^ 31 →
      bytesAt mem b.uszData s.content.length = s.content → Inv { s with toReader := s.toReader.movedTo b mem }.again := by
    intro b mem hroom hcap hcopy
    have hp' := hp.movedTo hroom hcap hcopy
    refine Inv.again ⟨⟨hp'.within, ?_⟩, fun _ => hp', fun _ => hflag⟩ hflag
    exact h.received.trans (congrArg _ (Reader.content_movedTo hcopy).symm)
  unfold AofRead.move
  by_cases hhalf : s.readCache.leftCapcity < 0 ∨ ((s.readCache.pData.sCapacity / 2 : Nat) : Int) < s.readCache.leftCapcity
  · obtain ⟨mem, hreset, hcopy⟩ := s.toReader.moved_resetBuffer
    rw [if_pos hhalf]
    refine ⟨_, rfl, ?_⟩
    rw [hreset]
    exact hmoved _ mem hlen ⟨hpos, hmax⟩ hcopy
  · obtain ⟨b, hexpand, hlt, hmaxb⟩ := s.toReader.expand_block (by omega) (hexp hhalf) hint le_rfl
      (by norm_num : (0 : Int) < 2 ^ 31)
    obtain ⟨mem, hreset, hcopy⟩ := s.toReader.moved_reset b
    rw [if_neg hhalf, hexpand]
    refine ⟨_, rfl, ?_⟩
    rw [hreset]
    exact hmoved b mem (by omega) (by omega) hcopy

theorem Inv.others (h : Inv s) (hphase : s.phase = .idle) (mem : Int → UInt8) :
    Inv { s with mem := fun a => if s.readCache.pData.has a then s.mem a else mem a } := by
  refine ⟨⟨h.within, ?_⟩, fun hne => ?_, fun hne => absurd hphase hne⟩
  · exact h.received.trans (congrArg _ (Reader.content_congr h.within fun _ ha => if_pos ha).symm)
  · rcases h.placed hne with ⟨c, x, hread⟩ | ⟨n, hpos, hdone⟩
    · exact .inl ⟨c, x, hread.others fun _ ha => if_pos ha⟩
    · exact .inr ⟨n, hpos, hdone.state, hdone.start, hdone.len, hdone.pos, hdone.stop, hdone.le, hdone.lo, hdone.hi, hdone.cap⟩

/-- The loader leaves a phase in which it has not failed. -/
theorem Inv.leave (h : Inv s) (hflag : s.iProcFlag ≠ .error) (phase : LoadPhase) (iProcFlag : LoadFlag) (iPending : Bool)
    (hp : phase ≠ .idle → iProcFlag ≠ .error) : Inv { s with phase, iProcFlag, iPending } :=
  ⟨⟨h.within, h.received⟩, fun _ => h.placed hflag, hp⟩

/-- `ProcessMsg` has returned. -/
theorem Inv.returned (h : Kept s) (iRet : LoadRet) (caller : LoadCaller) (hp : iRet ≠ .error → Placed s.toReader)
    (hflag : s.iProcFlag ≠ .error) : Inv (s.returned iRet caller) := by
  cases iRet with
  | ok =>
    have hs : Inv s := ⟨h, fun _ => hp nofun, fun _ => hflag⟩
    rcases caller with ⟨short, feof⟩ | _
    · cases short with
      | true => exact hs.leave hflag .idle _ s.iPending fun hne => absurd rfl hne
      | false => exact hs.leave hflag .moving s.iProcFlag s.iPending fun _ => hflag
    · exact hs.leave hflag .idle s.iProcFlag s.iPending fun hne => absurd rfl hne
  | full =>
    have hs : Inv s := ⟨h, fun _ => hp nofun, fun _ => hflag⟩
    exact hs.leave hflag .idle s.iProcFlag true fun hne => absurd rfl hne
  | error => exact ⟨⟨h.within, h.received⟩, fun hne => absurd rfl hne, fun hne => absurd rfl hne⟩

/-- A call of `fread`. -/
theorem Inv.fread (h : Inv s) (hphase : s.phase = .reading) (bs : List UInt8) (feof : Bool) (lUnixTime : Int) :
    ∃ s', step lUnixTime s (.fread bs feof) = some s' ∧ Inv s' := by
  have hflag := h.busy (by rw [hphase]; exact nofun)
  unfold step
  simp only [hphase]
  generalize hbs : bs.take s.iLeft.toNat = bs'
  by_cases hnil : bs' = []
  · rw [if_pos hnil]
    exact ⟨_, rfl, h.leave hflag .idle _ s.iPending fun hne => absurd rfl hne⟩
  · rw [if_neg hnil]
    have hlen : (bs'.length : Int) ≤ s.iLeft := by
      have hmin := length_take_le s.iLeft.toNat bs
      have hpos := length_pos_iff.mpr hnil
      rw [hbs] at hmin
      omega
    have hp := (h.placed hflag).receive hlen
    refine ⟨_, rfl, ⟨hp.within, ?_⟩, fun _ => hp, fun _ => hflag⟩
    show s.received ++ bs' = s.consumed ++ (s.toReader.receive bs').content
    rw [Reader.content_receive h.within.le, h.received, append_assoc]

/-- An orderly step does not fail and keeps the invariant. -/
theorem Inv.step (h : Inv s) {l : Label} (hl : s.Orderly l) (lUnixTime : Int) : ∃ s', step lUnixTime s l = some s' ∧ Inv s' := by
  cases l with
  | enter =>
    by_cases hstart : s.phase = .idle ∧ s.iPending = false ∧ s.iProcFlag = .start
    · exact ⟨_, if_pos hstart, h.again (by rw [hstart.2.2]; exact nofun)⟩
    · exact ⟨s, if_neg hstart, h⟩
  | clearPending =>
    by_cases hstart : s.phase = .idle ∧ s.iPending = true ∧ s.iProcFlag ≠ .error
    · by_cases hring : s.ring = []
      · refine ⟨_, (if_pos hstart).trans (if_pos hring), ⟨h.within, h.received⟩, fun hne => absurd rfl hne,
          fun hne => absurd hstart.1 hne⟩
      · exact ⟨_, (if_pos hstart).trans (if_neg hring),
          h.leave hstart.2.2 (.processing .clearPending) s.iProcFlag false fun _ => hstart.2.2⟩
    · exact ⟨s, if_neg hstart, h⟩
  | fread bs feof =>
    rcases hphase : s.phase with _ | _ | caller | _
    · exact ⟨s, by simp only [AofRead.step, hphase], h⟩
    · exact h.fread hphase bs feof lUnixTime
    · exact ⟨s, by simp only [AofRead.step, hphase], h⟩
    · exact ⟨s, by simp only [AofRead.step, hphase], h⟩
  | round hint =>
    unfold AofRead.step
    rcases hphase : s.phase with _ | _ | caller | _
    · exact ⟨s, rfl, h⟩
    · exact ⟨s, rfl, h⟩
    · have hflag := h.busy (by rw [hphase]; exact nofun)
      obtain ⟨o, s', hround, hk, hp, hphase', hflag'⟩ := round_spec h.toKept (h.placed hflag) hl.1 hl.2 lUnixTime hint
      rw [← hflag'] at hflag
      dsimp only
      rw [hround]
      cases o with
      | none => exact ⟨s', rfl, hk, fun _ => hp nofun, fun _ => hflag⟩
      | some iRet => exact ⟨_, rfl, Inv.returned hk iRet caller (fun hne => hp fun ho => hne (Option.some.inj ho)) hflag⟩
    · exact ⟨s, rfl, h⟩
  | move hint =>
    by_cases hphase : s.phase = .moving
    · obtain ⟨s', hmove, hs'⟩ := h.move (h.busy (by rw [hphase]; exact nofun)) hl hint
      exact ⟨s', (if_pos hphase).trans hmove, hs'⟩
    · exact ⟨s, if_neg hphase, h⟩
  | others mem =>
    by_cases hphase : s.phase = .idle
    · exact ⟨_, if_pos hphase, h.others hphase mem⟩
    · exact ⟨s, if_neg hphase, h⟩

theorem run_inv (lUnixTime : Int) (mem : Int → UInt8) (uszData : Int) {ls : List Label}
    (hls : Meets (step lUnixTime) Orderly (init mem uszData) ls) :
    ∃ s, run (step lUnixTime) (init mem uszData) ls = some s ∧ Inv s :=
  run_isSome (fun _ _ h hl => h.step hl lUnixTime) ls _ (inv_init mem uszData) hls

end AofRead

end RedisProxy
