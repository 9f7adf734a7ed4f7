import RedisProxy.Proofs.RequestBytesProofs

/-!
# A request elsewhere in the memory

The parser only compares the bytes of the command with `EVAL` and `EVALSHA`; apart from that it does not look at bytes
again. So it reads a request at another address, in another memory, in the same way (`feeds_shift`), if the bytes of the
request that it has read are the same there.
-/

namespace RedisProxy

open Lib Resp List

namespace Layer

section

variable {rd : Int → UInt8} {ch : UInt8} {pr pr' : Option MsgResults} {m m' : Layer} {next : List Layer}
  {o : Option ParseRet} {us : List UInt8} {p q : Int}

/-! ### A parser that has been moved -/

/-- The parser at an address that is larger by `δ`. Where its bytes end and what its last line was does not matter. -/
def shift (δ e : Int) (l : MsgMeta) (m : Layer) : Layer :=
  { m with
    szStart := m.szStart + δ
    szNowPos := m.szNowPos + δ
    szKeyStart := m.szKeyStart.map (· + δ)
    szCmd := m.szCmd.map (· + δ)
    szEnd := e
    line := l }

section

variable {δ e : Int} {l : MsgMeta} {b : Bool}
variable {n : Nat} {m1 : Layer}

theorem stepForward_shift (k : Int) : (m.shift δ e l).stepForward k = (m.stepForward k).shift δ e l := by
  unfold stepForward shift
  simp only [add_right_comm]

theorem keyStart_shift (b : Bool) (p : Int) : (m.shift δ e l).keyStart b (p + δ) = (m.keyStart b p).shift δ e l := by
  unfold keyStart
  by_cases h : m.szKeyStart = none ∧ b = true
  · rw [if_pos h, if_pos (by simpa [shift] using h)]
    rfl
  · rw [if_neg h, if_neg (by simpa [shift] using h)]

theorem cmdInfo_shift (p : Int) : (m.shift δ e l).cmdInfo (p + δ) = (m.cmdInfo p).shift δ e l := by
  unfold cmdInfo
  by_cases h : m.szCmd = none
  · rw [if_pos h, if_pos (by simpa [shift] using h)]
    rfl
  · rw [if_neg h, if_neg (by simpa [shift] using h)]

theorem endStr_shift (p : Int) : (m.shift δ e l).endStr (p + δ) = (m.endStr p).shift δ e l := by
  unfold endStr
  cases h : m.szKeyStart with
  | none => simp [shift, h]
  | some k =>
    have hd : p + δ - 1 - (k + δ) = p - 1 - k := by omega
    simp only [shift, h, Option.map_some, hd]
    split_ifs
    · simp
    · simp [h]

theorem startStr_shift (b : Bool) (p : Int) : ∃ l',
    (m.shift δ e l).startStr b (p + δ) = (m.startStr b p).shift δ e l' := by
  have h1 : ({ m.shift δ e l with nowState := .str } : Layer) = ({ m with nowState := .str } : Layer).shift δ e l := rfl
  unfold startStr
  rw [h1, stepForward_shift]
  generalize ({ m with nowState := .str } : Layer).stepForward 1 = m1
  exact ⟨{ l with iLen := m1.iLen }, keyStart_shift (m := { m1 with line.iLen := m1.iLen }) b p⟩

/-- The bytes of the next line are read the same way elsewhere. -/
theorem readSwitch_shift (b : Bool) (p : Int) (ch : UInt8) : ∃ l',
    (m.shift δ e l).readSwitch b (p + δ) ch = ((m.readSwitch b p ch).1, (m.readSwitch b p ch).2.shift δ e l') := by
  have hstate : (m.shift δ e l).nowState = m.nowState := rfl
  unfold readSwitch
  rw [hstate]
  cases m.nowState with
  | readingLine =>
    dsimp only
    split_ifs
    · obtain ⟨l', h⟩ := startStr_shift (e := e) (l := l) (δ := δ) b p
      exact ⟨l', by rw [h]⟩
    · exact ⟨l, by rw [← stepForward_shift]; rfl⟩
    · exact ⟨l, rfl⟩
  | strCrlf =>
    dsimp only
    refine ⟨⟨m.szNowPos + δ - int32 (m.iLen - l.iLen - 1) - 1, int32 (m.iLen - l.iLen - 1)⟩, ?_⟩
    have h1 : ∀ l1 l2 : MsgMeta, ({ m.shift δ e l with line := l1 } : Layer) = ({ m with line := l2 } : Layer).shift δ e l1 :=
      fun _ _ => rfl
    rw [h1 _ ⟨m.szNowPos - int32 (m.iLen - m.line.iLen - 1) - 1, int32 (m.iLen - m.line.iLen - 1)⟩, stepForward_shift]
    split_ifs
    · rw [endStr_shift]
      rfl
    · rfl
  | usdStr =>
    dsimp only
    rw [keyStart_shift, cmdInfo_shift, stepForward_shift]
    generalize ((m.keyStart b p).cmdInfo p).stepForward 1 = m1
    refine ⟨l, ?_⟩
    have h1 : (m1.shift δ e l).iArgLen = m1.iArgLen := rfl
    rw [h1]
    split_ifs
    · rfl
    · rfl
    · rfl
  | usdNum =>
    dsimp only
    rw [stepForward_shift]
    generalize m.stepForward 1 = m1
    refine ⟨l, ?_⟩
    have h1 : (m1.shift δ e l).iArgLen = m1.iArgLen := rfl
    rw [h1]
    split_ifs <;> rfl
  | usdNumCrlf =>
    dsimp only
    rw [stepForward_shift]
    generalize m.stepForward 1 = m1
    split_ifs
    · exact ⟨{ l with iLen := m1.iLen }, rfl⟩
    · exact ⟨l, rfl⟩
  | usdEmpty =>
    dsimp only
    rw [stepForward_shift]
    generalize m.stepForward 1 = m1
    split_ifs
    · exact ⟨{ l with iLen := m1.iLen }, rfl⟩
    · exact ⟨l, rfl⟩
  | str | usdZero | usdEmptyOne =>
    rw [stepForward_shift]
    refine ⟨l, ?_⟩
    split_ifs <;> rfl
  | _ => exact ⟨l, rfl⟩

theorem parseSwitch_shift (p : Int) (ch : UInt8) : (m.shift δ e l).parseSwitch (p + δ) ch =
    ((m.parseSwitch p ch).1, (m.parseSwitch p ch).2.shift δ e l) := by
  have hstate : (m.shift δ e l).nowState = m.nowState := rfl
  have hneed : (m.shift δ e l).iNeedArgNum = m.iNeedArgNum := rfl
  unfold parseSwitch
  rw [hstate, hneed]
  cases m.nowState with
  | start | narg | nargCrlf =>
    dsimp only
    split_ifs <;> rfl
  | nargZero | nargNagOne =>
    dsimp only
    split_ifs <;> rfl
  | _ => rfl

variable {rd' : Int → UInt8}

theorem strIcmp_congr {cs : List UInt8} (hn : cs.length ≤ n) (h : bytesAt rd p n = bytesAt rd' q n) :
    strIcmp rd p cs = strIcmp rd' q cs := by
  induction cs generalizing p q n with
  | nil => rfl
  | cons c cs ih =>
    cases n with
    | zero => simp at hn
    | succ n =>
      simp only [bytesAt, cons.injEq] at h
      unfold strIcmp
      rw [h.1, ih (by simpa using hn) h.2]

/-- The two memories have the same command. -/
def SameCmd (rd rd' : Int → UInt8) (δ : Int) (m : Layer) : Prop :=
  ∀ c, m.szCmd = some c → bytesAt rd c m.iCmdLen.toNat = bytesAt rd' (c + δ) m.iCmdLen.toNat

theorem keyInLine_shift (h : SameCmd rd rd' δ m) : (m.shift δ e l).keyInLine rd' = m.keyInLine rd := by
  have hlen : (m.shift δ e l).iCmdLen = m.iCmdLen := rfl
  have hcmd : (m.shift δ e l).szCmd = m.szCmd.map (· + δ) := rfl
  unfold keyInLine
  rw [hcmd, hlen]
  cases hc : m.szCmd with
  | none => rfl
  | some c =>
    have h1 := h c hc
    have h4 : m.iCmdLen = 4 → strIcmp rd' (c + δ) [101, 118, 97, 108] = strIcmp rd c [101, 118, 97, 108] :=
      fun hl => (strIcmp_congr (by rw [hl]; decide) h1).symm
    have h7 : m.iCmdLen = 7 → strIcmp rd' (c + δ) [101, 118, 97, 108, 115, 104, 97] =
        strIcmp rd c [101, 118, 97, 108, 115, 104, 97] :=
      fun hl => (strIcmp_congr (by rw [hl]; decide) h1).symm
    dsimp only [Option.map_some]
    by_cases hl4 : m.iCmdLen = 4
    · rw [h4 hl4]
      simp only [hl4]
      rfl
    · by_cases hl7 : m.iCmdLen = 7
      · rw [h7 hl7]
        simp only [hl7]
        rfl
      · simp only [hl4, hl7, false_and, if_false]

theorem lineDone_shift (h : SameCmd rd rd' δ m) : (m.shift δ e l).lineDone rd' = (m.lineDone rd).shift δ e l := by
  have hk := keyInLine_shift (e := e) (l := l) h
  have hcond : (m.shift δ e l).szCmd ≠ none ∧ (m.shift δ e l).szKeyStart = none ↔ m.szCmd ≠ none ∧ m.szKeyStart = none := by
    simp [shift]
  by_cases hc : m.szCmd ≠ none ∧ m.szKeyStart = none
  · obtain ⟨h1, h2⟩ := hcond.mpr hc
    rw [lineDone_before hc.1 hc.2 rfl, lineDone_before h1 h2 rfl, hk]
    rfl
  · rw [lineDone_after hc, lineDone_after (mt hcond.mp hc)]
    rfl

theorem endLine_shift (h : SameCmd rd rd' δ m) : (m.shift δ e l).endLine rd' none [] =
    ((m.endLine rd none []).1, none, (m.endLine rd none []).2.2.1.shift δ e l, []) := by
  have hneed : (m.lineDone rd |>.shift δ e l).iNeedArgNum = (m.lineDone rd).iNeedArgNum := rfl
  unfold endLine addResult
  dsimp only
  rw [lineDone_shift h, hneed]
  split_ifs <;> rfl

/-- The command is between `p` and the byte that comes next, or will be with the bulk string that is being read. -/
structure CmdRead (p : Int) (m : Layer) : Prop where
  start : p ≤ m.szNowPos
  fresh : m.nowState = .start → m.szCmd = none
  cmd : ∀ c, m.szCmd = some c → p ≤ c ∧ c + m.iCmdLen ≤ m.szNowPos + if m.nowState = .usdStr then m.iArgLen else 0

theorem cmdRead_init (p : Int) : CmdRead p (init p) := ⟨le_refl _, fun _ => rfl, by simp [init, MsgInfo.zero]⟩

/-- A byte outside of a bulk string. -/
theorem CmdRead.ahead (h : CmdRead p m) (hs : m.nowState ≠ .usdStr) (hs1 : m1.nowState ≠ .start)
    (ha : m1.nowState = .usdStr → 0 ≤ m1.iArgLen) (hp : m1.szNowPos = m.szNowPos + 1) (hc : m1.szCmd = m.szCmd)
    (hl : m1.iCmdLen = m.iCmdLen) : CmdRead p m1 := by
  have hstart := h.start
  refine ⟨by omega, fun hn => absurd hn hs1, fun c hm => ?_⟩
  obtain ⟨h5, h6⟩ := h.cmd c (hc ▸ hm)
  rw [if_neg hs] at h6
  refine ⟨h5, ?_⟩
  split_ifs with hn
  · have := ha hn
    omega
  · omega

/-- A byte of a bulk string. -/
theorem CmdRead.bulk (h : CmdRead p m) (hs : m.nowState = .usdStr) (hs1 : m1.nowState ≠ .start)
    (ha : m.iArgLen - 1 ≤ if m1.nowState = .usdStr then m1.iArgLen else 0) (hp : m1.szNowPos = m.szNowPos + 1)
    (hc : m1.szCmd = (m.marked m.szNowPos).szCmd) (hl : m1.iCmdLen = (m.marked m.szNowPos).iCmdLen) : CmdRead p m1 := by
  have hstart := h.start
  obtain ⟨k, hk⟩ := keyStart_eq m m.bKeyLine m.szNowPos
  unfold marked at hc hl
  rw [hk] at hc hl
  refine ⟨by omega, fun hn => absurd hn hs1, fun c hm => ?_⟩
  rw [hc] at hm
  rw [hp, hl]
  unfold cmdInfo at hm ⊢
  by_cases h0 : m.szCmd = none
  · rw [if_pos h0] at hm ⊢
    cases hm
    exact ⟨hstart, by dsimp only; omega⟩
  · rw [if_neg h0] at hm ⊢
    obtain ⟨h5, h6⟩ := h.cmd c hm
    rw [if_pos hs] at h6
    exact ⟨h5, by dsimp only; omega⟩

theorem CmdRead.readSwitch {r : LineRet} (h : CmdRead p m) (hs : m.Sane)
    (hb : ReadsByte m.bKeyLine m.szNowPos ch m r m1) (hr : r ≠ .fail) : CmdRead p m1 := by
  have ha := hs.argLen
  have hmax := hs.argMax
  have hp := (hb.moved hr).nowPos
  cases hb with
  | str h1 =>
    obtain ⟨k, hk⟩ := startStr_eq m m.bKeyLine m.szNowPos
    rw [hk] at hp ⊢
    exact h.ahead (by rw [h1]; simp) (by simp) (by simp) hp rfl rfl
  | lineEnd h1 =>
    obtain ⟨n, hn⟩ := endStr_eq (({ m with line := ⟨m.szNowPos - int32 (m.iLen - m.line.iLen - 1) - 1,
      int32 (m.iLen - m.line.iLen - 1)⟩ } : Layer).stepForward 1) m.szNowPos
    rw [hn] at hp ⊢
    exact h.ahead (by rw [h1]; simp) (by simp [stepForward, h1]) (by simp [stepForward, h1]) hp rfl rfl
  | usdLf h1 => exact h.ahead (by rw [h1]; simp) (by simp) (fun _ => ha) hp rfl rfl
  | bulkCr h1 h2 => exact h.bulk h1 (by simp) (by rw [if_neg (by simp)]; omega) hp rfl rfl
  | bulkChar h1 h2 =>
    have h3 := (m.marked_nowState m.szNowPos).trans h1
    refine h.bulk h1 (fun hn => absurd (h3.symm.trans hn) (by simp)) ?_ hp rfl rfl
    rw [if_pos (by exact h3)]
    rw [int32_eq (by omega) (by omega)]
  | fail => exact absurd rfl hr
  | skip h1 | strChar h1 | digit h1 =>
    exact h.ahead (by rw [h1]; simp) (by simp [stepForward, h1]) (by simp [stepForward, h1]) hp rfl rfl
  | usd h1 | strCr h1 | usdCr h1 | usdSub h1 | zeroCr h1 | emptyOne h1 | emptyCr h1 =>
    exact h.ahead (by rw [h1]; rintro ⟨⟩) (by rintro ⟨⟩) (by rintro ⟨⟩) hp rfl rfl

theorem CmdRead.parseSwitch (h : CmdRead p m) (hs : m.Sane) (hr : m.bReadingLine = false)
    (hb : ParsesByte q ch (m.stepForward 1) none m1) : CmdRead p m1 ∧ m1.szNowPos = m.szNowPos + 1 := by
  have hout : ∀ s, m.nowState = s → inLine s = false := fun s h1 => by rw [← h1, ← hs.reading, hr]
  have hnot : m.nowState ≠ .usdStr := fun h1 => absurd (hout _ h1) nofun
  cases hb with
  | str h1 | err h1 | usd h1 | star h1 => exact ⟨h.ahead hnot nofun nofun rfl rfl rfl, rfl⟩
  | digit h1 =>
    exact ⟨h.ahead hnot (fun hn => absurd (h1.symm.trans hn) nofun) (fun hn => absurd hn hnot) rfl rfl rfl, rfl⟩
  | digitZero | nargCr | nargSub | zeroCr | nagOne | body => exact ⟨h.ahead hnot nofun nofun rfl rfl rfl, rfl⟩
  | other h1 =>
    rcases h1 with h1 | h1
    · exact absurd ((hout _ rfl).symm.trans h1) nofun
    · exact absurd h1 hs.notEnd

theorem lineEnd_cmd (h : ReadsByte b p ch m .lineEnd m1) : m.nowState = .strCrlf ∧ m1.nowState = .strCrlf ∧
    m1.szCmd = m.szCmd ∧ m1.iCmdLen = m.iCmdLen := by
  cases h with
  | lineEnd h1 =>
    obtain ⟨n, hn⟩ := endStr_eq (({ m with line := ⟨m.szNowPos - int32 (m.iLen - m.line.iLen - 1) - 1,
      int32 (m.iLen - m.line.iLen - 1)⟩ } : Layer).stepForward 1) p
    rw [hn]
    exact ⟨h1, h1, rfl, rfl⟩

/-- A byte of a request. -/
theorem CmdRead.flatByte (h : CmdRead p m) (hs : m.Sane) (hb : flatByte rd ch (none, m) = (none, none, m1)) :
    CmdRead p m1 ∧ m1.szNowPos = m.szNowPos + 1 := by
  unfold Layer.flatByte at hb
  by_cases hr : m.bReadingLine = true
  · rw [if_pos hr] at hb
    have hread := readSwitch_reads m m.bKeyLine m.szNowPos ch
    rcases hsw : m.readSwitch m.bKeyLine m.szNowPos ch with ⟨ret, m2⟩
    rw [hsw] at hb hread
    cases ret with
    | more | bulk | stop =>
      cases hb
      exact ⟨h.readSwitch hs hread nofun, (hread.moved nofun).nowPos⟩
    | fail => cases hb
    | lineEnd =>
      have h2 := h.readSwitch hs hread nofun
      have hp := (hread.moved nofun).nowPos
      obtain ⟨-, h3, -, -⟩ := lineEnd_cmd hread
      obtain ⟨k, b, hd⟩ := lineDone_eq rd m2
      unfold endLine addResult at hb
      dsimp only at hb
      by_cases h0 : (m2.lineDone rd).iNeedArgNum = 0
      · rw [if_pos h0] at hb
        cases hb
      · rw [if_neg h0] at hb
        cases hb
        rw [hd]
        refine ⟨⟨h2.start, nofun, fun c hc => ?_⟩, hp⟩
        have h4 := h2.cmd c hc
        rw [if_neg (by rw [h3]; exact nofun)] at h4
        exact h4
  · rw [if_neg hr] at hb
    have hparse := parseSwitch_parses (m.stepForward 1) m.szNowPos ch
    simp only [Prod.mk.injEq, true_and] at hb
    rw [hb.1, hb.2] at hparse
    exact h.parseSwitch hs (Bool.eq_false_iff.mpr hr) hparse

theorem bytesAt_sub {c k : Int} (h : bytesAt rd p n = bytesAt rd' q n) (hp : p ≤ c) (hc : c + k ≤ p + n) :
    bytesAt rd c k.toNat = bytesAt rd' (c + (q - p)) k.toNat := by
  by_cases hk : k < 0
  · rw [Int.toNat_of_nonpos (by omega)]
    rfl
  · obtain ⟨i, hi⟩ := Int.eq_ofNat_of_zero_le (show 0 ≤ c - p by omega)
    obtain rfl : c = p + i := by omega
    obtain ⟨j, rfl⟩ := Int.eq_ofNat_of_zero_le (not_lt.mp hk)
    obtain ⟨r, rfl⟩ : ∃ r, n = i + j + r := ⟨n - (i + j), by omega⟩
    rw [RedisMsg.bytesAt_add, RedisMsg.bytesAt_add, RedisMsg.bytesAt_add, RedisMsg.bytesAt_add] at h
    have h1 := (append_inj h (by simp [bytesAt_length])).1
    have h2 := (append_inj h1 (by simp [bytesAt_length])).2
    rw [Int.toNat_natCast, h2]
    congr 1
    omega

/-- A byte of a request is read the same way elsewhere, if the bytes before it are the same there. -/
theorem flatByte_shift (h : flatByte rd ch (none, m) = (o, none, m1)) (hr : CmdRead p m) (hn : m.szNowPos ≤ p + n)
    (hsame : bytesAt rd p n = bytesAt rd' (p + δ) n) :
    ∃ l', flatByte rd' ch (none, m.shift δ e l) = (o, none, m1.shift δ e l') := by
  have h1 : (m.shift δ e l).bReadingLine = m.bReadingLine := rfl
  have h2 : (m.shift δ e l).bKeyLine = m.bKeyLine := rfl
  have h3 : (m.shift δ e l).szNowPos = m.szNowPos + δ := rfl
  unfold flatByte at h ⊢
  rw [h1, h2, h3]
  split_ifs at h ⊢ with hread
  · obtain ⟨l', hl⟩ := readSwitch_shift (δ := δ) (e := e) (l := l) m.bKeyLine m.szNowPos ch
    have hreads := readSwitch_reads m m.bKeyLine m.szNowPos ch
    rw [hl]
    rcases hsw : m.readSwitch m.bKeyLine m.szNowPos ch with ⟨ret, m2⟩
    rw [hsw] at h hreads
    cases ret with
    | more | bulk | stop | fail =>
      cases h
      exact ⟨l', rfl⟩
    | lineEnd =>
      obtain ⟨hs, -, hc1, hc2⟩ := lineEnd_cmd hreads
      have hcmd : SameCmd rd rd' δ m2 := by
        intro c hc
        obtain ⟨h5, h6⟩ := hr.cmd c (hc1 ▸ hc)
        rw [if_neg (by rw [hs]; exact nofun)] at h6
        have := bytesAt_sub hsame h5 (k := m.iCmdLen) (by omega)
        rw [hc2, this]
        congr 1
        omega
      dsimp only at h ⊢
      rw [endLine_shift hcmd]
      simp only [Prod.mk.injEq] at h
      obtain ⟨rfl, -, rfl⟩ := h
      exact ⟨l', rfl⟩
  · rw [stepForward_shift, parseSwitch_shift]
    obtain ⟨rfl, -, rfl⟩ := h
    exact ⟨l, rfl⟩

theorem flatByte_results {pr1 : Option MsgResults} (h : flatByte rd ch (none, m) = (o, pr1, m1)) : pr1 = none := by
  unfold flatByte at h
  split_ifs at h
  · rcases hsw : m.readSwitch m.bKeyLine m.szNowPos ch with ⟨ret, m2⟩
    rw [hsw] at h
    cases ret with
    | more | bulk | stop | fail => cases h; rfl
    | lineEnd =>
      simp only [Prod.mk.injEq] at h
      rw [← h.2.1]
      unfold endLine addResult
      dsimp only
      split_ifs <;> rfl
  · cases h
    rfl

/-- The bytes of a request are read the same way elsewhere. -/
theorem feeds_shift {c : Scan} {x : Nat} (h : feeds (flatByte rd) us (none, m) = (o, (none, m1), []))
    (ho : o ≠ some .error) (hr : CmdRead p m) (ht : Tracks (m.shift δ e l) next c x) (hfit : Along Scan.Fit Scan.step us c)
    (hn : m.szNowPos + us.length ≤ p + n) (hsame : bytesAt rd p n = bytesAt rd' (p + δ) n) :
    ∃ l', feeds (Parse.step rd') us ⟨none, m.shift δ e l, next⟩ = (o, ⟨none, m1.shift δ e l', next⟩, []) ∧
      (o = none → CmdRead p m1 ∧ m1.szNowPos = m.szNowPos + us.length) := by
  induction us generalizing m c x l with
  | nil =>
    cases h
    exact ⟨l, rfl, fun _ => ⟨hr, by simp⟩⟩
  | cons ch us ih =>
    simp only [length_cons] at hn
    obtain ⟨o1, t1, next1, d1, hs, hd1, hst⟩ := ht.step rd' hfit.1
    rcases hb : flatByte rd ch (none, m) with ⟨o2, pr2, m2⟩
    obtain rfl := flatByte_results hb
    obtain ⟨l2, hb2⟩ := flatByte_shift (e := e) (l := l) hb hr (by omega) hsame
    rcases o2 with _ | iRet
    · have hstep := step_of_flat next hb2 nofun
      have hsane := ht.ready.sane
      obtain ⟨hr2, hp2⟩ := hr.flatByte ⟨hsane.reading, hsane.notEnd, hsane.argLen, hsane.argMax, hsane.len⟩ hb
      rw [hstep] at hs
      cases hs
      rw [feeds_cons_none hb] at h
      obtain ⟨l3, h3, h4⟩ := ih h hr2 (hst.again rfl).1 (hfit.cons_none hd1) (by omega)
      refine ⟨l3, by rw [feeds_cons_none hstep, h3], fun ho' => ⟨(h4 ho').1, ?_⟩⟩
      rw [(h4 ho').2, hp2, length_cons]
      omega
    · rw [feeds_cons_some hb] at h
      cases h
      exact ⟨l2, feeds_cons_some (step_of_flat next hb2 ho), nofun⟩

end

end

end Layer

end RedisProxy
