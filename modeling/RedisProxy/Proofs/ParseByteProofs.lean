import RedisProxy.ParseByte
import RedisProxy.Proofs.EventProofs

/-!
# The parser between two bytes

`ReadsByte`, `ParsesByte` and `EndsLine` list the transitions. From them follows what one byte does to the
place, the length and the readiness of a chain of parsers (`byte_continues`), as long as no count or
length leaves the range of an `int`.
-/

namespace RedisProxy

theorem Byte.digit_nonneg {ch : UInt8} (h : Byte.isDigit ch = true) : 0 ≤ Byte.digit ch := by
  simp only [Byte.isDigit, Bool.and_eq_true, decide_eq_true_eq] at h
  have h1 := UInt8.le_iff_toNat_le.mp h.1
  have h2 : (48 : UInt8).toNat = 48 := rfl
  unfold Byte.digit
  omega

namespace Layer

variable {m : Layer} {next : List Layer}

/-! ### What the parts leave alone -/

theorem keyStart_eq (m : Layer) (b : Bool) (p : Int) : ∃ k, m.keyStart b p = { m with szKeyStart := k } := by
  unfold keyStart
  split_ifs
  · exact ⟨_, rfl⟩
  · exact ⟨m.szKeyStart, rfl⟩

theorem cmdInfo_eq (m : Layer) (p : Int) : ∃ c n, m.cmdInfo p = { m with szCmd := c, iCmdLen := n } := by
  unfold cmdInfo
  split_ifs
  · exact ⟨_, _, rfl⟩
  · exact ⟨m.szCmd, m.iCmdLen, rfl⟩

theorem startStr_eq (m : Layer) (b : Bool) (p : Int) : ∃ k, m.startStr b p =
    { m.stepForward 1 with nowState := .str, line.iLen := (m.stepForward 1).iLen, szKeyStart := k } := by
  obtain ⟨k, hk⟩ := keyStart_eq
    { { m with nowState := .str }.stepForward 1 with line.iLen := (m.stepForward 1).iLen } b p
  exact ⟨k, hk⟩

theorem endStr_eq (m : Layer) (p : Int) : ∃ n, m.endStr p = { m with bReadingLine := false, iKeyLen := n } := by
  unfold endStr
  dsimp only
  split
  · split_ifs
    · exact ⟨_, rfl⟩
    · exact ⟨m.iKeyLen, rfl⟩
  · exact ⟨m.iKeyLen, rfl⟩

theorem lineDone_eq (rd : Int → UInt8) (m : Layer) : ∃ k b, m.lineDone rd =
    { m with
      iNowLine := m.iNowLine + 1
      iKeyInLines := k
      bKeyLine := b
      iNeedArgNum := int32 (m.iNeedArgNum - 1) } := by
  unfold lineDone
  dsimp only
  split_ifs
  all_goals exact ⟨_, _, rfl⟩

/-- What a byte that is refused does to the parser, at most. -/
structure Near (m m' : Layer) : Prop where
  nowPos : m'.szNowPos = m.szNowPos ∨ m'.szNowPos = m.szNowPos + 1
  szStart : m'.szStart = m.szStart
  szEnd : m'.szEnd = m.szEnd
  maxLen : m'.iMaxLen = m.iMaxLen
  argLen : m'.iArgLen = m.iArgLen

/-! ### The transitions -/

/-- The transitions of the `switch` of `ReadLine`, one constructor for each. -/
inductive ReadsByte (b : Bool) (p : Int) (ch : UInt8) (m : Layer) : LineRet → Layer → Prop
  | str (hs : m.nowState = .readingLine) (hc : ch = Byte.plus ∨ ch = Byte.sub ∨ ch = Byte.colon) :
      ReadsByte b p ch m .more (m.startStr b p)
  | usd (hs : m.nowState = .readingLine) (hc : ch = Byte.usd) :
      ReadsByte b p ch m .more ({ m with nowState := .usdNum, iArgLen := 0 }.stepForward 1)
  | strChar (hs : m.nowState = .str) (hc : ch ≠ Byte.cr) : ReadsByte b p ch m .more (m.stepForward 1)
  | strCr (hs : m.nowState = .str) (hc : ch = Byte.cr) :
      ReadsByte b p ch m .more { m.stepForward 1 with nowState := .strCrlf }
  | lineEnd (hs : m.nowState = .strCrlf) (hc : ch = Byte.lf) :
      ReadsByte b p ch m .lineEnd
        (({ m with line := ⟨m.szNowPos - int32 (m.iLen - m.line.iLen - 1) - 1, int32 (m.iLen - m.line.iLen - 1)⟩
          }.stepForward 1).endStr p)
  | digit (hs : m.nowState = .usdNum) (hc : Byte.isDigit ch = true) :
      ReadsByte b p ch m .more { m.stepForward 1 with iArgLen := int32 (m.iArgLen * 10 + Byte.digit ch) }
  | usdCr (hs : m.nowState = .usdNum) (hc : ch = Byte.cr) :
      ReadsByte b p ch m .more
        { m.stepForward 1 with nowState := .usdNumCrlf, iMaxLen := max m.iMaxLen m.iArgLen }
  | usdSub (hs : m.nowState = .usdNum) (hc : ch = Byte.sub) (ha : m.iArgLen = 0) :
      ReadsByte b p ch m .more { m.stepForward 1 with nowState := .usdEmpty }
  | usdLf (hs : m.nowState = .usdNumCrlf) (hc : ch = Byte.lf) :
      ReadsByte b p ch m .bulk
        { m.stepForward 1 with line.iLen := (m.stepForward 1).iLen, nowState := .usdStr }
  | skip (hs : m.nowState = .usdNumCrlf) (hc : ch ≠ Byte.lf) : ReadsByte b p ch m .stop (m.stepForward 1)
  | bulkCr (hs : m.nowState = .usdStr) (ha : m.iArgLen = 0) (hc : ch = Byte.cr) :
      ReadsByte b p ch m .more
        { ((m.keyStart b p).cmdInfo p).stepForward 1 with nowState := .strCrlf }
  | bulkChar (hs : m.nowState = .usdStr) (ha : m.iArgLen ≠ 0) :
      ReadsByte b p ch m .more
        { ((m.keyStart b p).cmdInfo p).stepForward 1 with iArgLen := int32 (m.iArgLen - 1) }
  | zeroCr (hs : m.nowState = .usdZero) (hc : ch = Byte.cr) :
      ReadsByte b p ch m .more { m.stepForward 1 with nowState := .strCrlf }
  | emptyOne (hs : m.nowState = .usdEmpty) (hc : ch = Byte.one) :
      ReadsByte b p ch m .more
        { m.stepForward 1 with line.iLen := (m.stepForward 1).iLen, nowState := .usdEmptyOne }
  | emptyCr (hs : m.nowState = .usdEmptyOne) (hc : ch = Byte.cr) :
      ReadsByte b p ch m .more { m.stepForward 1 with nowState := .strCrlf }
  | fail {m' : Layer} (hm : Near m m') : ReadsByte b p ch m .fail m'

@[simp] theorem keyStart_iArgLen (m : Layer) (b : Bool) (p : Int) : (m.keyStart b p).iArgLen = m.iArgLen := by
  unfold keyStart; split <;> rfl

@[simp] theorem cmdInfo_iArgLen (m : Layer) (p : Int) : (m.cmdInfo p).iArgLen = m.iArgLen := by
  unfold cmdInfo; split <;> rfl

@[simp] theorem stepForward_iArgLen (m : Layer) (n : Int) : (m.stepForward n).iArgLen = m.iArgLen := rfl

theorem readSwitch_reads (m : Layer) (b : Bool) (p : Int) (ch : UInt8) :
    ReadsByte b p ch m (m.readSwitch b p ch).1 (m.readSwitch b p ch).2 := by
  unfold readSwitch
  split
  · rename_i hs
    split_ifs with h1 h2
    · exact .str hs h1
    · exact .usd hs h2
    · exact .fail ⟨.inl rfl, rfl, rfl, rfl, rfl⟩
  · rename_i hs
    split_ifs with h1
    · exact .strCr hs h1
    · exact .strChar hs h1
  · rename_i hs
    split_ifs with h1
    · exact .lineEnd hs h1
    · exact .fail ⟨.inr rfl, rfl, rfl, rfl, rfl⟩
  · rename_i hs
    dsimp only
    split_ifs with h1 h2 h3 h4
    · exact .digit hs h1
    · exact .usdCr hs h2
    · exact .fail ⟨.inr rfl, rfl, rfl, rfl, rfl⟩
    · exact .usdSub hs h3 (not_not.mp h4)
    · exact .fail ⟨.inr rfl, rfl, rfl, rfl, rfl⟩
  · rename_i hs
    split_ifs with h1
    · exact .usdLf hs h1
    · exact .skip hs h1
  · rename_i hs
    dsimp only
    split_ifs with h1 h2
    · exact .bulkCr hs (by simpa using h1) h2
    · obtain ⟨k, hk⟩ := keyStart_eq m b p
      obtain ⟨c, n, hc⟩ := cmdInfo_eq (m.keyStart b p) p
      rw [hc, hk]
      exact .fail ⟨.inr rfl, rfl, rfl, rfl, rfl⟩
    · have h : ReadsByte b p ch m .more _ := .bulkChar hs (by simpa using h1)
      simpa using h
  · rename_i hs
    split_ifs with h1
    · exact .zeroCr hs h1
    · exact .fail ⟨.inr rfl, rfl, rfl, rfl, rfl⟩
  · rename_i hs
    split_ifs with h1
    · exact .emptyOne hs h1
    · exact .fail ⟨.inr rfl, rfl, rfl, rfl, rfl⟩
  · rename_i hs
    split_ifs with h1
    · exact .emptyCr hs h1
    · exact .fail ⟨.inr rfl, rfl, rfl, rfl, rfl⟩
  · exact .fail ⟨.inl rfl, rfl, rfl, rfl, rfl⟩

/-- The transitions of the `switch` of `ParseRsp`, one constructor for each. -/
inductive ParsesByte (p : Int) (ch : UInt8) (m : Layer) : Option ParseRet → Layer → Prop
  | str (hs : m.nowState = .start) (hc : ch = Byte.plus ∨ ch = Byte.colon ∨ ch = Byte.pingB) :
      ParsesByte p ch m none
        { m with iNeedArgNum := 1, szStart := p, nowState := .str, bReadingLine := true }
  | err (hs : m.nowState = .start) (hc : ch = Byte.sub) :
      ParsesByte p ch m none
        { m with iNeedArgNum := 1, szStart := p, nowState := .str, bReadingLine := true, iErrFlag := true }
  | usd (hs : m.nowState = .start) (hc : ch = Byte.usd) :
      ParsesByte p ch m none
        { m with iNeedArgNum := 1, szStart := p, nowState := .usdNum, iArgLen := 0, bReadingLine := true }
  | star (hs : m.nowState = .start) (hc : ch = Byte.star) :
      ParsesByte p ch m none
        { m with iNeedArgNum := 0, szStart := p, nowState := .narg, bReadingLine := false }
  | null (hs : m.nowState = .start) (hc : ch = 0) :
      ParsesByte p ch m (some .startNull)
        { m with iNeedArgNum := 1, szStart := p, bReadingLine := false, iLen := 0 }
  | digit (hs : m.nowState = .narg) (hc : Byte.isDigit ch = true)
      (hz : int32 (m.iNeedArgNum * 10 + Byte.digit ch) ≠ 0) :
      ParsesByte p ch m none { m with iNeedArgNum := int32 (m.iNeedArgNum * 10 + Byte.digit ch) }
  | digitZero (hs : m.nowState = .narg) (hc : Byte.isDigit ch = true)
      (hz : int32 (m.iNeedArgNum * 10 + Byte.digit ch) = 0) :
      ParsesByte p ch m none
        { m with iNeedArgNum := int32 (m.iNeedArgNum * 10 + Byte.digit ch), nowState := .nargZero }
  | nargCr (hs : m.nowState = .narg) (hc : ch = Byte.cr) : ParsesByte p ch m none { m with nowState := .nargCrlf }
  | nargSub (hs : m.nowState = .narg) (hc : ch = Byte.sub) :
      ParsesByte p ch m none { m with nowState := .nargNagOne }
  | zeroCr (hs : m.nowState = .nargZero) (hc : ch = Byte.cr) :
      ParsesByte p ch m none { m with nowState := .nargCrlf }
  | nagOne (hs : m.nowState = .nargNagOne) (hc : ch = Byte.one) :
      ParsesByte p ch m none { m with nowState := .nargZero }
  | empty (hs : m.nowState = .nargCrlf) (hc : ch = Byte.lf) (hn : m.iNeedArgNum = 0) :
      ParsesByte p ch m (some .ok) { m with nowState := .msgEnd }
  | body (hs : m.nowState = .nargCrlf) (hc : ch = Byte.lf) (hn : m.iNeedArgNum ≠ 0) :
      ParsesByte p ch m none { m with nowState := .readingLine, bReadingLine := true }
  | other (hs : inLine m.nowState = true ∨ m.nowState = .msgEnd) : ParsesByte p ch m none m
  | fail {m' : Layer} (hp : m'.szNowPos = m.szNowPos) (hs : m'.szStart = m.szStart ∨ m'.szStart = p)
      (he : m'.szEnd = m.szEnd) (hx : m'.iMaxLen = m.iMaxLen) (ha : m'.iArgLen = m.iArgLen) :
      ParsesByte p ch m (some .error) m'

theorem parseSwitch_parses (m : Layer) (p : Int) (ch : UInt8) :
    ParsesByte p ch m (m.parseSwitch p ch).1 (m.parseSwitch p ch).2 := by
  unfold parseSwitch
  split
  · rename_i hs
    split_ifs with h1 h2 h3 h4 h5
    · exact .str hs h1
    · exact .err hs h2
    · exact .usd hs h3
    · exact .star hs h4
    · exact .null hs h5
    · exact .fail rfl (.inr rfl) rfl rfl rfl
  · rename_i hs
    dsimp only
    split_ifs with h1 h2 h3 h4
    · exact .digitZero hs h1 h2
    · exact .digit hs h1 h2
    · exact .nargCr hs h3
    · exact .nargSub hs h4
    · exact .fail rfl (.inl rfl) rfl rfl rfl
  · rename_i hs
    split_ifs with h1
    · exact .zeroCr hs h1
    · exact .fail rfl (.inl rfl) rfl rfl rfl
  · rename_i hs
    split_ifs with h1
    · exact .nagOne hs h1
    · exact .fail rfl (.inl rfl) rfl rfl rfl
  · rename_i hs
    split_ifs with h1 h2
    · exact .empty hs h1 h2
    · exact .body hs h1 h2
    · exact .fail rfl (.inl rfl) rfl rfl rfl
  · rename_i h1 h2 h3 h4 h5
    refine .other ?_
    cases hs : m.nowState <;> simp_all [inLine]

/-- What a byte of a line does to the place and the length, whatever else it does. -/
structure Moved (m m' : Layer) : Prop where
  nowPos : m'.szNowPos = m.szNowPos + 1
  iLen : m'.iLen = int32 (m.iLen + 1)
  szStart : m'.szStart = m.szStart
  szEnd : m'.szEnd = m.szEnd
  keyLine : m'.bKeyLine = m.bKeyLine

section ReadsByte

variable {b : Bool} {p : Int} {ch : UInt8} {m m' : Layer} {ret : LineRet}

theorem ReadsByte.moved (h : ReadsByte b p ch m ret m') (hret : ret ≠ .fail) : Moved m m' := by
  cases h with
  | str =>
    rw [(startStr_eq m b p).choose_spec]
    exact ⟨rfl, rfl, rfl, rfl, rfl⟩
  | lineEnd =>
    rw [(endStr_eq _ p).choose_spec]
    exact ⟨rfl, rfl, rfl, rfl, rfl⟩
  | bulkCr | bulkChar =>
    obtain ⟨k, hk⟩ := keyStart_eq m b p
    obtain ⟨c, n, hc⟩ := cmdInfo_eq (m.keyStart b p) p
    rw [hc, hk]
    exact ⟨rfl, rfl, rfl, rfl, rfl⟩
  | fail => exact absurd rfl hret
  | _ => exact ⟨rfl, rfl, rfl, rfl, rfl⟩

theorem ReadsByte.inLine (h : ReadsByte b p ch m ret m') (hret : ret ≠ .fail) (hend : ret ≠ .lineEnd) :
    m'.bReadingLine = m.bReadingLine ∧ Layer.inLine m'.nowState = true ∧ m'.nowState ≠ .inNextLayer := by
  cases h with
  | str =>
    rw [(startStr_eq m b p).choose_spec]
    exact ⟨rfl, rfl, nofun⟩
  | bulkCr | bulkChar =>
    obtain ⟨k, hk⟩ := keyStart_eq m b p
    obtain ⟨c, n, hc⟩ := cmdInfo_eq (m.keyStart b p) p
    simp_all [stepForward, Layer.inLine]
  | lineEnd => exact absurd rfl hend
  | fail => exact absurd rfl hret
  | _ => simp_all [stepForward, Layer.inLine]

theorem ReadsByte.argLen (h : ReadsByte b p ch m ret m') (hret : ret ≠ .fail) (ha : 0 ≤ m.iArgLen)
    (hmax : m.iArgLen < 2 ^ 31)
    (hf : m.nowState = .usdNum → Byte.isDigit ch = true → m.iArgLen * 10 + Byte.digit ch < 2 ^ 31) :
    0 ≤ m'.iArgLen ∧ m'.iArgLen < 2 ^ 31 := by
  cases h with
  | str =>
    rw [(startStr_eq m b p).choose_spec]
    exact ⟨ha, hmax⟩
  | lineEnd =>
    rw [(endStr_eq _ p).choose_spec]
    exact ⟨ha, hmax⟩
  | digit hs hc =>
    have hd := Byte.digit_nonneg hc
    have := hf hs hc
    dsimp only
    rw [int32_eq (by omega) (by omega)]
    omega
  | bulkCr => simpa using ⟨ha, hmax⟩
  | bulkChar =>
    dsimp only
    rw [int32_eq (by omega) (by omega)]
    omega
  | fail => exact absurd rfl hret
  | usd => exact ⟨le_refl _, by simp⟩
  | _ => exact ⟨ha, hmax⟩

end ReadsByte

/-! ### One byte -/

/-- The rounds that a chain of parsers needs without data. -/
def need (m : Layer) : List Layer → Nat
  | [] => if m.bReadingLine then 2 else 1
  | l :: next => if m.bReadingLine then (if m.nowState = .inNextLayer then l.need next + 1 else 2) else 1

/-- What a byte does to the place and the length of a chain of parsers. -/
structure Stepped (m : Layer) (next : List Layer) (m' : Layer) (next' : List Layer) : Prop where
  nowPos : (m'.active next').szNowPos = (m.active next).szNowPos + 1
  size : m'.size next' = m.size next + 1
  szEnd : m'.szEnd = m.szEnd
  szStart : m'.szStart = if m.nowState = .start then m.szNowPos else m.szStart
  begun : m'.nowState ≠ .start
  mono : m.szNowPos ≤ m'.szNowPos

/-- A parser at the end of a message. -/
structure AtEnd (m : Layer) : Prop where
  state : m.nowState = .msgEnd
  need : m.iNeedArgNum = 0
  argLen : 0 ≤ m.iArgLen
  argMax : m.iArgLen < 2 ^ 31

/-- The chain is ready for the next byte. -/
structure Continues (m : Layer) (next : List Layer) (m' : Layer) (next' : List Layer) : Prop
    extends Stepped m next m' next' where
  ready : m'.Ready next'
  need : m'.need next' ≤ m.need next + 1

theorem active_of_ne (h : m.nowState ≠ .inNextLayer) : m.active next = m := by
  cases next with
  | nil => rfl
  | cons l next => exact if_neg h

theorem size_of_ne (h : m.nowState ≠ .inNextLayer) : m.size next = m.iLen := by
  cases next with
  | nil => rfl
  | cons l next => exact if_neg h

theorem ready_of_ne (hs : m.Sane) (h : m.nowState ≠ .inNextLayer) : m.Ready next := by
  cases next with
  | nil => exact ⟨hs, h⟩
  | cons l next => exact ⟨hs, fun hn => absurd hn h⟩

theorem Ready.sane (h : m.Ready next) : m.Sane := by
  cases next with
  | nil => exact h.1
  | cons l next => exact h.1

theorem size_nonneg (m : Layer) (h : m.Ready next) : 0 ≤ m.size next := by
  induction next generalizing m with
  | nil => exact h.1.len
  | cons l next ih =>
    unfold size
    have := h.1.len
    split_ifs with hn
    · have := ih l (h.2 hn).2
      omega
    · omega

theorem need_of_ne (h : m.nowState ≠ .inNextLayer) : m.need next = if m.bReadingLine then 2 else 1 := by
  cases next with
  | nil => rfl
  | cons l next => simp only [need, if_neg h]

theorem one_le_need (m : Layer) (next : List Layer) : 1 ≤ m.need next := by
  cases next with
  | nil => unfold need; split_ifs <;> omega
  | cons l next => unfold need; split_ifs <;> omega

/-- What `ParseRsp` does after a line, one constructor for each case. -/
inductive EndsLine (rd : Int → UInt8) (pr : Option MsgResults) (m : Layer) :
    Option ParseRet → Option MsgResults → Layer → Prop
  | poor (hr : m.addResult pr = none) : EndsLine rd pr m (some .error) (poorResult pr) m
  | again {pr' : Option MsgResults} (hr : m.addResult pr = some pr') (hn : (m.lineDone rd).iNeedArgNum ≠ 0) :
      EndsLine rd pr m none pr' { m.lineDone rd with nowState := .readingLine, bReadingLine := true }
  | done {pr' : Option MsgResults} (hr : m.addResult pr = some pr') (hn : (m.lineDone rd).iNeedArgNum = 0) :
      EndsLine rd pr m (some .ok) pr' { m.lineDone rd with nowState := .msgEnd }

theorem endLine_ends {rd : Int → UInt8} {pr pr' : Option MsgResults} {m' : Layer} {next' : List Layer}
    {o : Option ParseRet} (h : m.endLine rd pr next = (o, pr', m', next')) :
    next' = next ∧ EndsLine rd pr m o pr' m' := by
  unfold endLine at h
  split at h
  · rename_i hr
    cases h
    exact ⟨rfl, .poor hr⟩
  · rename_i hr
    dsimp only at h
    split_ifs at h with hn
    · cases h
      exact ⟨rfl, .done hr hn⟩
    · cases h
      exact ⟨rfl, .again hr hn⟩

section Byte

variable {rd : Int → UInt8} {ch : UInt8} {pr pr' : Option MsgResults} {m m' : Layer} {next next' : List Layer}
  {o : Option ParseRet}

/-- The byte after which the parser `m` has read a line, when the parser was `m₀` before it. -/
theorem EndsLine.continues {m₀ : Layer} {next₀ : List Layer} (h : EndsLine rd pr m o pr' m')
    (hp : m.szNowPos = (m₀.active next₀).szNowPos + 1) (hz : m.iLen = m₀.size next₀ + 1)
    (hle : m₀.szNowPos ≤ m.szNowPos) (he : m.szEnd = m₀.szEnd) (hs : m.szStart = m₀.szStart) (hb : m₀.nowState ≠ .start) (ha : 0 ≤ m.iArgLen)
    (hmax : m.iArgLen < 2 ^ 31) (hl : 0 ≤ m.iLen) : (o = none → Continues m₀ next₀ m' next) ∧
      (o = some .ok → Stepped m₀ next₀ m' next ∧ m'.AtEnd) := by
  obtain ⟨k, b, hk⟩ := lineDone_eq rd m
  cases h with
  | poor => exact ⟨nofun, nofun⟩
  | again =>
    rw [hk]
    refine ⟨fun _ => ⟨⟨(congrArg szNowPos (active_of_ne (by simp))).trans hp, (size_of_ne (by simp)).trans hz, he,
      by rw [if_neg hb]; exact hs, nofun, hle⟩, ready_of_ne ⟨rfl, nofun, ha, hmax, hl⟩ nofun, ?_⟩, nofun⟩
    have := one_le_need m₀ next₀
    rw [need_of_ne (by simp)]
    simp only [if_true]
    omega
  | done hr hn =>
    rw [hk] at hn ⊢
    exact ⟨nofun, fun _ => ⟨⟨(congrArg szNowPos (active_of_ne (by simp))).trans hp,
      (size_of_ne (by simp)).trans hz, he, by rw [if_neg hb]; exact hs, nofun, hle⟩, rfl, hn, ha,
      hmax⟩⟩

theorem begun_of_reading (hs : m.Sane) (hr : m.bReadingLine = true) : m.nowState ≠ .start := by
  intro h
  rw [hs.reading, h] at hr
  cases hr

/-- The parser goes on without a nested array. -/
theorem Continues.of_ne (hs : m'.Sane) (hm : m.nowState ≠ .inNextLayer) (hne : m'.nowState ≠ .inNextLayer)
    (hb : m'.nowState ≠ .start) (hp : m'.szNowPos = m.szNowPos + 1) (hz : m'.iLen = m.iLen + 1)
    (he : m'.szEnd = m.szEnd) (hst : m'.szStart = if m.nowState = .start then m.szNowPos else m.szStart) :
    Continues m next m' next' where
  nowPos := by rw [active_of_ne hm, active_of_ne hne, hp]
  size := by rw [size_of_ne hm, size_of_ne hne, hz]
  szEnd := he
  szStart := hst
  begun := hb
  mono := by omega
  ready := ready_of_ne hs hne
  need := by
    have := one_le_need m next
    rw [need_of_ne hne]
    split_ifs <;> omega

theorem continues_star (hs : m.Sane) (hst : m.nowState = .readingLine) :
    Continues m next { m with nowState := .inNextLayer, line.szStart := m.szNowPos }
      [{ init m.szNowPos with szEnd := m.szEnd, szNowPos := m.szNowPos + 1, iLen := 1, nowState := .narg }] := by
  have hne : m.nowState ≠ .inNextLayer := by rw [hst]; simp
  have hr : m.bReadingLine = true := by rw [hs.reading, hst]; rfl
  constructor
  · exact ⟨by rw [active_of_ne hne]; rfl, by rw [size_of_ne hne]; rfl, rfl, by rw [if_neg (by rw [hst]; simp)],
      nofun, le_refl _⟩
  · exact ⟨⟨hr, nofun, hs.argLen, hs.argMax, hs.len⟩, fun _ =>
      ⟨⟨rfl, rfl, rfl, nofun⟩, ⟨rfl, nofun, le_refl _, by simp [init, MsgInfo.zero], by simp⟩, nofun⟩⟩
  · rw [need_of_ne hne]
    simp [need, init, hr]

theorem ParsesByte.continues (hs : m.Sane) (hr : m.bReadingLine = false)
    (hlen : int32 (m.iLen + 1) = m.iLen + 1) (h : ParsesByte m.szNowPos ch (m.stepForward 1) o m') :
    (o = none → Continues m next m' next) ∧ (o = some .ok → Stepped m next m' next ∧ m'.AtEnd) := by
  have hin : inLine m.nowState = false := by rw [← hs.reading, hr]
  have hne : m.nowState ≠ .inNextLayer := by
    intro hn
    rw [hn] at hin
    cases hin
  have hl : 0 ≤ int32 (m.iLen + 1) := by have := hs.len; omega
  cases h with
  | str h1 | err h1 | star h1 =>
    exact ⟨fun _ => .of_ne ⟨rfl, nofun, hs.argLen, hs.argMax, hl⟩ hne nofun nofun rfl hlen rfl
      (if_pos h1).symm, nofun⟩
  | usd h1 =>
    exact ⟨fun _ => .of_ne ⟨rfl, nofun, le_refl _, by simp, hl⟩ hne nofun nofun rfl hlen rfl
      (if_pos h1).symm, nofun⟩
  | digit h1 =>
    replace h1 : m.nowState = .narg := h1
    exact ⟨fun _ => .of_ne ⟨hs.reading, hs.notEnd, hs.argLen, hs.argMax, hl⟩ hne hne (by simp [stepForward, h1])
      rfl hlen rfl (by rw [if_neg (by rw [h1]; simp)]; rfl), nofun⟩
  | digitZero h1 | nargCr h1 | nargSub h1 | zeroCr h1 | nagOne h1 =>
    replace h1 : m.nowState = _ := h1
    exact ⟨fun _ => .of_ne ⟨hr, nofun, hs.argLen, hs.argMax, hl⟩ hne nofun nofun rfl hlen rfl
      (by rw [if_neg (by rw [h1]; simp)]; rfl), nofun⟩
  | body h1 =>
    replace h1 : m.nowState = _ := h1
    exact ⟨fun _ => .of_ne ⟨rfl, nofun, hs.argLen, hs.argMax, hl⟩ hne nofun nofun rfl hlen rfl
      (by rw [if_neg (by rw [h1]; simp)]; rfl), nofun⟩
  | empty h1 hc hn =>
    replace h1 : m.nowState = _ := h1
    refine ⟨nofun, fun _ => ⟨⟨?_, ?_, rfl, by rw [if_neg (by rw [h1]; simp)]; rfl, nofun, ?_⟩, rfl, hn, hs.argLen,
      hs.argMax⟩⟩
    · rw [active_of_ne hne, active_of_ne (by simp)]; rfl
    · rw [size_of_ne hne, size_of_ne (by simp)]; exact hlen
    · simp [stepForward]
  | null | fail => exact ⟨nofun, nofun⟩
  | other h1 =>
    rcases h1 with h1 | h1
    · exact absurd (hin.symm.trans h1) nofun
    · exact absurd h1 hs.notEnd

/-- A byte of a line: the line goes on, or it ends. -/
theorem ReadsByte.continues {ret : LineRet} (hs : m.Sane) (hne : m.nowState ≠ .inNextLayer)
    (hr : m.bReadingLine = true) (hlen : int32 (m.iLen + 1) = m.iLen + 1)
    (hfa : m.nowState = .usdNum → Byte.isDigit ch = true → m.iArgLen * 10 + Byte.digit ch < 2 ^ 31)
    (h : ReadsByte m.bKeyLine m.szNowPos ch m ret m') (hret : ret ≠ .fail) (hend : ret ≠ .lineEnd) :
    Continues m next m' next := by
  obtain ⟨h1, h2, h3⟩ := h.inLine hret hend
  obtain ⟨ha, hmax⟩ := h.argLen hret hs.argLen hs.argMax hfa
  have hm := h.moved hret
  have hl := hs.len
  have hb : m.nowState ≠ .start := begun_of_reading hs hr
  refine .of_ne ⟨by rw [h1, h2, hr], ?_, ha, hmax, ?_⟩ hne h3 ?_ hm.nowPos (by rw [hm.iLen, hlen]) hm.szEnd
    (by rw [if_neg hb]; exact hm.szStart)
  · intro hn; rw [hn] at h2; cases h2
  · rw [hm.iLen]; omega
  · intro hn; rw [hn] at h2; cases h2

/-- A byte of a parser that reads no nested array. -/
theorem layerByte_here {sub : Option ParseRet × Layer × List Layer} (hs : m.Sane)
    (hne : m.nowState ≠ .inNextLayer) (hf : Fits ch m next)
    (h : m.layerByte rd ch pr next sub = (o, pr', m', next')) :
    (o = none → Continues m next m' next') ∧ (o = some .ok → Stepped m next m' next' ∧ m'.AtEnd) := by
  obtain ⟨hfl, hfa, hfn⟩ := hf
  rw [size_of_ne hne] at hfl
  rw [active_of_ne hne] at hfa hfn
  have hlen : int32 (m.iLen + 1) = m.iLen + 1 := int32_eq (by have := hs.len; omega) (by omega)
  unfold layerByte at h
  split_ifs at h with hr
  · unfold lineByte at h
    rw [if_neg hne] at h
    split_ifs at h with hstar
    · rw [hstar.2] at h
      cases h
      exact ⟨fun _ => continues_star hs hstar.1, nofun⟩
    · have hrb := readSwitch_reads m m.bKeyLine m.szNowPos ch
      rcases hsw : m.readSwitch m.bKeyLine m.szNowPos ch with ⟨ret, m1⟩
      rw [hsw] at h hrb
      cases ret with
      | more | bulk | stop =>
        cases h
        exact ⟨fun _ => hrb.continues hs hne hr hlen hfa nofun nofun, nofun⟩
      | lineEnd =>
        have hm := hrb.moved nofun
        obtain ⟨ha, hmax⟩ := hrb.argLen nofun hs.argLen hs.argMax hfa
        obtain ⟨hnext, hE⟩ := endLine_ends h
        exact hE.continues (by rw [active_of_ne hne, hm.nowPos]) (by rw [size_of_ne hne, hm.iLen, hlen])
          (by rw [hm.nowPos]; omega) hm.szEnd hm.szStart (begun_of_reading hs hr) ha hmax (by have := hs.len; rw [hm.iLen]; omega)
      | fail =>
        cases h
        exact ⟨nofun, nofun⟩
  · cases h
    exact (parseSwitch_parses _ _ _).continues hs (by simpa using hr) hlen

/-- A byte of a chain of parsers. -/
theorem byte_continues (hr : m.Ready next) (hf : Fits ch m next)
    (h : m.byte rd ch pr next = (o, pr', m', next')) :
    (o = none → Continues m next m' next') ∧ (o = some .ok → Stepped m next m' next' ∧ m'.AtEnd) := by
  induction next generalizing m pr o pr' m' next' with
  | nil => exact layerByte_here hr.1 hr.2 hf h
  | cons l next ih =>
    by_cases hn : m.nowState = .inNextLayer
    · obtain ⟨hs, hr⟩ := hr
      obtain ⟨hnest, hr⟩ := hr hn
      have hread : m.bReadingLine = true := by rw [hs.reading, hn]; rfl
      have ha : m.active (l :: next) = l.active next := if_pos hn
      have hz : m.size (l :: next) = m.iLen + l.size next := if_pos hn
      have hl := hs.len
      have hfl : Fits ch l next := by
        obtain ⟨h1, h2⟩ := hf
        rw [ha] at h2
        exact ⟨by rw [hz] at h1; omega, h2⟩
      rcases hb : l.byte rd ch none next with ⟨o1, pr1, l1, next1⟩
      obtain ⟨ih1, ih2⟩ := ih hr hfl hb
      unfold byte layerByte lineByte at h
      simp only [hb, if_pos hread, if_pos hn] at h
      rcases o1 with _ | iRet
      · cases h
        refine ⟨fun _ => ?_, nofun⟩
        have hc := ih1 rfl
        have hnest' : Nested m l1 next1 := by
          have hst : l1.szStart = l.szStart := by rw [hc.szStart, if_neg hnest.begun]
          refine ⟨hst.trans hnest.start, hc.szEnd.trans hnest.szEnd, ?_, hc.begun⟩
          rw [hc.nowPos, hc.size, hst, hnest.nowPos, add_assoc]
        refine ⟨⟨?_, ?_, rfl, by rw [if_neg (by rw [hn]; simp)], by simp [hn], le_refl _⟩, ⟨hs, fun _ => ⟨hnest', hc.ready⟩⟩, ?_⟩
        · rw [ha, ← hc.nowPos]; exact congrArg szNowPos (if_pos hn)
        · rw [hz, add_assoc, ← hc.size]; exact if_pos hn
        · have := hc.need
          simp only [Layer.need, if_pos hread, if_pos hn]
          omega
      · cases iRet with
        | ok =>
          obtain ⟨hst, hend⟩ := ih2 rfl
          have hne1 : l1.nowState ≠ .inNextLayer := by rw [hend.state]; simp
          have hlen1 : l1.iLen = l.size next + 1 := by rw [← hst.size, size_of_ne hne1]
          have hstart := hnest.nowPos
          rw [hnest.start] at hstart
          obtain ⟨hnext, hE⟩ := endLine_ends h
          have hlen : int32 (m.iLen + l1.iLen) = m.iLen + l1.iLen := by
            have h1 := hf.1
            have h2 := l.size_nonneg hr
            exact int32_eq (by omega) (by omega)
          exact hE.continues (by rw [ha]; simp only [nextLayerDone]; omega)
            (by rw [hz]; simp only [nextLayerDone, hlen]; omega)
            (by have := l.size_nonneg hr; simp only [nextLayerDone]; omega) rfl rfl (by rw [hn]; simp) hs.argLen hs.argMax
            (by have := l.size_nonneg hr; simp only [nextLayerDone, hlen]; omega)
        | error | startNull => 
          cases h
          exact ⟨nofun, nofun⟩
    · exact layerByte_here hr.1 hn hf h

end Byte

end Layer

end RedisProxy
