import RedisProxy.Proofs.RespScanProofs
import RedisProxy.ParserDriver

/-!
# A call of `ParseRsp` follows the reader

`Tracks` relates a parser in the middle of a message to the reader: what it has read, where the message
starts, how long it is and the largest length in it. A byte keeps this (`Tracks.byte`), so a call of
`ParseRsp` does (`RedisMsg.parseRsp_steps`).
-/

namespace RedisProxy

open Lib

namespace Layer

section

variable {rd : Int → UInt8} {ch : UInt8} {pr pr' : Option MsgResults} {m m' : Layer} {next next' : List Layer}
  {o : Option ParseRet} {c d : Scan} {sub : Option ParseRet × Layer × List Layer}

/-- What a byte leaves of the parser when it is refused, or when it is a null byte before a message. -/
structure Refused (m : Layer) (next : List Layer) (m' : Layer) : Prop where
  nowPos : m.szNowPos ≤ m'.szNowPos
  cursor : m'.szNowPos ≤ m.cursor next + 1
  szEnd : m'.szEnd = m.szEnd
  szStart : m.szStart ≤ m.szNowPos → m'.szStart ≤ m'.szNowPos
  maxLen : m'.iMaxLen = m.iMaxLen
  argLen : m'.iArgLen = m.iArgLen

theorem refused_self (hr : m.Ready next) : Refused m next m := by
  have := hr.szNowPos_le
  exact ⟨le_refl _, by omega, rfl, id, rfl, rfl⟩

theorem Near.refused (h : Near m m') (hr : m.Ready next) : Refused m next m' := by
  have h1 := hr.szNowPos_le
  have h2 := h.szStart
  refine ⟨?_, ?_, h.szEnd, fun h3 => ?_, h.maxLen, h.argLen⟩
  · rcases h.nowPos with hp | hp <;> omega
  · rcases h.nowPos with hp | hp <;> omega
  · rcases h.nowPos with hp | hp <;> omega

theorem layerByte_refused (hr : m.Ready next) (hne : m.nowState ≠ .inNextLayer)
    (h : m.layerByte rd ch none next sub = (o, pr', m', next')) (ho : o = some .error ∨ o = some .startNull) :
    Refused m next m' := by
  unfold layerByte at h
  split_ifs at h with hread
  · unfold lineByte at h
    rw [if_neg hne] at h
    split_ifs at h with hstar
    · cases h
      rcases ho with ho | ho <;> cases ho
    · have hrb := readSwitch_reads m m.bKeyLine m.szNowPos ch
      rcases hsw : m.readSwitch m.bKeyLine m.szNowPos ch with ⟨ret, m1⟩
      rw [hsw] at h hrb
      cases ret with
      | more | bulk | stop =>
        cases h
        rcases ho with ho | ho <;> cases ho
      | lineEnd =>
        obtain ⟨-, hE⟩ := endLine_ends h
        cases hE with
        | poor hp => cases hp
        | again | done => rcases ho with ho | ho <;> cases ho
      | fail =>
        cases h
        cases hrb with
        | fail hm => exact hm.refused hr
  · have hp := parseSwitch_parses (m.stepForward 1) m.szNowPos ch
    have hle := hr.szNowPos_le
    cases h
    generalize hq : ((m.stepForward 1).parseSwitch m.szNowPos ch).1 = o at hp ho
    generalize ((m.stepForward 1).parseSwitch m.szNowPos ch).2 = m' at hp
    have h1 : (m.stepForward 1).szNowPos = m.szNowPos + 1 := rfl
    have h2 : (m.stepForward 1).szStart = m.szStart := rfl
    cases hp with
    | fail hp hs he hx ha =>
      exact ⟨by omega, by omega, he, fun h => by rcases hs with hs | hs <;> omega, hx, ha⟩
    | null => exact ⟨by simp [stepForward], by simp [stepForward]; omega, rfl, fun _ => by simp [stepForward], rfl, rfl⟩
    | _ => rcases ho with ho | ho <;> cases ho

theorem byte_refused (hr : m.Ready next) (h : m.byte rd ch none next = (o, pr', m', next'))
    (ho : o = some .error ∨ o = some .startNull) : Refused m next m' := by
  cases next with
  | nil => exact layerByte_refused hr hr.2 h ho
  | cons l next =>
    by_cases hn : m.nowState = .inNextLayer
    · have hread : m.bReadingLine = true := by rw [hr.1.reading, hn]; rfl
      unfold byte layerByte lineByte at h
      simp only [if_pos hread, if_pos hn] at h
      rcases hb : l.byte rd ch none next with ⟨o1, pr1, l1, next1⟩
      rw [hb] at h
      rcases o1 with _ | _ | _ | _
      · cases h
        rcases ho with ho | ho <;> cases ho
      · obtain ⟨-, hE⟩ := endLine_ends h
        cases hE with
        | poor hp => cases hp
        | again | done => rcases ho with ho | ho <;> cases ho
      · cases h
        exact refused_self hr
      · cases h
        exact refused_self hr
    · exact layerByte_refused hr hn h ho

/-- The largest length of the parser's own lines. -/
theorem ReadsByte.maxLen {b : Bool} {p : Int} {ret : LineRet} (h : ReadsByte b p ch m ret m') (hret : ret ≠ .fail) :
    m'.iMaxLen = if m.nowState = .usdNum ∧ ch = Byte.cr then max m.iMaxLen m.iArgLen else m.iMaxLen := by
  cases h with
  | usdCr hs hc => rw [if_pos ⟨hs, hc⟩]
  | str hs =>
    rw [(startStr_eq m b p).choose_spec, if_neg (by rw [hs]; simp)]
    rfl
  | lineEnd hs =>
    rw [(endStr_eq _ p).choose_spec, if_neg (by rw [hs]; simp)]
    rfl
  | digit hs hc =>
    rw [if_neg]
    · rfl
    · rintro ⟨-, rfl⟩; cases hc
  | usdSub hs hc =>
    rw [if_neg]
    · rfl
    · rintro ⟨-, rfl⟩; cases hc
  | bulkCr hs | bulkChar hs =>
    obtain ⟨k, hk⟩ := keyStart_eq m b p
    obtain ⟨c, n, hc⟩ := cmdInfo_eq (m.keyStart b p) p
    rw [hc, hk, if_neg (by rw [hs]; simp)]
    rfl
  | fail => exact absurd rfl hret
  | _ hs => rw [if_neg (by rw [hs]; simp)]; rfl

theorem endLine_maxLen {iRet : Option ParseRet} (h : m.endLine rd none next = (iRet, pr', m', next')) :
    m'.iMaxLen = m.iMaxLen := by
  obtain ⟨k, b, hk⟩ := lineDone_eq rd m
  cases (endLine_ends h).2 with
  | poor => rfl
  | again | done => rw [hk]

theorem layerByte_maxLen (hs : m.Sane) (hne : m.nowState ≠ .inNextLayer)
    (h : m.layerByte rd ch none next sub = (o, pr', m', next')) (ho : o = none ∨ o = some .ok) :
    m'.iMaxLen = if m.nowState = .usdNum ∧ ch = Byte.cr then max m.iMaxLen m.iArgLen else m.iMaxLen := by
  unfold layerByte at h
  split_ifs at h with hread
  · unfold lineByte at h
    rw [if_neg hne] at h
    split_ifs at h with hstar
    · cases h
      rw [if_neg (by rw [hstar.1]; simp)]
    · have hrb := readSwitch_reads m m.bKeyLine m.szNowPos ch
      rcases hsw : m.readSwitch m.bKeyLine m.szNowPos ch with ⟨ret, m1⟩
      rw [hsw] at h hrb
      cases ret with
      | more | bulk | stop =>
        cases h
        exact hrb.maxLen nofun
      | lineEnd => rw [endLine_maxLen h, hrb.maxLen nofun]
      | fail =>
        cases h
        rcases ho with ho | ho <;> cases ho
  · have hp := parseSwitch_parses (m.stepForward 1) m.szNowPos ch
    cases h
    rw [if_neg]
    · generalize ((m.stepForward 1).parseSwitch m.szNowPos ch).1 = o at hp ho
      generalize ((m.stepForward 1).parseSwitch m.szNowPos ch).2 = m' at hp
      cases hp with
      | fail | null => rcases ho with ho | ho <;> cases ho
      | _ => rfl
    · rintro ⟨hst, -⟩
      rw [hs.reading, hst] at hread
      exact hread rfl

theorem byte_maxLen (hr : m.Ready next) (h : m.byte rd ch none next = (o, pr', m', next'))
    (ho : o = none ∨ o = some .ok) :
    m'.iMaxLen = if m.nowState = .usdNum ∧ ch = Byte.cr then max m.iMaxLen m.iArgLen else m.iMaxLen := by
  cases next with
  | nil => exact layerByte_maxLen hr.1 hr.2 h ho
  | cons l next =>
    by_cases hn : m.nowState = .inNextLayer
    · have hread : m.bReadingLine = true := by rw [hr.1.reading, hn]; rfl
      rw [if_neg (by rw [hn]; simp)]
      unfold byte layerByte lineByte at h
      simp only [if_pos hread, if_pos hn] at h
      rcases hb : l.byte rd ch none next with ⟨o1, pr1, l1, next1⟩
      rw [hb] at h
      rcases o1 with _ | _ | _ | _
      · cases h; rfl
      · rw [endLine_maxLen h]; rfl
      · cases h; rfl
      · cases h; rfl
    · exact layerByte_maxLen hr.1 hn h ho

/-- A null byte before a message. -/
theorem byte_null (hr : m.Ready next) (hf : Follows m next c) (h : m.byte rd ch none next = (some .startNull, pr', m', next'))
    (hc : c.state = .start) : next' = next ∧
      m' = { m.stepForward 1 with iNeedArgNum := 1, szStart := m.szNowPos, bReadingLine := false, iLen := 0 } := by
  have hm : m.nowState = .start := by
    by_contra hm
    exact active_begun hr hm (hf.state.trans hc)
  have hread : m.bReadingLine = false := by rw [hr.sane.reading, hm]; rfl
  rw [byte_eq] at h
  unfold layerByte at h
  rw [if_neg (by rw [hread]; simp)] at h
  have hp := parseSwitch_parses (m.stepForward 1) m.szNowPos ch
  simp only [Prod.mk.injEq] at h
  obtain ⟨h1, -, h2, h3⟩ := h
  rw [h1, h2] at hp
  cases hp with
  | null => exact ⟨h3.symm, rfl⟩

end

/-- The parser `m` has read the part of a message after which the reader is in the state `c`, and `x` is the
largest length of its own lines. -/
structure Tracks (m : Layer) (next : List Layer) (c : Scan) (x : Nat) : Prop where
  ready : m.Ready next
  follows : Follows m next c
  located : c.state ≠ .start → m.szStart + m.size next = m.cursor next
  atStart : c.state = .start → m.szStart ≤ m.szNowPos
  maxLen : m.iMaxLen = x

/-- The parser `m` has read a message, and the reader is in the state `d`. -/
structure Ended (m : Layer) (d : Scan) (x : Nat) : Prop where
  atEnd : m.AtEnd
  scan : d.state = .msgEnd
  len : m.iLen = d.len
  located : m.szStart + m.iLen = m.szNowPos
  maxLen : m.iMaxLen = x

section

variable {rd : Int → UInt8} {ch : UInt8} {pr' : Option MsgResults} {m m' : Layer} {next next' : List Layer}
  {o : Option ParseRet} {c d : Scan} {x : Nat}

/-- A parser before a message. -/
theorem tracks_start (hs : m.nowState = .start) (hr : m.bReadingLine = false) (hl : m.iLen = 0)
    (ha : 0 ≤ m.iArgLen) (hmax : m.iArgLen < 2 ^ 31) (hp : m.szStart ≤ m.szNowPos) (hx : m.iMaxLen = x)
    (hc : c.state = .start) (hf : c.Fine) (ho : c.outer = []) : Tracks m next c x := by
  have hne : m.nowState ≠ .inNextLayer := by rw [hs]; simp
  refine ⟨ready_of_ne ⟨by rw [hr, hs]; rfl, by rw [hs]; simp, ha, hmax, by omega⟩ hne,
    ⟨hf, ?_, fun h => absurd hc h, ?_, ?_, ?_⟩, fun h => absurd hc h, fun _ => hp, hx⟩
  · rw [active_of_ne hne, hs, hc]
  · intro hb
    rw [hc] at hb
    cases hb
  · rw [needs_of_ne hne, ho]; rfl
  · rw [size_of_ne hne, hl, hf.start hc]; rfl

theorem Tracks.start_iff (h : Tracks m next c x) : c.state = .start ↔ m.nowState = .start := by
  constructor
  · intro hc
    by_contra hm
    exact active_begun h.ready hm (h.follows.state.trans hc)
  · intro hm
    rw [← h.follows.state, active_of_ne (by rw [hm]; simp), hm]

theorem Tracks.usdNum_iff (h : Tracks m next c x) : c.state = .usdNum ∧ c.outer = [] ↔ m.nowState = .usdNum := by
  have hout := h.follows.outer
  have hst := h.follows.state
  by_cases hn : m.nowState = .inNextLayer
  · cases next with
    | nil => exact absurd hn h.ready.2
    | cons l next =>
      rw [needs, if_pos hn] at hout
      constructor
      · rintro ⟨-, ho⟩
        rw [ho] at hout
        simp at hout
      · intro hm
        rw [hm] at hn
        cases hn
  · rw [active_of_ne hn] at hst
    rw [needs_of_ne hn] at hout
    constructor
    · rintro ⟨hc, -⟩
      rw [hst, hc]
    · intro hm
      exact ⟨by rw [← hst, hm], by simpa using hout.symm⟩

theorem Tracks.nextMax (h : Tracks m next c x) (hb : m.byte rd ch none next = (o, pr', m', next'))
    (ho : o = none ∨ o = some .ok) : m'.iMaxLen = Scan.nextMax ch c x := by
  rw [byte_maxLen h.ready hb ho]
  unfold Scan.nextMax
  have hiff := h.usdNum_iff
  by_cases hm : m.nowState = .usdNum ∧ ch = Byte.cr
  · obtain ⟨h1, h2⟩ := hiff.mpr hm.1
    have ha := h.follows.arg (by rw [h1]; rfl)
    rw [active_of_ne (by rw [hm.1]; simp)] at ha
    rw [if_pos hm, if_pos ⟨h1, h2, hm.2⟩, h.maxLen, ha]
    exact (Nat.cast_max _ _).symm
  · rw [if_neg hm, if_neg, h.maxLen]
    rintro ⟨h1, h2, h3⟩
    exact hm ⟨hiff.mp ⟨h1, h2⟩, h3⟩

theorem endLine_state {n : Nat} {outer : List Nat} (h : (c.endLine n outer).1 = some .ok) :
    (c.endLine n outer).2.state = .msgEnd := by
  unfold Scan.endLine at h ⊢
  split
  · rfl
  · rename_i hc
    rw [hc] at h
    cases h

/-- The reader knows the end of a message. -/
theorem step_ok (h : Scan.step ch c = (some .ok, d)) : d.state = .msgEnd := by
  generalize ho : some ParseRet.ok = o at h
  cases Scan.step_takes h with
  | noBody =>
    unfold Scan.endArray at ho ⊢
    split
    · rfl
    · rename_i n outer hc
      replace hc : c.outer = n :: outer := hc
      simp only [hc] at ho ⊢
      exact endLine_state ho.symm
  | lineEnd => exact endLine_state ho.symm
  | _ => cases ho

theorem endLine_ret (c : Scan) (n : Nat) (outer : List Nat) :
    (c.endLine n outer).1 = none ∨ (c.endLine n outer).1 = some .ok := by
  unfold Scan.endLine
  split
  · exact .inr rfl
  · exact .inl rfl

theorem endArray_ret (c : Scan) : c.endArray.1 = none ∨ c.endArray.1 = some .ok := by
  unfold Scan.endArray
  split
  · exact .inr rfl
  · exact endLine_ret c _ _

/-- Null bytes stand before a message. -/
theorem step_null (h : Scan.step ch c = (some .startNull, d)) : c.state = .start ∧ d = { c with len := 0 } := by
  generalize ho : some ParseRet.startNull = o at h
  cases Scan.step_takes h with
  | null hs => exact ⟨hs, rfl⟩
  | noBody => rcases endArray_ret { c with len := c.len + 1 } with h1 | h1 <;> rw [h1] at ho <;> cases ho
  | lineEnd =>
    rcases endLine_ret { c with len := c.len + 1 } c.need c.outer with h1 | h1 <;> rw [h1] at ho <;> cases ho
  | _ => cases ho

/-- What `k` bytes do to a parser and to the reader. -/
structure Steps (m : Layer) (next : List Layer) (k x' : Nat) (o : Option ParseRet) (m' : Layer)
    (next' : List Layer) (d : Scan) : Prop where
  again : o = none → Tracks m' next' d x' ∧ m'.cursor next' = m.cursor next + k
  null : o = some .startNull → Tracks m' next' d x' ∧ m'.cursor next' = m.cursor next + k
  ended : o = some .ok → Ended m' d x' ∧ m'.szNowPos = m.cursor next + k
  error : o = some .error → m'.szNowPos ≤ m.cursor next + k ∧ m'.szStart ≤ m'.szNowPos ∧ 0 ≤ m'.iMaxLen ∧
    m'.iMaxLen ≤ x' ∧ 0 ≤ m'.iArgLen ∧ m'.iArgLen < 2 ^ 31
  szEnd : m'.szEnd = m.szEnd
  mono : m.szNowPos ≤ m'.szNowPos

theorem Tracks.fits (h : Tracks m next c x) (hfit : Scan.Fit ch c) : Fits ch m next := by
  obtain ⟨h1, h2, h3⟩ := hfit
  have hl := h.follows.len
  refine ⟨by rw [hl]; omega, fun hs hd => ?_, fun hs hd => ?_⟩
  · have hc := h.follows.state.symm.trans hs
    rw [h.follows.arg (by rw [hc]; rfl), Byte.digit_eq hd]
    have := h2 hc hd
    omega
  · have hc := h.follows.state.symm.trans hs
    rw [h.follows.need (by rw [hc]; simp), Byte.digit_eq hd]
    have := h3 hc hd
    omega

theorem Tracks.szStart_step (h : Tracks m next c x) (hst : Stepped m next m' next') :
    m'.szStart + m'.size next' = m'.cursor next' := by
  have h1 := hst.szStart
  have h2 := hst.size
  have h3 := hst.nowPos
  have h4 : m'.cursor next' = m.cursor next + 1 := h3
  by_cases hm : m.nowState = .start
  · have hne : m.nowState ≠ .inNextLayer := by rw [hm]; simp
    have hl := h.follows.len
    have h0 := h.follows.fine.start (h.start_iff.mpr hm)
    have hcur : m.cursor next = m.szNowPos := by unfold cursor; rw [active_of_ne hne]
    rw [if_pos hm] at h1
    omega
  · rw [if_neg hm] at h1
    have := h.located fun hc => hm (h.start_iff.mp hc)
    omega

theorem Tracks.szStart_le (h : Tracks m next c x) : m.szStart ≤ m.szNowPos := by
  by_cases hc : c.state = .start
  · exact h.atStart hc
  have hloc := h.located hc
  have hlen := h.ready.sane.len
  by_cases hn : m.nowState = .inNextLayer
  · cases next with
    | nil => exact absurd hn h.ready.2
    | cons l next =>
      have hnest := (h.ready.2 hn).1
      have h1 := hnest.start
      have h2 := hnest.nowPos
      simp only [cursor, size, active, if_pos hn] at hloc
      omega
  · rw [size_of_ne hn] at hloc
    unfold cursor at hloc
    rw [active_of_ne hn] at hloc
    omega

theorem le_nextMax (ch : UInt8) (c : Scan) (x : Nat) : x ≤ Scan.nextMax ch c x := by
  unfold Scan.nextMax
  split_ifs
  · exact le_max_left _ _
  · exact le_refl _

/-- One byte: the parser follows the reader. -/
theorem Tracks.byte (h : Tracks m next c x) (hfit : Scan.Fit ch c)
    (hb : m.byte rd ch none next = (o, pr', m', next')) :
    ∃ d, Scan.step ch c = (o, d) ∧ Steps m next 1 (Scan.nextMax ch c x) o m' next' d := by
  have hag : Agrees (m.byte rd ch none next) _ := byte_agrees h.ready h.follows hfit
  rcases hq : Scan.step ch c with ⟨o', d⟩
  rw [hb, hq] at hag
  obtain ⟨hret, hfol, hlen⟩ := hag
  subst hret
  have hcont := byte_continues h.ready (h.fits hfit) hb
  refine ⟨d, rfl, ?_⟩
  rcases o with _ | _ | _ | _
  · have hc := hcont.1 rfl
    have hf := hfol rfl (h.follows.fine.step hfit hq)
    refine ⟨fun _ => ⟨⟨hc.ready, hf, fun _ => h.szStart_step hc.toStepped, fun hd => ?_, h.nextMax hb (.inl rfl)⟩,
      hc.nowPos⟩, nofun, nofun, nofun, hc.szEnd, hc.mono⟩
    exact absurd (hf.state.trans hd) (active_begun hc.ready hc.begun)
  · obtain ⟨hst, hend⟩ := hcont.2 rfl
    have hne : m'.nowState ≠ .inNextLayer := by rw [hend.state]; simp
    have hloc := h.szStart_step hst
    have hpos := hst.nowPos
    unfold cursor at hloc
    rw [active_of_ne hne] at hloc hpos
    rw [size_of_ne hne] at hloc
    exact ⟨nofun, nofun, fun _ => ⟨⟨hend, step_ok hq, hlen rfl, hloc, h.nextMax hb (.inr rfl)⟩, hpos⟩, nofun,
      hst.szEnd, hst.mono⟩
  · have hre := byte_refused h.ready hb (.inl rfl)
    have hx := le_nextMax ch c x
    have h1 := h.maxLen
    have h2 := hre.maxLen
    refine ⟨nofun, nofun, nofun, fun _ => ⟨hre.cursor, hre.szStart h.szStart_le, by omega, by omega, ?_, ?_⟩, hre.szEnd,
      hre.nowPos⟩
    · rw [hre.argLen]; exact h.ready.sane.argLen
    · rw [hre.argLen]; exact h.ready.sane.argMax
  · have hre := byte_refused h.ready hb (.inr rfl)
    obtain ⟨hs, rfl⟩ := step_null hq
    have hm := h.start_iff.mp hs
    obtain ⟨rfl, rfl⟩ := byte_null h.ready h.follows hb hs
    have hne : m.nowState ≠ .inNextLayer := by rw [hm]; simp
    have hsane := h.ready.sane
    have hout : c.outer = [] := by
      have := h.follows.outer
      rw [needs_of_ne hne] at this
      simpa using this.symm
    have hfine := h.follows.fine
    have hx : Scan.nextMax ch c x = x := if_neg (by rw [hs]; simp)
    rw [hx]
    refine ⟨nofun, fun _ => ⟨tracks_start hm rfl rfl hsane.argLen hsane.argMax ?_ h.maxLen hs ⟨hfine.need, hfine.max,
      hfine.outer, fun _ => rfl⟩ hout, ?_⟩, nofun, nofun, rfl, hre.nowPos⟩
    · simp [stepForward]
    · unfold cursor
      rw [active_of_ne hne, active_of_ne (by exact hne)]
      rfl

theorem Tracks.steps_nil (h : Tracks m next c x) : Steps m next 0 x none m next c :=
  ⟨fun _ => ⟨h, by simp⟩, nofun, nofun, nofun, rfl, le_refl _⟩

theorem Tracks.step (rd : Int → UInt8) (h : Tracks m next c x) (hfit : Scan.Fit ch c) :
    ∃ o m' next' d, Parse.step rd ch ⟨none, m, next⟩ = (o, ⟨none, m', next'⟩) ∧ Scan.step ch c = (o, d) ∧
      Steps m next 1 (Scan.nextMax ch c x) o m' next' d := by
  rcases hb : m.byte rd ch none next with ⟨o, pr, m', next'⟩
  obtain ⟨d, hd, hst⟩ := h.byte hfit hb
  have hpr : pr = none := by
    have := byte_results rd ch m next
    rw [hb] at this
    exact this
  refine ⟨o, m', next', d, ?_, hd, hst⟩
  unfold Parse.step
  rw [hb, hpr]

/-- Several bytes. -/
theorem Tracks.feeds {us : List UInt8} {t : Parse} (h : Tracks m next c x) (ha : Along Scan.Fit Scan.step us c)
    (hf : feeds (Parse.step rd) us ⟨none, m, next⟩ = (o, t, [])) :
    ∃ d, Lib.feeds Scan.step us c = (o, d, []) ∧ Steps m next us.length (Scan.maxLen us c x) o t.this t.next d := by
  induction us generalizing m next c x with
  | nil =>
    cases hf
    exact ⟨c, rfl, h.steps_nil⟩
  | cons ch us ih =>
    obtain ⟨o1, m1, next1, d1, hs, hd1, hst⟩ := h.step rd ha.1
    have he := hst.szEnd
    have hmo := hst.mono
    rcases o1 with _ | e
    · rw [feeds_cons_none hs] at hf
      obtain ⟨h1, hcur⟩ := hst.again rfl
      obtain ⟨d, hd, hst'⟩ := ih h1 (ha.cons_none hd1) hf
      refine ⟨d, by rw [feeds_cons_none hd1, hd], ?_⟩
      simp only [Scan.maxLen, hd1, List.length_cons]
      refine ⟨fun ho => ?_, fun ho => ?_, fun ho => ?_, fun ho => ?_, hst'.szEnd.trans he, hmo.trans hst'.mono⟩
      · obtain ⟨h2, h3⟩ := hst'.again ho
        exact ⟨h2, by push_cast; omega⟩
      · obtain ⟨h2, h3⟩ := hst'.null ho
        exact ⟨h2, by push_cast; omega⟩
      · obtain ⟨h2, h3⟩ := hst'.ended ho
        exact ⟨h2, by push_cast; omega⟩
      · obtain ⟨h2, h3⟩ := hst'.error ho
        exact ⟨by push_cast; omega, h3⟩
    · rw [feeds_cons_some hs] at hf
      cases hf
      refine ⟨d1, feeds_cons_some hd1, ?_⟩
      exact hst

/-- A condition on the reader is one on the parser. -/
theorem Tracks.along {bs : List UInt8} {P : UInt8 → Scan → Prop} {Q : UInt8 → Layer → List Layer → Prop}
    (hPQ : ∀ b m next c x, Tracks m next c x → P b c → Q b m next) (h : Tracks m next c x)
    (ha : Along Scan.Fit Scan.step bs c) (hp : Along P Scan.step bs c) :
    Along (fun b s => Q b s.this s.next) (Parse.step rd) bs ⟨none, m, next⟩ := by
  induction bs generalizing m next c x with
  | nil => exact trivial
  | cons ch bs ih =>
    refine ⟨hPQ ch m next c x h hp.1, ?_⟩
    obtain ⟨o1, m1, next1, d1, hs, hd1, hst⟩ := h.step rd ha.1
    rw [hs]
    rcases o1 with _ | e
    · exact ih (hst.again rfl).1 (ha.cons_none hd1) (hp.cons_none hd1)
    · exact trivial

end

end Layer

/-- A call of `ParseRsp`: the parser follows the reader up to some place. If the message goes on there, no
bytes are left, or one has been skipped. -/
theorem RedisMsg.parseRsp_steps {rd : Int → UInt8} {m : RedisMsg} {c : Scan} {x : Nat}
    (h : Layer.Tracks m.this m.next c x) (hle : m.this.cursor m.next ≤ m.this.szEnd)
    (hlt : m.this.szEnd - m.this.cursor m.next < 2 ^ 31)
    (ha : Along Scan.Fit Scan.step (Layer.window rd m.this m.next) c) :
    ∃ us rs o d m', Layer.window rd m.this m.next = us ++ rs ∧ feeds Scan.step us c = (o, d, []) ∧
      m.parseRsp rd = some (o.getD .ok, m') ∧
      (∃ pr, feeds (Parse.step rd) us ⟨none, m.this, m.next⟩ = (o, ⟨pr, m'.this, m'.next⟩, [])) ∧
      Layer.Steps m.this m.next us.length (Scan.maxLen us c x) o m'.this m'.next d ∧
      (o = none → rs = [] ∨ ¬ Along (fun b c => ¬ Scan.Skips b c) Scan.step us c) := by
  have hc : Layer.Callable rd none m.this m.next :=
    ⟨h.ready, hle, hlt, h.along (fun _ _ _ _ _ h hf => h.fits hf) ha ha⟩
  obtain ⟨us, rs, o, t, h1, h2, h3, h4⟩ := parseRspResults_reads hc
  rw [h1] at ha
  obtain ⟨d, hd, hst⟩ := h.feeds ha.left h2
  refine ⟨us, rs, o, d, ⟨t.this, t.next⟩, h1, hd, ?_, ⟨t.pResults, h2⟩, hst, ?_⟩
  · unfold parseRsp
    rw [h3]
    rfl
  · intro ho
    rcases h4 ho with h4 | h4
    · exact .inl h4
    · refine .inr fun hs => h4 (h.along (Q := fun b m next => ¬ Layer.Skips b m next) ?_ ha.left hs)
      rintro b m next c x ht hsk ⟨hst, hb⟩
      exact hsk ⟨ht.follows.state.symm.trans hst, hb⟩

end RedisProxy
