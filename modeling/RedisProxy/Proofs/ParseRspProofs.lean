import RedisProxy.Proofs.ParseByteProofs

/-!
# `ParseRsp` reads byte by byte

The loops of `ParseRsp` and `ReadLine`, with the parsers of nested arrays that they call and the bulk
strings that they skip, do what reading one byte after the other does. A call stops at the end of a
message, at an error, at a null byte before a message, or when it has read everything; it also stops
early at a byte that stands in place of a line feed after the length of a bulk string.
-/

namespace RedisProxy

variable {rd : Int → UInt8}

open Lib List Option Byte

theorem int32_add_int32 (x y : Int) : int32 (int32 x + y) = int32 (x + y) := by
  exact Int.bmod_add_bmod

theorem bytesAt_length (rd : Int → UInt8) (p : Int) (n : Nat) : (bytesAt rd p n).length = n := by
  induction n generalizing p with
  | zero => rfl
  | succ n ih => simp [bytesAt, ih]

/-- The rest of the bytes after some of them. -/
theorem bytesAt_rest {p : Int} {n : Nat} {us rs : List UInt8} (h : bytesAt rd p n = us ++ rs) :
    rs = bytesAt rd (p + us.length) (n - us.length) := by
  induction us generalizing p n with
  | nil => simpa using h.symm
  | cons u us ih =>
    cases n with
    | zero => cases h
    | succ n =>
      simp only [bytesAt, cons_append, cons.injEq] at h
      rw [ih h.2]
      simp only [length_cons, Nat.cast_add, Nat.cast_one, Nat.add_sub_add_right]
      congr 1
      omega

namespace Layer

variable {m : Layer}

/-- One byte of `ReadLine`. -/
def lineStep (rd : Int → UInt8) (ch : UInt8) (s : Layer × List Layer) : Option LineStop × Layer × List Layer :=
  s.1.lineByte ch s.2 (s.1.subByte rd ch s.2)

/-- A byte that the layer itself reads. -/
theorem lineStep_line (rd : Int → UInt8) {ch : UInt8} (next : List Layer) (hn : m.nowState ≠ .inNextLayer)
    (hst : ¬(m.nowState = .readingLine ∧ ch = Byte.star)) : lineStep rd ch (m, next) =
      match m.readSwitch m.bKeyLine m.szNowPos ch with
      | (.more, m) => (none, m, next)
      | (.bulk, m) => (none, m, next)
      | (.stop, m) => (none, m, next)
      | (.lineEnd, m) => (some .lineEnd, m, next)
      | (.fail, m) => (some (.fail .error), m, next) := by
  unfold lineStep lineByte
  exact (if_neg hn).trans (if_neg hst)

theorem byte_eq (rd : Int → UInt8) (ch : UInt8) (pr : Option MsgResults) (m : Layer) (next : List Layer) :
    m.byte rd ch pr next = m.layerByte rd ch pr next (m.subByte rd ch next) := by
  cases next with
  | nil => rfl
  | cons l next => rfl

section

variable {rd : Int → UInt8} {ch : UInt8} {m m' : Layer} {next next' : List Layer}

/-- A line that goes on is still being read. -/
theorem lineByte_reading {sub : Option ParseRet × Layer × List Layer} (hr : m.bReadingLine = true)
    (h : m.lineByte ch next sub = (none, m', next')) : m'.bReadingLine = true := by
  unfold lineByte at h
  split_ifs at h with h1 h2
  · split at h
    · cases h; exact hr
    · cases h
    · cases h
  · cases h; exact hr
  · have hrb := readSwitch_reads m m.bKeyLine m.szNowPos ch
    rcases hsw : m.readSwitch m.bKeyLine m.szNowPos ch with ⟨ret, m1⟩
    rw [hsw] at h hrb
    cases ret with
    | more | bulk | stop =>
      cases h
      rw [(hrb.inLine nofun nofun).1, hr]
    | lineEnd | fail => cases h

/-- What a byte of a line means for `ParseRsp`. -/
def ofLine (rd : Int → UInt8) (pr : Option MsgResults) :
    Option LineStop × Layer × List Layer → Option ParseRet × Option MsgResults × Layer × List Layer
  | (none, m, next) => (none, pr, m, next)
  | (some .lineEnd, m, next) => m.endLine rd pr next
  | (some (.fail iRet), m, next) => (some iRet, pr, m, next)

theorem byte_of_line (hr : m.bReadingLine = true) (pr : Option MsgResults) :
    m.byte rd ch pr next = ofLine rd pr (lineStep rd ch (m, next)) := by
  rw [byte_eq, layerByte, if_pos hr]
  unfold lineStep
  rcases m.lineByte ch next (m.subByte rd ch next) with ⟨_ | _ | _, _, _⟩ <;> rfl

/-- What a byte of the next layer means for the line. -/
def ofNext (m : Layer) : Option ParseRet × Parse → Option LineStop × Layer × List Layer
  | (none, t) => (none, m, t.this :: t.next)
  | (some .ok, t) => (some .lineEnd, m.nextLayerDone t.this, t.this :: t.next)
  | (some iRet, t) => (some (.fail iRet), m, t.this :: t.next)

theorem lineStep_next {l : Layer} (hn : m.nowState = .inNextLayer) :
    lineStep rd ch (m, l :: next) = m.ofNext (Parse.step rd ch ⟨none, l, next⟩) := by
  unfold lineStep lineByte subByte Parse.step
  dsimp only
  rw [if_pos hn]
  rcases l.byte rd ch none next with ⟨_ | _ | _ | _, _, _, _⟩ <;> rfl

/-- The next layers have no results to fill in. -/
theorem byte_results (rd : Int → UInt8) (ch : UInt8) (m : Layer) (next : List Layer) :
    (m.byte rd ch none next).2.1 = none := by
  rw [byte_eq]
  unfold layerByte
  split_ifs
  · split
    · rfl
    · unfold endLine addResult
      dsimp only
      split_ifs <;> rfl
    · rfl
  · rfl

end

/-! ### The three levels -/

section

variable {rd : Int → UInt8} {m : Layer} {next : List Layer} {bs : List UInt8}
variable {l : Layer}

/-- The bytes of a line, for `ParseRsp`. -/
theorem feeds_of_line {o : Option LineStop} {t : Layer × List Layer} (hr : m.bReadingLine = true)
    (pr : Option MsgResults) (h : feeds (lineStep rd) bs (m, next) = (o, t, [])) :
    feeds (Parse.step rd) bs ⟨pr, m, next⟩ =
      ((ofLine rd pr (o, t)).1, ⟨(ofLine rd pr (o, t)).2.1, (ofLine rd pr (o, t)).2.2.1,
        (ofLine rd pr (o, t)).2.2.2⟩, []) := by
  induction bs generalizing m next with
  | nil => cases h; rfl
  | cons b bs ih =>
    have hb : Parse.step rd b ⟨pr, m, next⟩ = ((ofLine rd pr (lineStep rd b (m, next))).1,
        ⟨(ofLine rd pr (lineStep rd b (m, next))).2.1, (ofLine rd pr (lineStep rd b (m, next))).2.2.1,
        (ofLine rd pr (lineStep rd b (m, next))).2.2.2⟩) := by
      unfold Parse.step
      rw [byte_of_line hr]
    rcases hs : lineStep rd b (m, next) with ⟨_ | e, m1, next1⟩
    · rw [feeds_cons_none hs] at h
      rw [hs] at hb
      rw [feeds_cons_none hb]
      exact ih (lineByte_reading hr hs) h
    · rw [feeds_cons_some hs] at h
      cases h
      rw [hs] at hb
      rcases ho : (ofLine rd pr (some e, m1, next1)).1 with _ | iRet
      · rw [ho] at hb
        rw [feeds_cons_none hb]
        rfl
      · rw [ho] at hb
        rw [feeds_cons_some hb]

/-- The bytes of a nested array, for the line. -/
theorem feeds_next {o : Option ParseRet} {t : Parse} (hn : m.nowState = .inNextLayer)
    (h : feeds (Parse.step rd) bs ⟨none, l, next⟩ = (o, t, [])) :
    feeds (lineStep rd) bs (m, l :: next) = ((m.ofNext (o, t)).1, (m.ofNext (o, t)).2, []) := by
  induction bs generalizing l next with
  | nil => cases h; rfl
  | cons b bs ih =>
    have hb : lineStep rd b (m, l :: next) = m.ofNext (Parse.step rd b ⟨none, l, next⟩) := lineStep_next hn
    rcases hs : Parse.step rd b ⟨none, l, next⟩ with ⟨_ | e, pr1, l1, next1⟩
    · rw [feeds_cons_none hs] at h
      rw [hs] at hb
      have hpr : pr1 = none := by
        have := byte_results rd b l next
        rw [← this]
        exact (congrArg (fun r => r.2.pResults) hs).symm
      rw [hpr] at h
      rw [feeds_cons_none hb]
      exact ih h
    · rw [feeds_cons_some hs] at h
      cases h
      rw [hs] at hb
      cases e with
      | ok | error | startNull => exact feeds_cons_some hb

variable {P : UInt8 → Layer → List Layer → Prop}

theorem along_of_line (hr : m.bReadingLine = true) {pr : Option MsgResults}
    (h : Along (fun b s => P b s.this s.next) (Parse.step rd) bs ⟨pr, m, next⟩) :
    Along (fun b s => P b s.1 s.2) (lineStep rd) bs (m, next) := by
  refine h.sim (R := fun s t => s.this = t.1 ∧ s.next = t.2 ∧ t.1.bReadingLine = true) ?_ ?_ ⟨rfl, rfl, hr⟩
  · rintro b ⟨pr, m, next⟩ ⟨m', next'⟩ ⟨rfl, rfl, -⟩ hP
    exact hP
  · rintro b ⟨pr, m, next⟩ ⟨m', next'⟩ ⟨m1, next1⟩ ⟨rfl, rfl, hr⟩ hs
    refine ⟨⟨pr, m1, next1⟩, ?_, rfl, rfl, lineByte_reading hr hs⟩
    unfold Parse.step
    rw [byte_of_line hr, hs]
    rfl

theorem along_next (hn : m.nowState = .inNextLayer) (hP : ∀ b l next, P b m (l :: next) → P b l next)
    (h : Along (fun b s => P b s.1 s.2) (lineStep rd) bs (m, l :: next)) :
    Along (fun b s => P b s.this s.next) (Parse.step rd) bs ⟨none, l, next⟩ := by
  refine h.sim (R := fun s t => s.1 = m ∧ s.2 = t.this :: t.next ∧ t.pResults = none) ?_ ?_ ⟨rfl, rfl, rfl⟩
  · rintro b ⟨m', next'⟩ ⟨pr, l, next⟩ ⟨rfl, rfl, -⟩ h
    exact hP b l next h
  · rintro b ⟨m', next'⟩ ⟨pr, l, next⟩ ⟨pr1, l1, next1⟩ ⟨rfl, rfl, rfl⟩ hs
    refine ⟨(m', l1 :: next1), ?_, rfl, rfl, ?_⟩
    · rw [lineStep_next hn, hs]; rfl
    · have := byte_results rd b l next
      rw [← this]
      exact (congrArg (fun r => r.2.pResults) hs).symm

end

/-! ### The body of a bulk string -/

/-- The part of a bulk string that is read, `n` bytes of it. -/
def bulkRead (m : Layer) (n : Nat) : Layer :=
  { ((m.keyStart m.bKeyLine m.szNowPos).cmdInfo m.szNowPos).stepForward n with iArgLen := m.iArgLen - n }

theorem bulkRead_succ (m : Layer) (n : Nat) : (m.bulkRead 1).bulkRead (n + 1) = m.bulkRead (n + 2) := by
  have e1 : m.szNowPos + 1 + (n + 1 : Int) = m.szNowPos + (n + 2) := by omega
  have e2 : m.iLen + 1 + (n + 1 : Int) = m.iLen + (n + 2) := by omega
  have e3 : m.iArgLen - 1 - (n + 1 : Int) = m.iArgLen - (n + 2) := by omega
  by_cases hk : m.szKeyStart = none ∧ m.bKeyLine = true
  · by_cases hc : m.szCmd = none
    · simp [bulkRead, keyStart, cmdInfo, stepForward, hk, hc, int32_add_int32, e1, e2, e3]
    · simp [bulkRead, keyStart, cmdInfo, stepForward, hk, hc, int32_add_int32, e1, e2, e3]
  · by_cases hc : m.szCmd = none
    · simp [bulkRead, keyStart, cmdInfo, stepForward, hk, hc, int32_add_int32, e1, e2, e3]
    · simp [bulkRead, keyStart, cmdInfo, stepForward, hk, hc, int32_add_int32, e1, e2, e3]

theorem bulkRead_same (m : Layer) (n : Nat) : (m.bulkRead n).nowState = m.nowState ∧
    (m.bulkRead n).bKeyLine = m.bKeyLine ∧ (m.bulkRead n).bReadingLine = m.bReadingLine := by
  obtain ⟨k, hk⟩ := keyStart_eq m m.bKeyLine m.szNowPos
  obtain ⟨c, i, hc⟩ := cmdInfo_eq (m.keyStart m.bKeyLine m.szNowPos) m.szNowPos
  unfold bulkRead
  rw [hc, hk]
  exact ⟨rfl, rfl, rfl⟩

theorem lineStep_bulk (rd : Int → UInt8) (ch : UInt8) (next : List Layer) (hs : m.nowState = .usdStr)
    (h1 : 0 < m.iArgLen) (h2 : m.iArgLen < 2 ^ 31) : lineStep rd ch (m, next) = (none, m.bulkRead 1, next) := by
  unfold lineStep lineByte readSwitch
  simp only [hs, reduceCtorEq, false_and, if_false]
  have h3 : ¬ m.iArgLen = 0 := by omega
  simp only [stepForward_iArgLen, cmdInfo_iArgLen, keyStart_iArgLen, if_neg h3]
  rw [int32_eq (by omega) (by omega)]
  rfl

/-- The body of a bulk string, byte by byte. -/
theorem feeds_bulk (rd : Int → UInt8) (next : List Layer) (bs : List UInt8) (hne : bs ≠ [])
    (hs : m.nowState = .usdStr) (h1 : bs.length ≤ m.iArgLen) (h2 : m.iArgLen < 2 ^ 31) :
    feeds (lineStep rd) bs (m, next) = (none, (m.bulkRead bs.length, next), []) := by
  induction bs generalizing m with
  | nil => exact absurd rfl hne
  | cons b bs ih =>
    simp only [length_cons, Nat.cast_add, Nat.cast_one] at h1
    rw [feeds_cons_none (lineStep_bulk rd b next hs (by omega) h2)]
    cases bs with
    | nil => rfl
    | cons b' bs =>
      rw [ih nofun ((bulkRead_same m 1).1.trans hs)]
      · simp only [length_cons]
        rw [bulkRead_succ]
      · simp only [bulkRead]
        omega
      · simp only [bulkRead]
        omega

/-- What `ReadLine` skips at the end of the header of a bulk string. -/
theorem skipBulk_eq {p : Int} (hp : p = m.szNowPos - 1) (h1 : 0 ≤ m.iArgLen) (h2 : m.iArgLen < 2 ^ 31)
    (he : m.szNowPos ≤ m.szEnd) (hw : m.szEnd - p < 2 ^ 31) :
    ∃ n : Nat, (n : Int) ≤ m.szEnd - m.szNowPos ∧ (n : Int) ≤ m.iArgLen ∧
      m.skipBulk m.bKeyLine p = some (if n = 0 then m else m.bulkRead n) := by
  subst hp
  have e1 : int32 (m.szEnd - (m.szNowPos - 1)) = m.szEnd - (m.szNowPos - 1) := int32_eq (by omega) hw
  have e2 : m.szNowPos - 1 + 1 = m.szNowPos := by omega
  unfold skipBulk
  simp only [e1, e2]
  rw [if_neg (by omega)]
  split_ifs with hz hl
  · exact ⟨0, by omega, by omega, rfl⟩
  · refine ⟨m.iArgLen.toNat, by omega, by omega, ?_⟩
    have e3 : (m.iArgLen.toNat : Int) = m.iArgLen := Int.toNat_of_nonneg h1
    rw [if_neg (by omega)]
    simp only [bulkRead, e3, sub_self]
  · refine ⟨(m.szEnd - m.szNowPos).toNat, by omega, by omega, ?_⟩
    have e3 : ((m.szEnd - m.szNowPos).toNat : Int) = m.szEnd - m.szNowPos := Int.toNat_of_nonneg (by omega)
    rw [if_neg (by omega)]
    simp only [bulkRead, e3]
    have e4 : m.szEnd - (m.szNowPos - 1) - 1 = m.szEnd - m.szNowPos := by omega
    rw [e4, int32_eq (by omega) (by omega)]

/-! ### A call of `ParseRsp` -/

/-- What a call of `ParseRsp` needs: the parser is ready, and no length in the bytes that are left is out of
range. -/
structure Callable (rd : Int → UInt8) (pr : Option MsgResults) (m : Layer) (next : List Layer) : Prop where
  ready : m.Ready next
  cursor_le : m.cursor next ≤ m.szEnd
  lt : m.szEnd - m.cursor next < 2 ^ 31
  fits : Along (fun b s => Fits b s.this s.next) (Parse.step rd) (window rd m next) ⟨pr, m, next⟩

section

variable {rd : Int → UInt8} {pr : Option MsgResults} {m : Layer} {next : List Layer} {us rs : List UInt8} {t : Parse}

theorem feeds_continues (hr : m.Ready next)
    (ha : Along (fun b s => Fits b s.this s.next) (Parse.step rd) us ⟨pr, m, next⟩)
    (hf : feeds (Parse.step rd) us ⟨pr, m, next⟩ = (none, t, [])) :
    t.this.Ready t.next ∧ t.this.cursor t.next = m.cursor next + us.length ∧ t.this.szEnd = m.szEnd ∧
      t.this.need t.next ≤ m.need next + us.length := by
  induction us generalizing pr m next with
  | nil =>
    cases hf
    exact ⟨hr, by simp, rfl, le_refl _⟩
  | cons b us ih =>
    rcases hb : m.byte rd b pr next with ⟨_ | e, pr1, m1, next1⟩
    · have hs : Parse.step rd b ⟨pr, m, next⟩ = (none, ⟨pr1, m1, next1⟩) := by unfold Parse.step; rw [hb]
      have hc := (byte_continues hr ha.1 hb).1 rfl
      rw [feeds_cons_none hs] at hf
      obtain ⟨h1, h2, h3, h4⟩ := ih hc.ready (ha.cons_none hs) hf
      have hp : m1.cursor next1 = m.cursor next + 1 := hc.nowPos
      have hn := hc.need
      have he := hc.szEnd
      simp only [length_cons, Nat.cast_add, Nat.cast_one]
      exact ⟨h1, by omega, by omega, by omega⟩
    · have hs : Parse.step rd b ⟨pr, m, next⟩ = (some e, ⟨pr1, m1, next1⟩) := by unfold Parse.step; rw [hb]
      rw [feeds_cons_some hs] at hf
      cases hf

/-- After some of the bytes the parser can be called for the others. -/
theorem Callable.after (hc : Callable rd pr m next) (hw : window rd m next = us ++ rs)
    (hf : feeds (Parse.step rd) us ⟨pr, m, next⟩ = (none, t, [])) :
    Callable rd t.pResults t.this t.next ∧ window rd t.this t.next = rs ∧
      t.this.left t.next + us.length = m.left next ∧ t.this.need t.next ≤ m.need next + us.length ∧
      t.this.cursor t.next = m.cursor next + us.length ∧ t.this.szEnd = m.szEnd := by
  have hfits := hc.fits
  rw [hw] at hfits
  obtain ⟨h1, h2, h3, h4⟩ := feeds_continues hc.ready hfits.left hf
  have hlen : us.length + rs.length = m.left next := by
    rw [← length_append, ← hw, window, bytesAt_length]
  have hcur := hc.cursor_le
  have hlt := hc.lt
  have hleft : t.this.left t.next = m.left next - us.length := by
    unfold left at hlen ⊢
    omega
  have hwin : window rd t.this t.next = rs := by
    rw [bytesAt_rest hw, window, h2, hleft]
  have hle : m.left next = m.szEnd - m.cursor next := by unfold left; omega
  refine ⟨⟨h1, by omega, by omega, ?_⟩, hwin, by omega, h4, h2, h3⟩
  rw [hwin]
  exact hfits.right hf

/-- At the end of a message the state says so. -/
theorem feeds_end (hr : m.Ready next)
    (ha : Along (fun b s => Fits b s.this s.next) (Parse.step rd) us ⟨pr, m, next⟩)
    (hf : feeds (Parse.step rd) us ⟨pr, m, next⟩ = (some .ok, t, [])) : t.this.nowState = .msgEnd := by
  induction us generalizing pr m next with
  | nil => cases hf
  | cons b us ih =>
    rcases hb : m.byte rd b pr next with ⟨_ | e, pr1, m1, next1⟩
    · have hs : Parse.step rd b ⟨pr, m, next⟩ = (none, ⟨pr1, m1, next1⟩) := by unfold Parse.step; rw [hb]
      rw [feeds_cons_none hs] at hf
      exact ih ((byte_continues hr ha.1 hb).1 rfl).ready (ha.cons_none hs) hf
    · have hs : Parse.step rd b ⟨pr, m, next⟩ = (some e, ⟨pr1, m1, next1⟩) := by unfold Parse.step; rw [hb]
      rw [feeds_cons_some hs] at hf
      cases hf
      exact ((byte_continues hr ha.1 hb).2 rfl).2.state

end

/-- The result `r` of `ParseRsp` is what the bytes up to some place lead to. If the message goes on there,
no bytes are left, or one has been skipped. -/
def CallReads (rd : Int → UInt8) (pr : Option MsgResults) (m : Layer) (next : List Layer)
    (r : Option (ParseRet × Option MsgResults × Layer × List Layer)) : Prop :=
  ∃ us rs o t, window rd m next = us ++ rs ∧ feeds (Parse.step rd) us ⟨pr, m, next⟩ = (o, t, []) ∧
    r = some (o.getD .ok, t.pResults, t.this, t.next) ∧
    (o = none → rs = [] ∨ ¬ Along (fun b s => ¬ Skips b s.this s.next) (Parse.step rd) us ⟨pr, m, next⟩)

/-- What `ReadLine` returns, with `iRet`. -/
def lineRet : Option LineStop → Bool × ParseRet
  | none => (false, .ok)
  | some .lineEnd => (true, .ok)
  | some (.fail iRet) => (false, iRet)

/-- The same for the result of `ReadLine`. -/
def LineReads (rd : Int → UInt8) (m : Layer) (next : List Layer)
    (r : Option (Bool × ParseRet × Layer × List Layer)) : Prop :=
  ∃ us rs o t, window rd m next = us ++ rs ∧ feeds (lineStep rd) us (m, next) = (o, t, []) ∧
    r = some ((lineRet o).1, (lineRet o).2, t.1, t.2) ∧
    (o = none → rs = [] ∨ ¬ Along (fun b s => ¬ Skips b s.1 s.2) (lineStep rd) us (m, next))

/-- `ParseRsp` is right with `n` rounds. -/
def Parses (rd : Int → UInt8) (n : Nat) : Prop :=
  ∀ pr m next, Callable rd pr m next → 2 * m.left next + m.need next ≤ n →
    CallReads rd pr m next (parseRsp rd n pr m next)

/-- `ParseRsp` of the next layer, as `ReadLine` calls it. -/
def parseNext (rd : Int → UInt8) (n : Nat) (l : Layer) (next : List Layer) : Option (ParseRet × Layer × List Layer) :=
  (parseRsp rd n none l next).map fun r => (r.1, r.2.2)

section

variable {rd : Int → UInt8} {pr : Option MsgResults} {m m1 l : Layer} {next next1 : List Layer} {us rs : List UInt8}
  {t : Parse} {n : Nat} {r : Option (Bool × ParseRet × Layer × List Layer)}
variable {k : Nat} {b : Bool} {p : Int}

theorem skips_cons {b : UInt8} (hn : m.nowState = .inNextLayer) : Skips b m (l :: next) ↔ Skips b l next := by
  unfold Skips
  rw [active, if_pos hn]

theorem LineReads.after (hr : m.bReadingLine = true) (hc : Callable rd pr m next)
    (hw : window rd m next = us ++ rs) (hf : feeds (lineStep rd) us (m, next) = (none, (m1, next1), []))
    (h : LineReads rd m1 next1 r) : LineReads rd m next r := by
  obtain ⟨us1, rs1, o, t, h1, h2, h3, h4⟩ := h
  have hwin := (hc.after hw (feeds_of_line hr pr hf)).2.1
  refine ⟨us ++ us1, rs1, o, t, ?_, ?_, h3, ?_⟩
  · rw [hw, ← hwin, append_assoc, ← h1]; rfl
  · rw [feeds_append hf, h2]
  · intro ho
    rcases h4 ho with h4 | h4
    · exact .inl h4
    · exact .inr fun ha => h4 (ha.right hf)

theorem Callable.inner (hc : Callable rd pr m (l :: next)) (hn : m.nowState = .inNextLayer) :
    Callable rd none l next ∧ window rd m (l :: next) = window rd l next ∧
      m.left (l :: next) = l.left next ∧ m.need (l :: next) = l.need next + 1 := by
  obtain ⟨hs, hr⟩ := hc.ready
  obtain ⟨hnest, hready⟩ := hr hn
  have hread : m.bReadingLine = true := by rw [hs.reading, hn]; rfl
  have hcur : m.cursor (l :: next) = l.cursor next := by unfold cursor; rw [active, if_pos hn]
  have hleft : m.left (l :: next) = l.left next := by unfold left; rw [hcur, hnest.szEnd]
  have hwin : window rd m (l :: next) = window rd l next := by unfold window; rw [hcur, hleft]
  have hle := hc.cursor_le
  have hlt := hc.lt
  refine ⟨⟨hready, ?_, ?_, ?_⟩, hwin, hleft, ?_⟩
  · rw [hnest.szEnd, ← hcur]; exact hle
  · rw [hnest.szEnd, ← hcur]; exact hlt
  · rw [← hwin]
    refine along_next hn ?_ (along_of_line hread hc.fits)
    intro b l next hf
    have hl := hs.len
    simp only [Fits, size, active, if_pos hn] at hf ⊢
    exact ⟨by omega, hf.2⟩
  · unfold need
    rw [if_pos hread, if_pos hn]
    cases next <;> rfl

/-- A nested array in `ReadLine`. -/
theorem lineReads_next (hp : Parses rd n) (hc : Callable rd pr m (l :: next)) (hn : m.nowState = .inNextLayer)
    (hfuel : 2 * m.left (l :: next) + m.need (l :: next) ≤ n + 1) :
    LineReads rd m (l :: next) ((parseNext rd n l next).bind fun r =>
      some ((m.nextLayerRet r).getD (false, .ok, m, r.2.1 :: r.2.2))) := by
  obtain ⟨hc', hwin, hleft, hneed⟩ := hc.inner hn
  obtain ⟨us, rs, o, t, h1, h2, h3, h4⟩ := hp none l next hc' (by omega)
  have hfits := hc'.fits
  rw [h1] at hfits
  refine ⟨us, rs, (m.ofNext (o, t)).1, (m.ofNext (o, t)).2, by rw [hwin, h1], feeds_next hn h2, ?_, ?_⟩
  · unfold parseNext
    rw [h3]
    rcases o with _ | iRet
    · have hne := (feeds_continues hc'.ready hfits.left h2).1.sane.notEnd
      simp [nextLayerRet, hne, ofNext, lineRet]
    · cases iRet with
      | ok =>
        have hend := feeds_end hc'.ready hfits.left h2
        simp [nextLayerRet, hend, ofNext, lineRet]
      | error | startNull => simp [nextLayerRet, ofNext, lineRet]
  · intro ho
    have ho' : o = none := by
      rcases o with _ | iRet
      · rfl
      · cases iRet <;> cases ho
    rcases h4 ho' with h4 | h4
    · exact .inl h4
    · refine .inr fun ha => h4 (along_next (P := fun b m next => ¬ Skips b m next) hn ?_ ha)
      intro b l next h
      rwa [skips_cons hn] at h

theorem readLine_next (hp : Parses rd n) (hc : Callable rd pr m (l :: next)) (hn : m.nowState = .inNextLayer)
    (hfuel : 2 * m.left (l :: next) + m.need (l :: next) ≤ n + 1) (hend : m.szEnd ≤ p → m.left (l :: next) = 0) :
    LineReads rd m (l :: next) (readLine rd (parseNext rd n) b (k + 1) p m (l :: next)) := by
  unfold readLine
  by_cases he : m.szEnd ≤ p
  · rw [if_pos he]
    refine ⟨[], [], none, (m, l :: next), ?_, rfl, rfl, fun _ => .inl rfl⟩
    unfold window
    rw [hend he]
    rfl
  · rw [if_neg he, if_pos hn]
    exact lineReads_next hp hc hn hfuel

/-- The window of a parser that is not in a nested array begins with the byte at `szNowPos`. -/
theorem window_cons (rd : Int → UInt8) (next : List Layer) (hn : m.nowState ≠ .inNextLayer) (hlt : m.szNowPos < m.szEnd) :
    ∃ rs, window rd m next = rd m.szNowPos :: rs := by
  have hcur : m.cursor next = m.szNowPos := by unfold cursor; rw [active_of_ne hn]
  obtain ⟨k, hk⟩ := Nat.exists_eq_succ_of_ne_zero (n := m.left next) (by unfold left; omega)
  unfold window
  rw [hk, hcur]
  exact ⟨_, rfl⟩

/-- The parser at the start of a nested array. -/
def enterNext (m : Layer) : Layer := { m with nowState := .inNextLayer, line.szStart := m.szNowPos }

/-- The parser of a nested array after its first byte. -/
def begunNext (m : Layer) : Layer :=
  { init m.szNowPos with szEnd := m.szEnd, szNowPos := m.szNowPos + 1, iLen := 1, nowState := .narg }

theorem lineStep_star (rd : Int → UInt8) (next : List Layer) (hs : m.nowState = .readingLine) :
    lineStep rd Byte.star (m, next) = (none, m.enterNext, [m.begunNext]) := by
  have hne : m.nowState ≠ .inNextLayer := by rw [hs]; simp
  unfold lineStep lineByte
  rw [if_neg hne, if_pos ⟨hs, rfl⟩]
  rfl

/-- The parser of a nested array can be called for the bytes from its first one on. -/
theorem Callable.star (hc : Callable rd pr m next) (hs : m.nowState = .readingLine)
    (hwin : window rd m next = Byte.star :: rs) : Callable rd none m.enterNext.nextLayer [] ∧
      window rd m.enterNext.nextLayer [] = window rd m next ∧ m.enterNext.nextLayer.left [] = m.left next := by
  have hne : m.nowState ≠ .inNextLayer := by rw [hs]; simp
  have hread : m.bReadingLine = true := by rw [hc.ready.sane.reading, hs]; rfl
  have hcur : m.cursor next = m.szNowPos := by unfold cursor; rw [active_of_ne hne]
  have hleft : m.enterNext.nextLayer.left [] = m.left next := by unfold left; rw [hcur]; rfl
  have hw : window rd m.enterNext.nextLayer [] = window rd m next := by unfold window; rw [hleft, hcur]; rfl
  refine ⟨⟨⟨⟨rfl, (by rintro ⟨⟩), le_refl _, by simp [nextLayer, init, MsgInfo.zero], le_refl _⟩, (by rintro ⟨⟩)⟩, ?_, ?_, ?_⟩, hw, hleft⟩
  · have := hc.cursor_le; rwa [hcur] at this
  · have := hc.lt; rwa [hcur] at this
  · have hfits := along_of_line hread hc.fits
    rw [hwin] at hfits
    rw [hw, hwin]
    refine ⟨⟨by simp [size, nextLayer, init, MsgInfo.zero], (by rintro ⟨⟩), (by rintro ⟨⟩)⟩, ?_⟩
    refine along_next rfl ?_ (hfits.cons_none (lineStep_star rd next hs))
    intro b l next hf
    have hl := hc.ready.sane.len
    simp only [Fits, size, active, enterNext, if_true] at hf ⊢
    exact ⟨by omega, hf.2⟩

/-- A nested array begins in `ReadLine`: its parser is called, and called once more if it is not at the end. -/
theorem lineReads_star (hp : Parses rd n) (hc : Callable rd pr m next) (hs : m.nowState = .readingLine)
    (hch : rd m.szNowPos = Byte.star) (hlt : m.szNowPos < m.szEnd) (hfuel : 2 * m.left next + m.need next ≤ n + 1) :
    LineReads rd m next ((parseNext rd n m.enterNext.nextLayer []).bind fun r => match m.enterNext.nextLayerRet r with
      | some ret => some ret
      | none => readLine rd (parseNext rd n) b (k + 1) (m.szNowPos + 1) m.enterNext (r.2.1 :: r.2.2)) := by
  have hne : m.nowState ≠ .inNextLayer := by rw [hs]; simp
  have hread : m.bReadingLine = true := by rw [hc.ready.sane.reading, hs]; rfl
  have hcur : m.cursor next = m.szNowPos := by unfold cursor; rw [active_of_ne hne]
  have hneed : m.need next = 2 := by rw [need_of_ne hne, if_pos hread]
  obtain ⟨rs, hwin⟩ := window_cons rd next hne hlt
  rw [hch] at hwin
  obtain ⟨hc0, hw0, hleft0⟩ := hc.star hs hwin
  have hneed0 : m.enterNext.nextLayer.need [] = 1 := rfl
  obtain ⟨us, rs1, o, t, h1, h2, h3, h4⟩ := hp none m.enterNext.nextLayer [] hc0 (by omega)
  have hfits := hc0.fits
  rw [h1] at hfits
  rw [hw0] at h1
  cases us with
  | nil =>
    cases h2
    rcases h4 rfl with h4 | h4
    · rw [hwin, h4] at h1; cases h1
    · exact absurd trivial h4
  | cons u us =>
    obtain rfl : u = star := by
      rw [hwin] at h1
      exact (cons.inj h1).1.symm
    have h2' := h2
    have hline : feeds (lineStep rd) (star :: us) (m, next) =
        ((m.enterNext.ofNext (o, t)).1, (m.enterNext.ofNext (o, t)).2, []) := by
      rw [feeds_cons_none (lineStep_star rd next hs)]
      exact feeds_next rfl h2'
    unfold parseNext
    rw [h3]
    simp only [map_some, bind_some]
    rcases o with _ | iRet
    · have hend := (feeds_continues hc0.ready hfits.left h2).1.sane.notEnd
      have hret : m.enterNext.nextLayerRet (.ok, t.this, t.next) = none := if_neg hend
      simp only [getD_none, hret]
      refine .after hread hc h1 hline ?_
      obtain ⟨hc1, -, hl1, hn1, -, -⟩ := hc.after h1 (feeds_of_line hread pr hline)
      simp only [ofLine, ofNext, length_cons] at hc1 hl1 hn1
      refine readLine_next hp hc1 rfl (by omega) fun he => ?_
      have hl0 : m.left next = (m.szEnd - m.szNowPos).toNat := by unfold left; rw [hcur]
      have he' : m.szEnd ≤ m.szNowPos + 1 := he
      omega
    · refine ⟨star :: us, rs1, _, _, h1, hline, ?_, ?_⟩
      · cases iRet with
        | ok =>
          have hend := feeds_end hc0.ready hfits.left h2
          simp [nextLayerRet, hend, ofNext, lineRet]
        | error | startNull => simp [nextLayerRet, ofNext, lineRet]
      · intro ho
        cases iRet <;> cases ho

/-- At the end of the header of a bulk string `ReadLine` skips some of the bytes that follow. -/
theorem Callable.skipBulk (hc : Callable rd pr m next) (hs : m.nowState = .usdStr) (hr : m.bReadingLine = true)
    (hp : p = m.szNowPos - 1) (hw : m.szEnd - p < 2 ^ 31) :
    ∃ us rs m2, m.skipBulk m.bKeyLine p = some m2 ∧ window rd m next = us ++ rs ∧
      feeds (lineStep rd) us (m, next) = (none, (m2, next), []) ∧ m2.bKeyLine = m.bKeyLine ∧
      m2.bReadingLine = true := by
  have hne : m.nowState ≠ .inNextLayer := by rw [hs]; simp
  have hcur : m.cursor next = m.szNowPos := by unfold cursor; rw [active_of_ne hne]
  have hle := hc.cursor_le
  obtain ⟨j, hj1, hj2, hsk⟩ := skipBulk_eq hp hc.ready.sane.argLen hc.ready.sane.argMax (by omega) hw
  refine ⟨(window rd m next).take j, (window rd m next).drop j, _, hsk, (take_append_drop _ _).symm, ?_⟩
  have hlen : ((window rd m next).take j).length = j := by
    rw [length_take, window, bytesAt_length, left]
    omega
  by_cases hj : j = 0
  · subst hj
    exact ⟨rfl, rfl, hr⟩
  · rw [if_neg hj]
    have hfeed := feeds_bulk rd next ((window rd m next).take j)
      (by intro h0; rw [h0] at hlen; exact hj hlen.symm) hs (by rw [hlen]; exact hj2) hc.ready.sane.argMax
    rw [hlen] at hfeed
    exact ⟨hfeed, (bulkRead_same m j).2.1, (bulkRead_same m j).2.2.trans hr⟩

/-- `ReadLine` reads the bytes of a line. -/
theorem readLine_reads (hp : Parses rd n) (k : Nat) (hc : Callable rd pr m next) (hr : m.bReadingLine = true)
    (hk : m.left next + 1 ≤ k) (hfuel : 2 * m.left next + m.need next ≤ n + 1) :
    LineReads rd m next (readLine rd (parseNext rd n) m.bKeyLine k m.szNowPos m next) := by
  induction k generalizing m next with
  | zero => omega
  | succ k ih =>
    by_cases hn : m.nowState = .inNextLayer
    · cases next with
      | nil => exact absurd hn hc.ready.2
      | cons l next =>
        refine readLine_next hp hc hn hfuel fun he => ?_
        have hnest := (hc.ready.2 hn).1
        have hnn := l.size_nonneg (hc.ready.2 hn).2
        have h1 := hnest.nowPos
        have h2 := hnest.start
        have hcur : m.cursor (l :: next) = (l.active next).szNowPos := by unfold cursor; rw [active, if_pos hn]
        unfold left
        omega
    have hcur : m.cursor next = m.szNowPos := by unfold cursor; rw [active_of_ne hn]
    have hleft : m.left next = (m.szEnd - m.szNowPos).toNat := by unfold left; rw [hcur]
    unfold readLine
    by_cases he : m.szEnd ≤ m.szNowPos
    · rw [if_pos he]
      refine ⟨[], [], none, (m, next), ?_, rfl, rfl, fun _ => .inl rfl⟩
      unfold window
      rw [hleft, Int.toNat_of_nonpos (by omega)]
      rfl
    rw [if_neg he, if_neg hn]
    by_cases hst : m.nowState = .readingLine ∧ rd m.szNowPos = star
    · rw [if_pos hst]
      obtain ⟨k, rfl⟩ := Nat.exists_eq_succ_of_ne_zero (n := k) (by omega)
      exact lineReads_star hp hc hst.1 hst.2 (by omega) hfuel
    rw [if_neg hst]
    obtain ⟨rs, hwin⟩ := window_cons rd next hn (by omega)
    have hrb := readSwitch_reads m m.bKeyLine m.szNowPos (rd m.szNowPos)
    have hstep := lineStep_line rd next hn hst
    rcases hsw : m.readSwitch m.bKeyLine m.szNowPos (rd m.szNowPos) with ⟨ret, m1⟩
    rw [hsw] at hrb hstep
    cases ret with
    | more =>
      have hf : feeds (lineStep rd) [rd m.szNowPos] (m, next) = (none, (m1, next), []) := feeds_cons_none hstep
      have hm := hrb.moved (by simp)
      obtain ⟨hc1, -, hl1, hn1, -, -⟩ := hc.after hwin (feeds_of_line hr pr hf)
      simp only [ofLine, length_singleton] at hc1 hl1 hn1
      refine .after hr hc hwin hf ?_
      rw [← hm.keyLine, ← hm.nowPos]
      exact ih hc1 ((hrb.inLine (by simp) (by simp)).1.trans hr) (by omega) (by omega)
    | bulk =>
      have hf : feeds (lineStep rd) [rd m.szNowPos] (m, next) = (none, (m1, next), []) := feeds_cons_none hstep
      have hm := hrb.moved (by simp)
      obtain ⟨hc1, hw1, hl1, hn1, hcur1, -⟩ := hc.after hwin (feeds_of_line hr pr hf)
      simp only [ofLine, length_singleton] at hc1 hw1 hl1 hn1
      have hst1 : m1.nowState = .usdStr := by cases hrb; rfl
      have hr1 : m1.bReadingLine = true := (hrb.inLine (by simp) (by simp)).1.trans hr
      have hlt := hc.lt
      refine .after hr hc hwin hf ?_
      obtain ⟨us, rs1, m2, hsk, hw2, hf2, hkey, hr2⟩ :=
        hc1.skipBulk hst1 hr1 (p := m.szNowPos) (by rw [hm.nowPos]; omega) (by rw [hm.szEnd]; omega)
      obtain ⟨hc2, -, hl2, hn2, hcur2, -⟩ := hc1.after hw2 (feeds_of_line hr1 pr hf2)
      simp only [ofLine] at hc2 hl2 hn2 hcur2
      refine .after hr1 hc1 hw2 hf2 ?_
      dsimp only
      rw [← hm.keyLine, hsk, ← hkey]
      exact ih hc2 hr2 (by omega) (by omega)
    | stop =>
      refine ⟨[rd m.szNowPos], rs, none, (m1, next), hwin, feeds_cons_none hstep, rfl, fun _ => .inr fun ha => ?_⟩
      refine ha.1 ?_
      unfold Skips
      rw [active_of_ne hn]
      cases hrb with
      | skip hs hch => exact ⟨hs, hch⟩
    | lineEnd => exact ⟨[rd m.szNowPos], rs, some .lineEnd, (m1, next), hwin, feeds_cons_some hstep, rfl, (by simp)⟩
    | fail =>
      exact ⟨[rd m.szNowPos], rs, some (.fail .error), (m1, next), hwin, feeds_cons_some hstep, rfl, (by simp)⟩

theorem Ready.szNowPos_le (h : m.Ready next) : m.szNowPos ≤ m.cursor next := by
  cases next with
  | nil => exact le_refl _
  | cons l next =>
    unfold cursor active
    split_ifs with hn
    · obtain ⟨hnest, hr⟩ := h.2 hn
      have h1 := hnest.nowPos
      have h2 := hnest.start
      have h3 := l.size_nonneg hr
      omega
    · exact le_refl _

theorem CallReads.after {r : Option (ParseRet × Option MsgResults × Layer × List Layer)}
    (hc : Callable rd pr m next) (hw : window rd m next = us ++ rs)
    (hf : feeds (Parse.step rd) us ⟨pr, m, next⟩ = (none, t, [])) (h : CallReads rd t.pResults t.this t.next r) :
    CallReads rd pr m next r := by
  obtain ⟨us1, rs1, o, t1, h1, h2, h3, h4⟩ := h
  have hwin := (hc.after hw hf).2.1
  refine ⟨us ++ us1, rs1, o, t1, ?_, ?_, h3, ?_⟩
  · rw [hw, ← hwin, append_assoc, ← h1]
  · rw [feeds_append hf, h2]
  · intro ho
    rcases h4 ho with h4 | h4
    · exact .inl h4
    · exact .inr fun ha => h4 (ha.right hf)

/-- What `ParseRsp` does with the result of `ReadLine`. -/
def afterLine (rd : Int → UInt8) (n : Nat) (pr : Option MsgResults) :
    Bool × ParseRet × Layer × List Layer → Option (ParseRet × Option MsgResults × Layer × List Layer)
  | (false, iRet, m, next) => some (iRet, pr, m, next)
  | (true, _, m, next) =>
    match m.endLine rd pr next with
    | (none, pr, m, next) => parseRsp rd n pr m next
    | (some iRet, pr, m, next) => some (iRet, pr, m, next)

theorem parseRsp_line (he : ¬ m.szEnd ≤ m.szNowPos) (hr : m.bReadingLine = true) :
    parseRsp rd (n + 1) pr m next =
      (readLine rd (parseNext rd n) m.bKeyLine n m.szNowPos m next).bind (afterLine rd n pr) := by
  rw [parseRsp, if_neg he, if_pos hr]
  refine congrArg (Option.bind (readLine rd (parseNext rd n) m.bKeyLine n m.szNowPos m next)) (funext fun r => ?_)
  obtain ⟨b, iRet, m1, next1⟩ := r
  cases b with
  | false => rfl
  | true =>
    unfold afterLine endLine
    dsimp only
    cases m1.addResult pr with
    | none => rfl
    | some pr1 =>
      split_ifs with hn <;> rfl

/-- `ParseRsp` reads the bytes that are left, one by one. -/
theorem parseRsp_reads (rd : Int → UInt8) (n : Nat) : Parses rd n := by
  induction n with
  | zero =>
    intro pr m next _ hfuel
    have := one_le_need m next
    omega
  | succ n ih =>
    intro pr m next hc hfuel
    by_cases he : m.szEnd ≤ m.szNowPos
    · rw [parseRsp, if_pos he]
      refine ⟨[], [], none, ⟨pr, m, next⟩, ?_, rfl, rfl, fun _ => .inl rfl⟩
      have := hc.ready.szNowPos_le
      unfold window left
      rw [Int.toNat_of_nonpos (by omega)]
      rfl
    by_cases hr : m.bReadingLine = true
    · have hneed : 2 ≤ m.need next := by
        cases next with
        | nil => simp [need, hr]
        | cons l next =>
          have := one_le_need l next
          simp only [need, if_pos hr]
          split_ifs <;> omega
      rw [parseRsp_line he hr]
      obtain ⟨us, rs, o, t, h1, h2, h3, h4⟩ := readLine_reads ih n hc hr (by omega) hfuel
      have hfeed := feeds_of_line hr pr h2
      rw [h3, bind_some]
      rcases o with _ | _ | iRet
      · refine ⟨us, rs, none, _, h1, hfeed, rfl, fun _ => ?_⟩
        rcases h4 rfl with h4 | h4
        · exact .inl h4
        · exact .inr fun ha => h4 (along_of_line (P := fun b m next => ¬ Skips b m next) hr ha)
      · -- the line is complete: at least one byte has been read
        unfold lineRet afterLine
        dsimp only
        unfold ofLine at hfeed
        dsimp only at hfeed
        rcases hE : t.1.endLine rd pr t.2 with ⟨_ | iRet, pr1, m1, next1⟩
        · rw [hE] at hfeed
          refine .after hc h1 hfeed ?_
          obtain ⟨hc1, -, hl1, hn1, -, -⟩ := hc.after h1 hfeed
          have hus : us ≠ [] := by rintro rfl; cases h2
          have hpos := length_pos_of_ne_nil hus
          exact ih _ _ _ hc1 (by omega)
        · rw [hE] at hfeed
          exact ⟨us, rs, some iRet, _, h1, hfeed, rfl, (by simp)⟩
      · exact ⟨us, rs, some iRet, _, h1, hfeed, rfl, (by simp)⟩
    · have hne : m.nowState ≠ .inNextLayer := by
        intro hn
        exact hr (by rw [hc.ready.sane.reading, hn]; rfl)
      obtain ⟨rs, hwin⟩ := window_cons rd next hne (by omega)
      have hstep : Parse.step rd (rd m.szNowPos) ⟨pr, m, next⟩ =
          (((m.stepForward 1).parseSwitch m.szNowPos (rd m.szNowPos)).1,
            ⟨pr, ((m.stepForward 1).parseSwitch m.szNowPos (rd m.szNowPos)).2, next⟩) := by
        unfold Parse.step
        rw [byte_eq, layerByte, if_neg hr]
      rw [parseRsp, if_neg he, if_neg hr]
      rcases hsw : (m.stepForward 1).parseSwitch m.szNowPos (rd m.szNowPos) with ⟨_ | iRet, m1⟩
      · rw [hsw] at hstep
        have hf : feeds (Parse.step rd) [rd m.szNowPos] ⟨pr, m, next⟩ = (none, ⟨pr, m1, next⟩, []) :=
          feeds_cons_none hstep
        refine .after hc hwin hf ?_
        obtain ⟨hc1, -, hl1, hn1, -, -⟩ := hc.after hwin hf
        simp only [length_singleton] at hl1 hn1
        exact ih _ _ _ hc1 (by dsimp only; omega)
      · rw [hsw] at hstep
        exact ⟨[rd m.szNowPos], rs, some iRet, _, hwin, feeds_cons_some hstep, rfl, (by simp)⟩

theorem need_le (m : Layer) (next : List Layer) : m.need next ≤ next.length + 2 := by
  induction next generalizing m with
  | nil => unfold need; split_ifs <;> simp
  | cons l next ih =>
    have := ih l
    unfold need
    split_ifs <;> simp only [length_cons] <;> omega

end

end Layer

/-- A call of `ParseRsp` reads the bytes that are left up to some place. If the message goes on there, no
bytes are left, or one has been skipped. -/
theorem RedisMsg.parseRspResults_reads {pr : Option MsgResults} {m : RedisMsg}
    (hc : Layer.Callable rd pr m.this m.next) : ∃ us rs o t, Layer.window rd m.this m.next = us ++ rs ∧
      feeds (Parse.step rd) us ⟨pr, m.this, m.next⟩ = (o, t, []) ∧
      m.parseRspResults rd pr = some (o.getD .ok, t.pResults, ⟨t.this, t.next⟩) ∧ (o = none → rs = [] ∨
        ¬ Along (fun b s => ¬ Layer.Skips b s.this s.next) (Parse.step rd) us ⟨pr, m.this, m.next⟩) := by
  have hle := hc.ready.szNowPos_le
  have hneed := Layer.need_le m.this m.next
  obtain ⟨us, rs, o, t, h1, h2, h3, h4⟩ := Layer.parseRsp_reads rd m.rounds pr m.this m.next hc (by
    unfold rounds Layer.left
    omega)
  refine ⟨us, rs, o, t, h1, h2, ?_, h4⟩
  unfold parseRspResults
  rw [h3]
  rfl

end RedisProxy
