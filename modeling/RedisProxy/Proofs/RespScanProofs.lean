import RedisProxy.RespScan
import RedisProxy.Proofs.ParseRspProofs

/-!
# The parser and the reader

`Takes` lists the transitions of the reader. As long as the numbers that it reads stay in range, the parser
does the same on every byte (`byte_agrees`): a byte of a nested array is a byte of a reader that knows only
the arrays inside, and `step_within` says what it means for the arrays around it.
-/

namespace RedisProxy

open Lib List Byte

theorem Byte.digit_eq {ch : UInt8} (h : Byte.isDigit ch = true) : Byte.digit ch = (Resp.digitNat ch : Int) := by
  simp only [isDigit, Bool.and_eq_true, decide_eq_true_eq] at h
  have h1 := UInt8.le_iff_toNat_le.mp h.1
  have h2 : (48 : UInt8).toNat = 48 := rfl
  unfold digit Resp.digitNat
  omega

namespace Scan

/-- The transitions of the reader, one constructor for each. -/
inductive Takes (ch : UInt8) (c : Scan) : Option ParseRet → Scan → Prop
  | text (hs : c.state = .start) (hc : ch = Byte.plus ∨ ch = Byte.sub) :
      Takes ch c none { c with state := .str, need := 1, kind := .text }
  | int (hs : c.state = .start) (hc : ch = Byte.colon) :
      Takes ch c none { c with state := .str, need := 1, kind := .numStart }
  | ping (hs : c.state = .start) (hc : ch = Byte.pingB) :
      Takes ch c none { c with state := .str, need := 1, kind := .inline }
  | bulk (hs : c.state = .start) (hc : ch = Byte.usd) :
      Takes ch c none { c with state := .usdNum, need := 1, arg := 0, kind := .numStart }
  | array (hs : c.state = .start) (hc : ch = Byte.star) : Takes ch c none { c with state := .narg, need := 0 }
  | null (hs : c.state = .start) (hc : ch = 0) : Takes ch c (some .startNull) { c with len := 0 }
  | count (hs : c.state = .narg) (hc : Byte.isDigit ch = true) (hz : c.need * 10 + Resp.digitNat ch ≠ 0) :
      Takes ch c none { c with need := c.need * 10 + Resp.digitNat ch }
  | countZero (hs : c.state = .narg) (hc : Byte.isDigit ch = true) (hz : c.need * 10 + Resp.digitNat ch = 0) :
      Takes ch c none { c with need := 0, state := .nargZero }
  | countCr (hs : c.state = .narg) (hc : ch = Byte.cr) : Takes ch c none { c with state := .nargCrlf }
  | countSub (hs : c.state = .narg) (hc : ch = Byte.sub) : Takes ch c none { c with state := .nargNagOne }
  | zeroCr (hs : c.state = .nargZero) (hc : ch = Byte.cr) : Takes ch c none { c with state := .nargCrlf }
  | nagOne (hs : c.state = .nargNagOne) (hc : ch = Byte.one) : Takes ch c none { c with state := .nargZero }
  | noBody (hs : c.state = .nargCrlf) (hc : ch = Byte.lf) (hn : c.need = 0) :
      Takes ch c c.endArray.1 c.endArray.2
  | body (hs : c.state = .nargCrlf) (hc : ch = Byte.lf) (hn : c.need ≠ 0) :
      Takes ch c none { c with state := .readingLine }
  | lineText (hs : c.state = .readingLine) (hc : ch = Byte.plus ∨ ch = Byte.sub) :
      Takes ch c none { c with state := .str, kind := .text }
  | lineInt (hs : c.state = .readingLine) (hc : ch = Byte.colon) :
      Takes ch c none { c with state := .str, kind := .numStart }
  | lineBulk (hs : c.state = .readingLine) (hc : ch = Byte.usd) :
      Takes ch c none { c with state := .usdNum, arg := 0, kind := .numStart }
  | lineArray (hs : c.state = .readingLine) (hc : ch = Byte.star) :
      Takes ch c none { c with state := .narg, need := 0, arg := 0, outer := c.need :: c.outer }
  | strChar (hs : c.state = .str) (hc : ch ≠ Byte.cr) : Takes ch c none { c with kind := nextKind ch c.kind }
  | strCr (hs : c.state = .str) (hc : ch = Byte.cr) : Takes ch c none { c with state := .strCrlf }
  | lineEnd (hs : c.state = .strCrlf) (hc : ch = Byte.lf) :
      Takes ch c (c.endLine c.need c.outer).1 (c.endLine c.need c.outer).2
  | arg (hs : c.state = .usdNum) (hc : Byte.isDigit ch = true) :
      Takes ch c none { c with arg := c.arg * 10 + Resp.digitNat ch, kind := .numDigits }
  | argCr (hs : c.state = .usdNum) (hc : ch = Byte.cr) : Takes ch c none { c with state := .usdNumCrlf }
  | argSub (hs : c.state = .usdNum) (hc : ch = Byte.sub) (ha : c.arg = 0) :
      Takes ch c none { c with state := .usdEmpty }
  | argLf (hs : c.state = .usdNumCrlf) (hc : ch = Byte.lf) : Takes ch c none { c with state := .usdStr }
  | skip (hs : c.state = .usdNumCrlf) (hc : ch ≠ Byte.lf) : Takes ch c none c
  | bulkCr (hs : c.state = .usdStr) (ha : c.arg = 0) (hc : ch = Byte.cr) :
      Takes ch c none { c with state := .strCrlf }
  | bulkChar (hs : c.state = .usdStr) (ha : c.arg ≠ 0) : Takes ch c none { c with arg := c.arg - 1 }
  | emptyOne (hs : c.state = .usdEmpty) (hc : ch = Byte.one) : Takes ch c none { c with state := .usdEmptyOne }
  | emptyCr (hs : c.state = .usdEmptyOne) (hc : ch = Byte.cr) : Takes ch c none { c with state := .strCrlf }
  | argZeroCr (hs : c.state = .usdZero) (hc : ch = Byte.cr) : Takes ch c none { c with state := .strCrlf }
  | fail : Takes ch c (some .error) c

theorem read_takes (ch : UInt8) (c : Scan) : Takes ch c (read ch c).1 (read ch c).2 := by
  unfold read
  split
  · rename_i hs
    split_ifs with h1 h2 h3 h4 h5 h6 h7
    · exact .text hs (.inl h1)
    · exact .text hs (.inr h2)
    · exact .int hs h3
    · exact .ping hs h4
    · exact .bulk hs h5
    · exact .array hs h6
    · exact .null hs h7
    · exact .fail
  · rename_i hs
    split_ifs with h1 h2 h3
    · dsimp only
      by_cases hz : c.need * 10 + Resp.digitNat ch = 0
      · rw [if_pos hz, hz]
        exact .countZero hs h1 hz
      · rw [if_neg hz, ← hs]
        exact .count hs h1 hz
    · exact .countCr hs h2
    · exact .countSub hs h3
    · exact .fail
  · rename_i hs
    split_ifs with h1
    · exact .zeroCr hs h1
    · exact .fail
  · rename_i hs
    split_ifs with h1
    · exact .nagOne hs h1
    · exact .fail
  · rename_i hs
    split_ifs with h1 h2
    · exact .noBody hs h1 h2
    · exact .body hs h1 h2
    · exact .fail
  · rename_i hs
    split_ifs with h1 h2 h3 h4 h5
    · exact .lineText hs (.inl h1)
    · exact .lineText hs (.inr h2)
    · exact .lineInt hs h3
    · exact .lineBulk hs h4
    · exact .lineArray hs h5
    · exact .fail
  · rename_i hs
    split_ifs with h1
    · exact .strCr hs h1
    · exact .strChar hs h1
  · rename_i hs
    split_ifs with h1
    · exact .lineEnd hs h1
    · exact .fail
  · rename_i hs
    split_ifs with h1 h2 h3 h4
    · exact .arg hs h1
    · exact .argCr hs h2
    · exact .argSub hs h3 h4
    · exact .fail
    · exact .fail
  · rename_i hs
    split_ifs with h1
    · exact .argLf hs h1
    · exact .skip hs h1
  · rename_i hs
    split_ifs with h1 h2
    · exact .bulkCr hs h1 h2
    · exact .fail
    · exact .bulkChar hs h1
  · rename_i hs
    split_ifs with h1
    · exact .emptyOne hs h1
    · exact .fail
  · rename_i hs
    split_ifs with h1
    · exact .emptyCr hs h1
    · exact .fail
  · rename_i hs
    split_ifs with h1
    · exact .argZeroCr hs h1
    · exact .fail
  · exact .fail
  · exact .fail

section

variable {ch : UInt8} {c d : Scan} {o : Option ParseRet}
variable {need : Nat} {outer : List Nat}

/-- The byte has been counted. -/
theorem step_takes (h : step ch c = (o, d)) : Takes ch { c with len := c.len + 1 } o d := by
  have := read_takes ch { c with len := c.len + 1 }
  unfold step at h
  rwa [h] at this

theorem endLine_len (c : Scan) (need : Nat) (outer : List Nat) : (c.endLine need outer).2.len = c.len := by
  unfold endLine
  split <;> rfl

theorem endArray_len (c : Scan) : c.endArray.2.len = c.len := by
  unfold endArray
  split
  · rfl
  · exact endLine_len c _ _

theorem step_len (h : step ch c = (o, d)) (ho : o ≠ some .startNull) : d.len = c.len + 1 := by
  cases step_takes h with
  | null => exact absurd rfl ho
  | noBody => exact endArray_len _
  | lineEnd => exact endLine_len _ _ _
  | _ => rfl

theorem closeLine_pos {need' : Nat} {outer' : List Nat} (hn : 0 < need) (hm : need < 2 ^ 31)
    (ho : ∀ n ∈ outer, 0 < n ∧ n < 2 ^ 31) (h : closeLine need outer = some (need', outer')) :
    0 < need' ∧ need' < 2 ^ 31 ∧ ∀ n ∈ outer', 0 < n ∧ n < 2 ^ 31 := by
  induction outer generalizing need with
  | nil =>
    unfold closeLine at h
    split_ifs at h with h1
    cases h
    exact ⟨by omega, by omega, ho⟩
  | cons n outer ih =>
    unfold closeLine at h
    split_ifs at h with h1
    · exact ih (ho n (by simp)).1 (ho n (by simp)).2 (fun k hk => ho k (by simp [hk])) h
    · cases h
      exact ⟨by omega, by omega, ho⟩

theorem endLine_fine (hn : 0 < need) (hm : need < 2 ^ 31) (ho : ∀ n ∈ outer, 0 < n ∧ n < 2 ^ 31)
    (h : (c.endLine need outer).1 = none) : (c.endLine need outer).2.Fine := by
  unfold endLine at h ⊢
  split
  · rename_i hc
    rw [hc] at h
    cases h
  · rename_i hc
    obtain ⟨h1, h2, h3⟩ := closeLine_pos hn hm ho hc
    exact ⟨fun _ => h1, h2, h3, nofun⟩

theorem endArray_fine (ho : ∀ n ∈ c.outer, 0 < n ∧ n < 2 ^ 31) (h : c.endArray.1 = none) : c.endArray.2.Fine := by
  unfold endArray at h ⊢
  split
  · rename_i hc
    rw [hc] at h
    cases h
  · rename_i n outer hc
    rw [hc] at h ho
    exact endLine_fine (ho n (by simp)).1 (ho n (by simp)).2 (fun k hk => ho k (by simp [hk])) h

/-- The reader stays in range. -/
theorem Fine.step (hf : c.Fine) (hfit : Fit ch c) (h : step ch c = (none, d)) : d.Fine := by
  obtain ⟨need, max, outer, start⟩ := hf
  generalize ho : (none : Option ParseRet) = o at h
  cases step_takes h with
  | null | fail => cases ho
  | noBody => exact endArray_fine outer ho.symm
  | lineEnd hs => exact endLine_fine (need (by simp [show c.state = _ from hs, Layer.inLine])) max outer ho.symm
  | text | int | ping | bulk => exact ⟨fun _ => Nat.one_pos, by simp, outer, (by simp)⟩
  | body hs hc hn => exact ⟨fun _ => Nat.pos_of_ne_zero hn, max, outer, (by simp)⟩
  | lineArray hs hc =>
    refine ⟨(by rintro ⟨⟩), by simp, fun n hn => ?_, (by rintro ⟨⟩)⟩
    rcases mem_cons.mp hn with rfl | hn
    · exact ⟨need (by simp [show c.state = _ from hs, Layer.inLine]), max⟩
    · exact outer n hn
  | array | countZero => exact ⟨(by rintro ⟨⟩), by simp, outer, (by rintro ⟨⟩)⟩
  | countCr | countSub | zeroCr | nagOne => exact ⟨(by rintro ⟨⟩), max, outer, (by rintro ⟨⟩)⟩
  | count hs hc =>
    replace hs : c.state = _ := hs
    exact ⟨by simp [hs, Layer.inLine], hfit.2.2 hs hc, outer, by simp [hs]⟩
  | lineText hs | lineInt hs | lineBulk hs | strChar hs | strCr hs | arg hs | argCr hs | argSub hs | argLf hs
  | skip hs | bulkCr hs | bulkChar hs | emptyOne hs | emptyCr hs | argZeroCr hs =>
    replace hs : c.state = _ := hs
    exact ⟨fun _ => need (by rw [hs]; rfl), max, outer, by simp [hs]⟩

/-! ### The reader in an array -/

/-- The reader of a part of an array that needs `n` more lines, in which `k` bytes have been read before. -/
def within (c : Scan) (n k : Nat) : Scan := { c with outer := c.outer ++ [n], len := c.len + k }

/-- What a byte of the part means for the whole. -/
def withinRet (n k : Nat) : Option ParseRet × Scan → Option ParseRet × Scan
  | (some .ok, d) => (d.within n k).endLine n []
  | (o, d) => (o, d.within n k)

theorem closeLine_append (need : Nat) (outer : List Nat) (n : Nat) : closeLine need (outer ++ [n]) =
    match closeLine need outer with
    | none => closeLine n []
    | some (need, outer) => some (need, outer ++ [n]) := by
  induction outer generalizing need with
  | nil =>
    simp only [nil_append, closeLine]
    split_ifs <;> rfl
  | cons k outer ih =>
    by_cases h : need = 1
    · have h1 : closeLine need (k :: (outer ++ [n])) = closeLine k (outer ++ [n]) := if_pos h
      have h2 : closeLine need (k :: outer) = closeLine k outer := if_pos h
      rw [cons_append, h1, h2, ih]
    · have h1 : closeLine need (k :: (outer ++ [n])) = some (need - 1, k :: (outer ++ [n])) := if_neg h
      have h2 : closeLine need (k :: outer) = some (need - 1, k :: outer) := if_neg h
      rw [cons_append, h1, h2]
      rfl

theorem endLine_within (c : Scan) (need n k : Nat) (outer : List Nat) :
    (c.within n k).endLine need (outer ++ [n]) = withinRet n k (c.endLine need outer) := by
  unfold endLine
  rw [closeLine_append]
  cases closeLine need outer with
  | none =>
    unfold withinRet endLine
    cases closeLine n [] <;> rfl
  | some r => rfl

theorem endArray_within (c : Scan) (n k : Nat) : (c.within n k).endArray = withinRet n k c.endArray := by
  obtain ⟨state, need, arg, outer, kind, len⟩ := c
  cases outer with
  | nil =>
    unfold endArray withinRet endLine
    dsimp only [within, nil_append]
  | cons k outer => exact endLine_within _ _ _ _ outer

theorem step_within (hs : c.state ≠ .start) (n k : Nat) : step ch (c.within n k) = withinRet n k (step ch c) := by
  have hw : { c.within n k with len := (c.within n k).len + 1 } = ({ c with len := c.len + 1 } : Scan).within n k := by
    simp only [within, Nat.add_right_comm]
  unfold step
  rw [hw]
  generalize hd : ({ c with len := c.len + 1 } : Scan) = d
  replace hs : d.state ≠ .start := by rw [← hd]; exact hs
  unfold read
  have h1 : (d.within n k).state = d.state := rfl
  have h2 : (d.within n k).need = d.need := rfl
  have h3 : (d.within n k).arg = d.arg := rfl
  have h4 : (d.within n k).outer = d.outer ++ [n] := rfl
  simp only [h1, h2, h3, h4]
  cases hst : d.state
  case start => exact absurd hst hs
  case inNextLayer => rfl
  case msgEnd => rfl
  case strCrlf =>
    dsimp only
    split_ifs
    · exact endLine_within d _ n k d.outer
    · rfl
  case nargCrlf =>
    dsimp only
    split_ifs
    · exact endArray_within d n k
    · rfl
    · rfl
  all_goals
    dsimp only
    split_ifs
    all_goals rfl

end

end Scan

namespace Layer

section

variable {rd : Int → UInt8} {ch : UInt8} {pr pr' : Option MsgResults} {m m' : Layer} {next next' : List Layer}
  {o : Option ParseRet} {c d : Scan}

theorem needs_of_ne (h : m.nowState ≠ .inNextLayer) : m.needs next = [] := by
  cases next with
  | nil => rfl
  | cons l next => exact if_neg h

/-- The parser and the reader agree on a byte. -/
structure Agrees (r : Option ParseRet × Option MsgResults × Layer × List Layer) (q : Option ParseRet × Scan) :
    Prop where
  ret : r.1 = q.1
  follows : r.1 = none → q.2.Fine → Follows r.2.2.1 r.2.2.2 q.2
  len : r.1 = some .ok → r.2.2.1.iLen = q.2.len

theorem Agrees.here (hne : m'.nowState ≠ .inNextLayer) (hs : m'.nowState = d.state)
    (hn : d.state ≠ .start → m'.iNeedArgNum = d.need) (ha : Scan.inBulk d.state = true → m'.iArgLen = d.arg)
    (ho : d.outer = []) (hl : m'.iLen = d.len) : Agrees (none, pr, m', next) (none, d) := by
  refine ⟨rfl, fun _ hf => ⟨hf, ?_, ?_, ?_, ?_, ?_⟩, nofun⟩
  · rw [active_of_ne hne]; exact hs
  · rw [active_of_ne hne]; exact hn
  · rw [active_of_ne hne]; exact ha
  · rw [needs_of_ne hne, ho]; rfl
  · rw [size_of_ne hne]; exact hl

theorem Agrees.fail {iRet : ParseRet} (h : iRet ≠ .ok) : Agrees (some iRet, pr, m', next) (some iRet, d) :=
  ⟨rfl, nofun, fun h' => absurd (Option.some.inj h') h⟩

theorem agrees_endLine {n : Nat} (hn : m.iNeedArgNum = n) (hpos : 0 < n) (hmax : n < 2 ^ 31)
    (hl : m.iLen = c.len) : Agrees (m.endLine rd none next) (c.endLine n []) := by
  obtain ⟨k, b, hk⟩ := lineDone_eq rd m
  have hint : int32 (m.iNeedArgNum - 1) = (n - 1 : Nat) := by
    rw [hn, int32_eq (by omega) (by omega)]
    omega
  unfold endLine addResult Scan.endLine Scan.closeLine
  rw [hk]
  dsimp only
  rw [hint]
  by_cases h1 : n = 1
  · rw [if_pos h1, if_pos (by omega)]
    exact ⟨rfl, nofun, fun _ => hl⟩
  · rw [if_neg h1, if_neg (by omega)]
    exact .here nofun rfl (fun _ => rfl) nofun rfl hl

/-- A parser that reads no nested array is in the state `c` of the reader, and can count one more byte. -/
structure Here (m : Layer) (c : Scan) : Prop where
  sane : m.Sane
  fine : c.Fine
  state : m.nowState = c.state
  ne : c.state ≠ .inNextLayer
  need : c.state ≠ .start → m.iNeedArgNum = c.need
  arg : Scan.inBulk c.state = true → m.iArgLen = c.arg
  outer : c.outer = []
  iLen : m.iLen = c.len
  len : int32 (m.iLen + 1) = (c.len + 1 : Nat)

variable {sub : Option ParseRet × Layer × List Layer} {st : MsgState}

theorem Here.reading (h : Here m c) : m.bReadingLine = inLine c.state := by rw [h.sane.reading, h.state]

/-- A byte outside of a line. -/
theorem Here.layerByte_parse (h : Here m c) (hc : c.state = st) (hl : inLine st = false) :
    m.layerByte rd ch none next sub = (((m.stepForward 1).parseSwitch m.szNowPos ch).1, none,
      ((m.stepForward 1).parseSwitch m.szNowPos ch).2, next) := by
  unfold layerByte
  rw [if_neg (by rw [h.reading, hc, hl]; simp)]

/-- A byte in a line. -/
theorem Here.layerByte_line (h : Here m c) (hc : c.state = st) (hl : inLine st = true)
    (hs : st ≠ .readingLine ∨ ch ≠ Byte.star) : m.layerByte rd ch none next sub =
      match m.readSwitch m.bKeyLine m.szNowPos ch with
      | (.more, m) => (none, none, m, next)
      | (.bulk, m) => (none, none, m, next)
      | (.stop, m) => (none, none, m, next)
      | (.lineEnd, m) => m.endLine rd none next
      | (.fail, m) => (some .error, none, m, next) := by
  have h1 : m.nowState ≠ .inNextLayer := h.state ▸ h.ne
  have h2 : ¬ (m.nowState = .readingLine ∧ ch = star) := by
    rw [h.state, hc]
    tauto
  unfold layerByte lineByte
  rw [if_pos (by rw [h.reading, hc, hl]), if_neg h1, if_neg h2]
  rcases m.readSwitch m.bKeyLine m.szNowPos ch with ⟨_ | _ | _ | _ | _, _⟩ <;> rfl

theorem agrees_start (h : Here m c) (hc : c.state = .start) :
    Agrees (m.layerByte rd ch none next sub) (Scan.step ch c) := by
  have hm : (m.stepForward 1).nowState = .start := h.state.trans hc
  have ho := h.outer
  have hl := h.len
  rw [h.layerByte_parse hc rfl]
  simp only [Scan.step, Scan.read, hc, parseSwitch, hm]
  by_cases h1 : ch = Byte.plus ∨ ch = Byte.colon ∨ ch = Byte.pingB
  · rw [if_pos h1]
    rcases h1 with rfl | rfl | rfl
    · exact .here nofun rfl (fun _ => rfl) nofun ho hl
    · exact .here nofun rfl (fun _ => rfl) nofun ho hl
    · exact .here nofun rfl (fun _ => rfl) nofun ho hl
  have h1p : ch ≠ plus := fun h => h1 (.inl h)
  have h1c : ch ≠ Byte.colon := fun h => h1 (.inr (.inl h))
  have h1b : ch ≠ pingB := fun h => h1 (.inr (.inr h))
  split_ifs
  · exact .here nofun rfl (fun _ => rfl) nofun ho hl
  · exact .here nofun rfl (fun _ => rfl) (fun _ => rfl) ho hl
  · exact .here nofun rfl (fun _ => rfl) nofun ho hl
  · exact .fail nofun
  · exact .fail nofun

theorem agrees_count (h : Here m c) (hc : c.state = .narg) (hfit : Scan.Fit ch c) :
    Agrees (m.layerByte rd ch none next sub) (Scan.step ch c) := by
  have hm : (m.stepForward 1).nowState = .narg := h.state.trans hc
  have ho := h.outer
  have hl := h.len
  have hn : (m.stepForward 1).iNeedArgNum = c.need := h.need (by rw [hc]; simp)
  rw [h.layerByte_parse hc rfl]
  simp only [Scan.step, Scan.read, hc, parseSwitch, hm]
  by_cases h1 : isDigit ch = true
  · rw [if_pos h1, if_pos h1]
    have hint : int32 (c.need * 10 + digit ch) = (c.need * 10 + Resp.digitNat ch : Nat) := by
      have := hfit.2.2 hc h1
      rw [digit_eq h1, int32_eq (by omega) (by omega)]
      omega
    rw [hn, hint]
    by_cases hz : c.need * 10 + Resp.digitNat ch = 0
    · rw [if_pos hz, if_pos (by omega)]
      exact .here nofun rfl (fun _ => rfl) nofun ho hl
    · rw [if_neg hz, if_neg (by omega)]
      exact .here nofun rfl (fun _ => rfl) nofun ho hl
  split_ifs
  · exact .here nofun rfl (fun _ => hn) nofun ho hl
  · exact .here nofun rfl (fun _ => hn) nofun ho hl
  · exact .fail nofun

theorem agrees_countEnd (h : Here m c) (hc : c.state = .nargZero ∨ c.state = .nargNagOne ∨ c.state = .nargCrlf) :
    Agrees (m.layerByte rd ch none next sub) (Scan.step ch c) := by
  have ho := h.outer
  have hl := h.len
  have hn : (m.stepForward 1).iNeedArgNum = c.need := h.need (by rcases hc with hc | hc | hc <;> simp [hc])
  rcases hc with hc | hc | hc
  · have hm : (m.stepForward 1).nowState = .nargZero := h.state.trans hc
    rw [h.layerByte_parse hc rfl]
    simp only [Scan.step, Scan.read, hc, parseSwitch, hm]
    split_ifs
    · exact .here nofun rfl (fun _ => hn) nofun ho hl
    · exact .fail nofun
  · have hm : (m.stepForward 1).nowState = .nargNagOne := h.state.trans hc
    rw [h.layerByte_parse hc rfl]
    simp only [Scan.step, Scan.read, hc, parseSwitch, hm]
    split_ifs
    · exact .here nofun rfl (fun _ => hn) nofun ho hl
    · exact .fail nofun
  · have hm : (m.stepForward 1).nowState = .nargCrlf := h.state.trans hc
    rw [h.layerByte_parse hc rfl]
    simp only [Scan.step, Scan.read, hc, parseSwitch, hm, Scan.endArray, ho]
    by_cases h1 : ch = lf
    · rw [if_pos h1, if_pos h1, hn]
      by_cases h2 : c.need = 0
      · rw [if_pos h2, if_pos (by omega)]
        exact ⟨rfl, nofun, fun _ => hl⟩
      · rw [if_neg h2, if_neg (by omega)]
        exact .here nofun rfl (fun _ => rfl) nofun rfl hl
    · rw [if_neg h1, if_neg h1]
      exact .fail nofun

theorem agrees_readingLine (h : Here m c) (hc : c.state = .readingLine) :
    Agrees (m.layerByte rd ch none next sub) (Scan.step ch c) := by
  have hm : m.nowState = .readingLine := h.state.trans hc
  have ho := h.outer
  have hl := h.len
  have hn : m.iNeedArgNum = c.need := h.need (by rw [hc]; simp)
  by_cases hstar : ch = star
  · subst hstar
    have hq : Scan.step star c = (none,
        { c with state := .narg, need := 0, arg := 0, outer := c.need :: c.outer, len := c.len + 1 }) := by
      simp only [Scan.step, Scan.read, hc]
      rfl
    have hb : m.layerByte rd star none next sub = (none, none, m.enterNext, [m.begunNext]) := by
      unfold layerByte lineByte
      rw [if_pos (by rw [h.reading, hc]; rfl), if_neg (by rw [hm]; simp), if_pos ⟨hm, rfl⟩]
      rfl
    rw [hq, hb]
    refine ⟨rfl, fun _ hf => ⟨hf, rfl, fun _ => rfl, (by rintro ⟨⟩), ?_, ?_⟩, (by rintro ⟨⟩)⟩
    · simp [needs, enterNext, hn, ho]
    · have := h.iLen
      simp [size, enterNext, begunNext, this]
  rw [h.layerByte_line hc rfl (.inr hstar)]
  simp only [Scan.step, Scan.read, hc, readSwitch, hm]
  by_cases h1 : ch = Byte.plus ∨ ch = Byte.sub ∨ ch = Byte.colon
  · rw [if_pos h1]
    obtain ⟨k, hk⟩ := startStr_eq m m.bKeyLine m.szNowPos
    rw [hk]
    rcases h1 with rfl | rfl | rfl
    · exact .here (by rintro ⟨⟩) rfl (fun _ => hn) (by rintro ⟨⟩) ho hl
    · exact .here (by rintro ⟨⟩) rfl (fun _ => hn) (by rintro ⟨⟩) ho hl
    · exact .here (by rintro ⟨⟩) rfl (fun _ => hn) (by rintro ⟨⟩) ho hl
  rw [if_neg h1]
  have h1p : ch ≠ plus := fun h => h1 (.inl h)
  have h1c : ch ≠ Byte.sub := fun h => h1 (.inr (.inl h))
  have h1b : ch ≠ Byte.colon := fun h => h1 (.inr (.inr h))
  rw [if_neg h1p, if_neg h1c, if_neg h1b]
  by_cases h2 : ch = usd
  · rw [if_pos h2, if_pos h2]
    exact .here (by rintro ⟨⟩) rfl (fun _ => hn) (fun _ => rfl) ho hl
  · rw [if_neg h2, if_neg h2, if_neg hstar]
    exact .fail (by simp)

theorem agrees_str (h : Here m c) (hc : c.state = .str) :
    Agrees (m.layerByte rd ch none next sub) (Scan.step ch c) := by
  have hm : m.nowState = .str := h.state.trans hc
  have ho := h.outer
  have hl := h.len
  have hn : m.iNeedArgNum = c.need := h.need (by rw [hc]; simp)
  rw [h.layerByte_line hc rfl (.inl nofun)]
  simp only [Scan.step, Scan.read, hc, readSwitch, hm]
  split_ifs
  · exact .here nofun rfl (fun _ => hn) nofun ho hl
  · exact .here (by simp [stepForward, hm]) hm (fun _ => hn) nofun ho hl

theorem endStr_iNeedArgNum (m : Layer) (p : Int) : (m.endStr p).iNeedArgNum = m.iNeedArgNum := by
  obtain ⟨n, hn⟩ := endStr_eq m p
  rw [hn]

theorem endStr_iLen (m : Layer) (p : Int) : (m.endStr p).iLen = m.iLen := by
  obtain ⟨n, hn⟩ := endStr_eq m p
  rw [hn]

theorem agrees_strCrlf (h : Here m c) (hc : c.state = .strCrlf) :
    Agrees (m.layerByte rd ch none next sub) (Scan.step ch c) := by
  have hm : m.nowState = .strCrlf := h.state.trans hc
  have ho := h.outer
  have hl := h.len
  have hn : m.iNeedArgNum = c.need := h.need (by rw [hc]; simp)
  rw [h.layerByte_line hc rfl (.inl nofun)]
  simp only [Scan.step, Scan.read, hc, readSwitch, hm]
  split_ifs
  · rw [ho]
    refine agrees_endLine ?_ (h.fine.need (by rw [hc]; rfl)) h.fine.max ?_
    · rw [endStr_iNeedArgNum]; exact hn
    · rw [endStr_iLen]; exact hl
  · exact .fail nofun

theorem agrees_usdNum (h : Here m c) (hc : c.state = .usdNum) (hfit : Scan.Fit ch c) :
    Agrees (m.layerByte rd ch none next sub) (Scan.step ch c) := by
  have hm : m.nowState = .usdNum := h.state.trans hc
  have ho := h.outer
  have hl := h.len
  have hn : m.iNeedArgNum = c.need := h.need (by rw [hc]; simp)
  have ha : m.iArgLen = c.arg := h.arg (by rw [hc]; rfl)
  rw [h.layerByte_line hc rfl (.inl (by simp))]
  simp only [Scan.step, Scan.read, hc, readSwitch, hm]
  by_cases h1 : isDigit ch = true
  · rw [if_pos h1, if_pos h1]
    have hint : int32 (m.iArgLen * 10 + digit ch) = (c.arg * 10 + Resp.digitNat ch : Nat) := by
      have := hfit.2.1 hc h1
      rw [ha, digit_eq h1, int32_eq (by omega) (by omega)]
      omega
    exact .here (by simp [stepForward, hm]) hm (fun _ => hn) (fun _ => hint) ho hl
  rw [if_neg h1, if_neg h1]
  by_cases h2 : ch = cr
  · rw [if_pos h2, if_pos h2]
    exact .here (by simp) rfl (fun _ => hn) (fun _ => ha) ho hl
  rw [if_neg h2, if_neg h2]
  by_cases h3 : ch = Byte.sub
  · rw [if_pos h3, if_pos h3]
    by_cases h4 : c.arg = 0
    · rw [if_pos h4, if_neg (by simp [ha, h4])]
      exact .here (by rintro ⟨⟩) rfl (fun _ => hn) (by rintro ⟨⟩) ho hl
    · rw [if_neg h4, if_pos (by simp [ha, h4])]
      exact .fail (by simp)
  · rw [if_neg h3, if_neg h3]
    exact .fail (by simp)

theorem agrees_usdNumCrlf (h : Here m c) (hc : c.state = .usdNumCrlf) :
    Agrees (m.layerByte rd ch none next sub) (Scan.step ch c) := by
  have hm : m.nowState = .usdNumCrlf := h.state.trans hc
  have ho := h.outer
  have hl := h.len
  have hn : m.iNeedArgNum = c.need := h.need (by rw [hc]; simp)
  have ha : m.iArgLen = c.arg := h.arg (by rw [hc]; rfl)
  rw [h.layerByte_line hc rfl (.inl nofun)]
  simp only [Scan.step, Scan.read, hc, readSwitch, hm]
  split_ifs
  · exact .here nofun rfl (fun _ => hn) (fun _ => ha) ho hl
  · exact .here (by simp [stepForward, hm]) (by simp [stepForward, hm]) (fun _ => hn) (fun _ => ha) ho hl

theorem agrees_usdStr (h : Here m c) (hc : c.state = .usdStr) :
    Agrees (m.layerByte rd ch none next sub) (Scan.step ch c) := by
  have hm : m.nowState = .usdStr := h.state.trans hc
  have ho := h.outer
  have hl := h.len
  have hn : m.iNeedArgNum = c.need := h.need (by rw [hc]; simp)
  have ha : m.iArgLen = c.arg := h.arg (by rw [hc]; rfl)
  have hmax := h.sane.argMax
  rw [h.layerByte_line hc rfl (.inl (by simp))]
  obtain ⟨k, hk⟩ := keyStart_eq m m.bKeyLine m.szNowPos
  obtain ⟨q, n, hq⟩ := cmdInfo_eq (m.keyStart m.bKeyLine m.szNowPos) m.szNowPos
  simp only [Scan.step, Scan.read, hc, readSwitch, hm]
  rw [hq, hk]
  by_cases h1 : c.arg = 0
  · rw [if_pos h1, if_pos (by simp [stepForward, ha, h1])]
    split_ifs
    · exact .here (by rintro ⟨⟩) rfl (fun _ => hn) (by rintro ⟨⟩) ho hl
    · exact .fail (by simp)
  · rw [if_neg h1, if_neg (by simp [stepForward, ha, h1])]
    refine .here (by simp [stepForward, hm]) hm (fun _ => hn) (fun _ => ?_) ho hl
    simp only [stepForward, ha]
    rw [int32_eq (by omega) (by omega)]
    omega

theorem agrees_usdEmpty (h : Here m c)
    (hc : c.state = .usdEmpty ∨ c.state = .usdEmptyOne ∨ c.state = .usdZero) :
    Agrees (m.layerByte rd ch none next sub) (Scan.step ch c) := by
  have ho := h.outer
  have hl := h.len
  have hn : m.iNeedArgNum = c.need := h.need (by rcases hc with hc | hc | hc <;> simp [hc])
  rcases hc with hc | hc | hc
  · have hm : m.nowState = _ := h.state.trans hc
    rw [h.layerByte_line hc rfl (.inl nofun)]
    simp only [Scan.step, Scan.read, hc, readSwitch, hm]
    split_ifs
    · exact .here nofun rfl (fun _ => hn) nofun ho hl
    · exact .fail nofun
  · have hm : m.nowState = _ := h.state.trans hc
    rw [h.layerByte_line hc rfl (.inl nofun)]
    simp only [Scan.step, Scan.read, hc, readSwitch, hm]
    split_ifs
    · exact .here nofun rfl (fun _ => hn) nofun ho hl
    · exact .fail nofun
  · have hm : m.nowState = _ := h.state.trans hc
    rw [h.layerByte_line hc rfl (.inl nofun)]
    simp only [Scan.step, Scan.read, hc, readSwitch, hm]
    split_ifs
    · exact .here nofun rfl (fun _ => hn) nofun ho hl
    · exact .fail nofun

theorem agrees_here (hs : m.Sane) (hne : m.nowState ≠ .inNextLayer) (hf : Follows m next c)
    (hfit : Scan.Fit ch c) : Agrees (m.layerByte rd ch none next sub) (Scan.step ch c) := by
  obtain ⟨fine, state, need, arg, outer, len⟩ := hf
  rw [active_of_ne hne] at state need arg
  rw [needs_of_ne hne] at outer
  rw [size_of_ne hne] at len
  have hmax := hfit.1
  have h : Here m c :=
    ⟨hs, fine, state, state ▸ hne, need, arg, by simpa using outer.symm, len, by
      rw [len, int32_eq (by omega) (by omega)]; omega⟩
  cases hc : c.state with
  | start => exact agrees_start h hc
  | narg => exact agrees_count h hc hfit
  | nargNagOne => exact agrees_countEnd h (.inr (.inl hc))
  | nargZero => exact agrees_countEnd h (.inl hc)
  | nargCrlf => exact agrees_countEnd h (.inr (.inr hc))
  | readingLine => exact agrees_readingLine h hc
  | inNextLayer => exact absurd hc h.ne
  | usdNum => exact agrees_usdNum h hc hfit
  | usdZero => exact agrees_usdEmpty h (.inr (.inr hc))
  | usdNumCrlf => exact agrees_usdNumCrlf h hc
  | usdStr => exact agrees_usdStr h hc
  | usdEmpty => exact agrees_usdEmpty h (.inl hc)
  | usdEmptyOne => exact agrees_usdEmpty h (.inr (.inl hc))
  | str => exact agrees_str h hc
  | strCrlf => exact agrees_strCrlf h hc
  | msgEnd => exact absurd (state.trans hc) hs.notEnd

theorem active_begun (hr : m.Ready next) (hb : m.nowState ≠ .start) : (m.active next).nowState ≠ .start := by
  induction next generalizing m with
  | nil => exact hb
  | cons l next ih =>
    unfold active
    split_ifs with hn
    · exact ih (hr.2 hn).2 (hr.2 hn).1.begun
    · exact hb

/-- The reader of the part that the next layer reads. -/
theorem follows_inner {l : Layer} (hs : m.Sane) (hn : m.nowState = .inNextLayer) (hr : l.Ready next)
    (hb : l.nowState ≠ .start) (hf : Follows m (l :: next) c) :
    ∃ (c0 : Scan) (n k : Nat), c = c0.within n k ∧ Follows l next c0 ∧ m.iNeedArgNum = n ∧ m.iLen = k ∧
      0 < n ∧ n < 2 ^ 31 ∧ c0.state ≠ .start := by
  obtain ⟨fine, state, need, arg, outer, len⟩ := hf
  simp only [active, needs, size, if_pos hn] at state need arg outer len
  have hst : c.state ≠ .start := state ▸ active_begun hr hb
  have hl := l.size_nonneg hr
  have hm := hs.len
  rcases eq_nil_or_concat c.outer with ho | ⟨out, n, ho⟩
  · rw [ho] at outer
    simp at outer
  · rw [concat_eq_append] at ho
    rw [ho, map_append] at outer
    obtain ⟨h1, h2⟩ := append_inj' outer rfl
    have hno := fine.outer n (by rw [ho]; simp)
    refine ⟨{ c with outer := out, len := (l.size next).toNat }, n, m.iLen.toNat, ?_, ?_, ?_, by omega, hno.1,
      hno.2, hst⟩
    · unfold Scan.within
      rw [← ho]
      have hlen : c.len = (l.size next).toNat + m.iLen.toNat := by omega
      rw [← hlen]
    · refine ⟨⟨fine.need, fine.max, fun k hk => fine.outer k (by rw [ho]; simp [hk]), fun h => absurd h hst⟩,
        state, need, arg, h1, ?_⟩
      exact (Int.toNat_of_nonneg hl).symm
    · simpa using h2

/-- The parser and the reader agree on every byte. -/
theorem byte_agrees (hr : m.Ready next) (hf : Follows m next c) (hfit : Scan.Fit ch c) :
    Agrees (m.byte rd ch none next) (Scan.step ch c) := by
  induction next generalizing m c with
  | nil => exact agrees_here hr.1 hr.2 hf hfit
  | cons l next ih =>
    by_cases hn : m.nowState = .inNextLayer
    · obtain ⟨hs, hr⟩ := hr
      obtain ⟨hnest, hr⟩ := hr hn
      obtain ⟨c0, n, k, rfl, hf0, hneed, hlen, hpos, hmax, hst⟩ := follows_inner hs hn hr hnest.begun hf
      have hfit0 : Scan.Fit ch c0 := by
        obtain ⟨h1, h2⟩ := hfit
        refine ⟨?_, h2⟩
        simp only [Scan.within] at h1
        omega
      have hag := ih hr hf0 hfit0
      have hread : m.bReadingLine = true := by rw [hs.reading, hn]; rfl
      rw [Scan.step_within hst]
      unfold byte layerByte lineByte
      simp only [if_pos hread, if_pos hn]
      rcases hb : l.byte rd ch none next with ⟨o1, pr1, l1, next1⟩
      rcases hq : Scan.step ch c0 with ⟨o2, d⟩
      rw [hb, hq] at hag
      obtain ⟨rfl, hfol, hend⟩ := hag
      rcases o1 with _ | iRet
      · have hd := hf0.fine.step hfit0 hq
        obtain ⟨-, state, need, arg, outer, len⟩ := hfol rfl hd
        refine ⟨rfl, fun _ hfine => ⟨hfine, ?_, ?_, ?_, ?_, ?_⟩, (by simp)⟩
        · simp only [active, if_pos hn]; exact state
        · simp only [active, if_pos hn]; exact need
        · simp only [active, if_pos hn]; exact arg
        · simp only [needs, if_pos hn]
          rw [outer, hneed]
          simp [Scan.withinRet, Scan.within]
        · simp only [size, if_pos hn]
          rw [len, hlen]
          simp [Scan.withinRet, Scan.within, add_comm]
      · cases iRet with
        | ok =>
          refine agrees_endLine hneed hpos hmax ?_
          have h1 := hend rfl
          have h2 := Scan.step_len hq (by simp)
          have h3 := hfit.1
          simp only [Scan.within] at h1 h3 ⊢
          simp only [nextLayerDone]
          rw [int32_eq (by omega) (by omega)]
          omega
        | error | startNull => exact .fail (by simp)
    · exact agrees_here hr.1 hn hf hfit

end

end Layer

end RedisProxy
