import RedisProxy.Proofs.ParserCompleteProofs

/-!
# Requests without nested arrays

A request is an array of bulk strings, so the parser of the outermost array reads all of it. `flatByte` is what a
byte does to that parser alone; `feeds_request` says what all bytes of a request do to it.
-/

namespace RedisProxy

open Lib Resp List Option Byte

namespace Layer

/-- One byte of the parser `m` alone. An array in a line is an error here. -/
def flatByte (rd : Int → UInt8) (ch : UInt8) (s : Option MsgResults × Layer) :
    Option ParseRet × Option MsgResults × Layer :=
  if s.2.bReadingLine then
    match s.2.readSwitch s.2.bKeyLine s.2.szNowPos ch with
    | (.more, m) => (none, s.1, m)
    | (.bulk, m) => (none, s.1, m)
    | (.stop, m) => (none, s.1, m)
    | (.lineEnd, m) => ((m.endLine rd s.1 []).1, (m.endLine rd s.1 []).2.1, (m.endLine rd s.1 []).2.2.1)
    | (.fail, m) => (some .error, s.1, m)
  else
    (((s.2.stepForward 1).parseSwitch s.2.szNowPos ch).1, s.1, ((s.2.stepForward 1).parseSwitch s.2.szNowPos ch).2)

section

variable {rd : Int → UInt8} {ch : UInt8} {pr pr' : Option MsgResults} {m m' : Layer} {next : List Layer}
  {o : Option ParseRet} {us : List UInt8} {p : Int}

theorem endLine_next (rd : Int → UInt8) (pr : Option MsgResults) (m : Layer) (next : List Layer) :
    m.endLine rd pr next = ((m.endLine rd pr []).1, (m.endLine rd pr []).2.1, (m.endLine rd pr []).2.2.1, next) := by
  unfold endLine
  split
  · rfl
  · dsimp only
    split_ifs <;> rfl

/-- Without an array in a line, a byte goes to the parser alone. -/
theorem step_of_flat (next : List Layer) (h : flatByte rd ch (pr, m) = (o, pr', m')) (ho : o ≠ some .error) :
    Parse.step rd ch ⟨pr, m, next⟩ = (o, ⟨pr', m', next⟩) := by
  unfold Parse.step
  rw [byte_eq]
  unfold flatByte at h
  unfold layerByte
  split_ifs at h ⊢ with hr
  · -- a nested array fails in the `switch`
    have hne : m.nowState ≠ .inNextLayer := by
      intro hn
      simp only [readSwitch, hn] at h
      cases h
      exact ho rfl
    have hstar : ¬ (m.nowState = .readingLine ∧ ch = star) := by
      rintro ⟨hs, rfl⟩
      simp only [readSwitch, hs] at h
      cases h
      exact ho rfl
    unfold lineByte
    rw [if_neg hne, if_neg hstar]
    rcases hsw : m.readSwitch m.bKeyLine m.szNowPos ch with ⟨ret, m1⟩
    rw [hsw] at h
    cases ret with
    | more | bulk | stop => cases h; rfl
    | lineEnd =>
      obtain ⟨rfl, rfl, rfl⟩ := h
      dsimp only
      rw [endLine_next]
    | fail =>
      cases h
      exact absurd rfl ho
  · simp only [Prod.mk.injEq] at h
    obtain ⟨rfl, rfl, rfl⟩ := h
    rfl

theorem feeds_of_flat (next : List Layer) (h : feeds (flatByte rd) us (pr, m) = (o, (pr', m'), []))
    (ho : o ≠ some .error) : feeds (Parse.step rd) us ⟨pr, m, next⟩ = (o, ⟨pr', m', next⟩, []) := by
  induction us generalizing pr m with
  | nil => cases h; rfl
  | cons ch us ih =>
    rcases hs : flatByte rd ch (pr, m) with ⟨_ | e, pr1, m1⟩
    · rw [feeds_cons_none hs] at h
      rw [feeds_cons_none (step_of_flat next hs nofun)]
      exact ih h
    · rw [feeds_cons_some hs] at h
      cases h
      rw [feeds_cons_some (step_of_flat next hs ho)]

/-! ### A bulk string -/

/-- `k` bytes further. -/
def ahead (m : Layer) (k : Int) : Layer := { m with szNowPos := m.szNowPos + k, iLen := m.iLen + k }

theorem stepForward_eq (hl : 0 ≤ m.iLen) (hlt : m.iLen + 1 < 2 ^ 31) : m.stepForward 1 = m.ahead 1 := by
  unfold stepForward ahead
  rw [int32_eq (by omega) hlt]

/-- The number that `n` and the digits after it stand for. -/
def digitsFrom (n : Nat) (ds : List UInt8) : Nat := ds.foldl (fun n d => n * 10 + digitNat d) n

/-- The digits of a length. -/
theorem feeds_length (rd : Int → UInt8) (pr : Option MsgResults) (hs : m.nowState = .usdNum) (hr : m.bReadingLine = true)
    (hd : ∀ d ∈ us, Byte.isDigit d = true) (n : Nat) (hn : m.iArgLen = n) (hmax : digitsFrom n us < 2 ^ 31)
    (hl : 0 ≤ m.iLen) (hlt : m.iLen + us.length < 2 ^ 31) :
    feeds (flatByte rd) us (pr, m) = (none, (pr, { m.ahead us.length with iArgLen := digitsFrom n us }), []) := by
  induction us generalizing m n with
  | nil =>
    simp only [length_nil, ahead, digitsFrom, foldl_nil, ← hn]
    simp [feeds]
  | cons ch us ih =>
    simp only [mem_cons, forall_eq_or_imp, length_cons] at hd hlt
    have hmax' : digitsFrom (n * 10 + digitNat ch) us < 2 ^ 31 := hmax
    have hle := lt_of_le_of_lt (Scan.le_foldl_digits (n * 10 + digitNat ch) us) hmax'
    have h1 : flatByte rd ch (pr, m) = (none, pr, { m.ahead 1 with iArgLen := (n * 10 + digitNat ch : Nat) }) := by
      unfold flatByte
      simp only [hr, if_true, readSwitch, hs, hd.1]
      rw [stepForward_eq hl (by omega)]
      simp only [ahead, hn, digit_eq hd.1]
      rw [int32_eq (by omega) (by push_cast at hle; omega)]
      push_cast
      rfl
    have h2 := ih (m := { m.ahead 1 with iArgLen := (n * 10 + digitNat ch : Nat) }) hs hr hd.2 _ rfl hmax'
      (by simp only [ahead]; omega) (by simp only [ahead]; omega)
    rw [feeds_cons_none h1, h2]
    simp only [ahead, length_cons, add_assoc]
    rw [add_comm (1 : Int)]
    rfl

/-- The key and the command may start at `p`. -/
def marked (m : Layer) (p : Int) : Layer := (m.keyStart m.bKeyLine p).cmdInfo p

theorem marked_eq (m : Layer) (p : Int) : ∃ k c n, m.marked p = { m with szKeyStart := k, szCmd := c, iCmdLen := n } := by
  obtain ⟨k, hk⟩ := keyStart_eq m m.bKeyLine p
  obtain ⟨c, n, hc⟩ := cmdInfo_eq (m.keyStart m.bKeyLine p) p
  exact ⟨k, c, n, by unfold marked; rw [hc, hk]⟩

/-- After the first byte of a bulk string nothing more is marked. -/
theorem marked_marked {p q : Int} (hk : m'.szKeyStart = (m.marked p).szKeyStart) (hc : m'.szCmd = (m.marked p).szCmd)
    (hb : m'.bKeyLine = m.bKeyLine) : m'.marked q = m' := by
  have hcmd : m'.szCmd ≠ none := by
    rw [hc]
    unfold marked cmdInfo
    split_ifs with h
    · simp
    · exact h
  have hkey : ¬ (m'.szKeyStart = none ∧ m'.bKeyLine = true) := by
    rintro ⟨h1, h2⟩
    rw [hk] at h1
    rw [hb] at h2
    unfold marked at h1
    rw [(cmdInfo_eq _ p).choose_spec.choose_spec] at h1
    unfold keyStart at h1
    split_ifs at h1 with h3
    exact h3 ⟨h1, h2⟩
  unfold marked keyStart
  rw [if_neg hkey]
  exact if_neg hcmd

section

variable (m : Layer) (p : Int)

@[simp] theorem marked_iLen : (m.marked p).iLen = m.iLen := by
  obtain ⟨k, c, n, hk⟩ := marked_eq m p
  rw [hk]

@[simp] theorem marked_iArgLen : (m.marked p).iArgLen = m.iArgLen := by
  obtain ⟨k, c, n, hk⟩ := marked_eq m p
  rw [hk]

@[simp] theorem marked_nowState : (m.marked p).nowState = m.nowState := by
  obtain ⟨k, c, n, hk⟩ := marked_eq m p
  rw [hk]

@[simp] theorem marked_bReadingLine : (m.marked p).bReadingLine = m.bReadingLine := by
  obtain ⟨k, c, n, hk⟩ := marked_eq m p
  rw [hk]

@[simp] theorem marked_szNowPos : (m.marked p).szNowPos = m.szNowPos := by
  obtain ⟨k, c, n, hk⟩ := marked_eq m p
  rw [hk]

@[simp] theorem marked_bKeyLine : (m.marked p).bKeyLine = m.bKeyLine := by
  obtain ⟨k, c, n, hk⟩ := marked_eq m p
  rw [hk]

end

theorem readSwitch_usdStr (hs : m.nowState = .usdStr) (ch : UInt8) (hl : 0 ≤ m.iLen) (hlt : m.iLen + 1 < 2 ^ 31) :
    m.readSwitch m.bKeyLine m.szNowPos ch =
      if m.iArgLen = 0 then
        if ch = Byte.cr then (.more, { (m.marked m.szNowPos).ahead 1 with nowState := .strCrlf })
        else (.fail, (m.marked m.szNowPos).ahead 1)
      else (.more, { (m.marked m.szNowPos).ahead 1 with iArgLen := int32 (m.iArgLen - 1) }) := by
  have hmk : ((m.keyStart m.bKeyLine m.szNowPos).cmdInfo m.szNowPos).stepForward 1 = (m.marked m.szNowPos).ahead 1 :=
    stepForward_eq (m := m.marked m.szNowPos) (by simpa using hl) (by simpa using hlt)
  have ha : ((m.marked m.szNowPos).ahead 1).iArgLen = m.iArgLen := marked_iArgLen m _
  unfold readSwitch
  rw [hs]
  dsimp only
  rw [hmk, ha]

theorem flatByte_bulk (rd : Int → UInt8) (ch : UInt8) (pr : Option MsgResults) (hs : m.nowState = .usdStr)
    (hr : m.bReadingLine = true) (h1 : 0 < m.iArgLen) (h2 : m.iArgLen < 2 ^ 31) (hl : 0 ≤ m.iLen)
    (hlt : m.iLen + 1 < 2 ^ 31) :
    flatByte rd ch (pr, m) = (none, pr, { (m.marked m.szNowPos).ahead 1 with iArgLen := m.iArgLen - 1 }) := by
  unfold flatByte
  rw [if_pos hr, readSwitch_usdStr hs ch hl hlt, if_neg (by omega), int32_eq (by omega) (by omega)]

theorem flatByte_bulk_cr (rd : Int → UInt8) (pr : Option MsgResults) (hs : m.nowState = .usdStr)
    (hr : m.bReadingLine = true) (h1 : m.iArgLen = 0) (hl : 0 ≤ m.iLen) (hlt : m.iLen + 1 < 2 ^ 31) :
    flatByte rd Byte.cr (pr, m) = (none, pr, { (m.marked m.szNowPos).ahead 1 with nowState := .strCrlf }) := by
  unfold flatByte
  rw [if_pos hr, readSwitch_usdStr hs _ hl hlt, if_pos h1, if_pos rfl]

/-- The parser after `k` bytes of a bulk string that starts at `m`, one at least. -/
def bodyAt (m : Layer) (k : Int) : Layer := { (m.marked m.szNowPos).ahead k with iArgLen := m.iArgLen - k }

theorem bodyAt_marked (m : Layer) (k q : Int) : (m.bodyAt k).marked q = m.bodyAt k :=
  marked_marked (p := m.szNowPos) rfl rfl (marked_bKeyLine m _)

@[simp] theorem bodyAt_iLen (m : Layer) (k : Int) : (m.bodyAt k).iLen = m.iLen + k := by
  simp [bodyAt, ahead]

@[simp] theorem bodyAt_nowState (m : Layer) (k : Int) : (m.bodyAt k).nowState = m.nowState := by
  simp [bodyAt, ahead]

@[simp] theorem bodyAt_bReadingLine (m : Layer) (k : Int) : (m.bodyAt k).bReadingLine = m.bReadingLine := by
  simp [bodyAt, ahead]

theorem bodyAt_ahead (m : Layer) (k : Int) :
    { (m.bodyAt k).ahead 1 with iArgLen := (m.bodyAt k).iArgLen - 1 } = m.bodyAt (k + 1) := by
  simp only [bodyAt, ahead, add_assoc, sub_sub]

/-- The body of a bulk string. -/
theorem feeds_body (rd : Int → UInt8) (pr : Option MsgResults) (hs : m.nowState = .usdStr) (hr : m.bReadingLine = true)
    (hne : us ≠ []) (h1 : us.length ≤ m.iArgLen) (h2 : m.iArgLen < 2 ^ 31) (hl : 0 ≤ m.iLen)
    (hlt : m.iLen + us.length < 2 ^ 31) :
    feeds (flatByte rd) us (pr, m) = (none, (pr, m.bodyAt us.length), []) := by
  induction us using reverseRecOn with
  | nil => exact absurd rfl hne
  | append_singleton us ch ih =>
    rw [length_append, length_singleton] at h1 hlt
    rcases us with _ | ⟨b, us⟩
    · rw [nil_append, feeds_cons_none (flatByte_bulk rd ch pr hs hr (by simp at h1; omega) h2 hl (by simp at hlt; omega))]
      rfl
    · have h3 := ih (by simp) (by omega) (by omega)
      have h4 := flatByte_bulk (m := m.bodyAt (b :: us).length) rd ch pr (by simpa using hs) (by simpa using hr)
        (by simp only [bodyAt]; omega) (by simp only [bodyAt]; omega) (by simp; omega) (by simp at hlt ⊢; omega)
      rw [bodyAt_marked, bodyAt_ahead] at h4
      rw [feeds_append h3, feeds_cons_none h4, length_append, length_singleton]
      rfl

/-- The body of a bulk string and the carriage return after it. -/
theorem feeds_body_cr (rd : Int → UInt8) (pr : Option MsgResults) (hs : m.nowState = .usdStr)
    (hr : m.bReadingLine = true) (h1 : m.iArgLen = us.length) (hl : 0 ≤ m.iLen) (hlt : m.iLen + us.length + 1 < 2 ^ 31) :
    feeds (flatByte rd) (us ++ [Byte.cr]) (pr, m) = (none, (pr, { (m.marked m.szNowPos).ahead (us.length + 1) with
      iArgLen := 0, nowState := .strCrlf }), []) := by
  rcases us with _ | ⟨b, us⟩
  · simp only [length_nil, Nat.cast_zero] at h1 hlt
    rw [nil_append, feeds_cons_none (flatByte_bulk_cr rd pr hs hr h1 hl (by omega))]
    simp only [feeds, ahead, length_nil, Nat.cast_zero, zero_add, marked_iArgLen, h1]
  · have h3 : feeds (flatByte rd) (b :: us) (pr, m) = _ := feeds_body rd pr hs hr (by simp) (by omega) (by omega) hl (by omega)
    have h4 := flatByte_bulk_cr (m := m.bodyAt (b :: us).length) rd pr (by simpa using hs) (by simpa using hr)
      (by simp only [bodyAt]; omega) (by simp; omega) (by simp at hlt ⊢; omega)
    rw [bodyAt_marked] at h4
    rw [feeds_append h3, feeds_cons_none h4]
    simp only [feeds, bodyAt, ahead, add_assoc]
    rw [h1, sub_self]

theorem flatByte_more (rd : Int → UInt8) (pr : Option MsgResults) (hr : m.bReadingLine = true)
    (h : m.readSwitch m.bKeyLine m.szNowPos ch = (.more, m')) : flatByte rd ch (pr, m) = (none, pr, m') := by
  unfold flatByte
  rw [if_pos hr, h]

theorem flatByte_usd (rd : Int → UInt8) (pr : Option MsgResults) (hs : m.nowState = .readingLine)
    (hr : m.bReadingLine = true) (hl : 0 ≤ m.iLen) (hlt : m.iLen + 1 < 2 ^ 31) :
    flatByte rd Byte.usd (pr, m) = (none, pr, { m.ahead 1 with nowState := .usdNum, iArgLen := 0 }) := by
  refine flatByte_more rd pr hr ?_
  unfold readSwitch
  rw [hs]
  rw [if_neg (by decide), if_pos rfl, stepForward_eq (by exact hl) (by exact hlt)]
  rfl

theorem flatByte_length_cr (rd : Int → UInt8) (pr : Option MsgResults) (hs : m.nowState = .usdNum)
    (hr : m.bReadingLine = true) (hl : 0 ≤ m.iLen) (hlt : m.iLen + 1 < 2 ^ 31) :
    flatByte rd Byte.cr (pr, m) =
      (none, pr, { m.ahead 1 with nowState := .usdNumCrlf, iMaxLen := max m.iMaxLen m.iArgLen }) := by
  refine flatByte_more rd pr hr ?_
  unfold readSwitch
  rw [hs]
  rw [if_neg (by decide), if_pos rfl, stepForward_eq hl hlt]
  rfl

theorem flatByte_length_lf (rd : Int → UInt8) (pr : Option MsgResults) (hs : m.nowState = .usdNumCrlf)
    (hr : m.bReadingLine = true) (hl : 0 ≤ m.iLen) (hlt : m.iLen + 1 < 2 ^ 31) :
    flatByte rd Byte.lf (pr, m) = (none, pr, { m.ahead 1 with line.iLen := m.iLen + 1, nowState := .usdStr }) := by
  have h : m.readSwitch m.bKeyLine m.szNowPos lf =
      (.bulk, { m.ahead 1 with line.iLen := m.iLen + 1, nowState := .usdStr }) := by
    unfold readSwitch
    rw [hs]
    dsimp only
    rw [if_pos rfl, stepForward_eq hl hlt]
    rfl
  unfold flatByte
  rw [if_pos hr, h]

/-- The end of a line whose text has `n` bytes. -/
theorem flatByte_lf (rd : Int → UInt8) (pr : Option MsgResults) (n : Int) (hs : m.nowState = .strCrlf)
    (hr : m.bReadingLine = true) (hl : 0 ≤ m.iLen) (hlt : m.iLen + 1 < 2 ^ 31) (hn : m.iLen - m.line.iLen - 1 = n)
    (hpos : 0 ≤ n) (hle : n ≤ m.iLen)
    (hm : m' = { m.ahead 1 with line := ⟨m.szNowPos - n - 1, n⟩ }.endStr m.szNowPos) :
    flatByte rd Byte.lf (pr, m) =
      ((m'.endLine rd pr []).1, (m'.endLine rd pr []).2.1, (m'.endLine rd pr []).2.2.1) := by
  have h : m.readSwitch m.bKeyLine m.szNowPos lf = (.lineEnd, m') := by
    unfold readSwitch
    rw [hs]
    dsimp only
    rw [if_pos rfl, hn, int32_eq (by omega) (by omega), hm,
      stepForward_eq (m := { m with line := ⟨m.szNowPos - n - 1, n⟩ }) hl hlt]
    rfl
  unfold flatByte
  rw [if_pos hr, h]

/-- The parser in front of the body of a bulk string, whose header has `h` bytes and declares `n` bytes. -/
def bulkHead (m : Layer) (h n : Int) : Layer :=
  { m.ahead h with iArgLen := n, iMaxLen := max m.iMaxLen n, line.iLen := m.iLen + h, nowState := .usdStr }

/-- The header of a bulk string. -/
theorem feeds_bulkHead {ds : List UInt8} (rd : Int → UInt8) (pr : Option MsgResults) (hs : m.nowState = .readingLine)
    (hr : m.bReadingLine = true) (hd : ∀ d ∈ ds, Byte.isDigit d = true) (hmax : decimal ds < 2 ^ 31) (hl : 0 ≤ m.iLen)
    (hlt : m.iLen + ds.length + 3 < 2 ^ 31) :
    feeds (flatByte rd) (Byte.usd :: ds ++ crlf) (pr, m) = (none, (pr, m.bulkHead (ds.length + 3) (decimal ds)), []) := by
  have e1 : ∀ x : Int, x + 1 + ds.length + 1 + 1 = x + (ds.length + 3) := fun x => by omega
  calc feeds (flatByte rd) (usd :: (ds ++ crlf)) (pr, m)
      = feeds (flatByte rd) (ds ++ crlf) (pr, { m.ahead 1 with nowState := .usdNum, iArgLen := 0 }) :=
        feeds_cons_none (flatByte_usd rd pr hs hr hl (by omega))
    _ = feeds (flatByte rd) crlf (pr,
          { ({ m.ahead 1 with nowState := .usdNum, iArgLen := 0 } : Layer).ahead ds.length with iArgLen := decimal ds }) :=
        feeds_append (feeds_length rd pr rfl (by exact hr) hd 0 rfl hmax (by simp only [ahead]; omega) (by simp only [ahead]; omega))
    _ = feeds (flatByte rd) [lf] (pr, { m.ahead (1 + ds.length + 1) with
          nowState := .usdNumCrlf, iArgLen := decimal ds, iMaxLen := max m.iMaxLen (decimal ds) }) := by
        refine (feeds_cons_none (flatByte_length_cr rd pr rfl (by exact hr) ?_ ?_)).trans ?_
        · simp only [ahead]; omega
        · simp only [ahead]; omega
        · simp only [ahead, add_assoc]
    _ = (none, (pr, m.bulkHead (ds.length + 3) (decimal ds)), []) := by
        refine (feeds_cons_none (flatByte_length_lf rd pr rfl (by exact hr) ?_ ?_)).trans ?_
        · simp only [ahead]; omega
        · simp only [ahead]; omega
        · simp only [feeds, bulkHead, ahead, ← add_assoc, e1]

/-- The parser at the end of a line that is a bulk string of `n` bytes. -/
def bulkLine (m : Layer) (h n : Int) : Layer :=
  { ((m.bulkHead h n).marked (m.szNowPos + h)).ahead (n + 2) with
    iArgLen := 0, nowState := .strCrlf, line := ⟨m.szNowPos + h, n⟩ }.endStr (m.szNowPos + h + n + 1)

/-- A line that is a bulk string. -/
theorem feeds_bulkLine {ds s : List UInt8} (rd : Int → UInt8) (pr : Option MsgResults) (hs : m.nowState = .readingLine)
    (hr : m.bReadingLine = true) (hd : ∀ d ∈ ds, Byte.isDigit d = true) (hn : decimal ds = s.length) (hl : 0 ≤ m.iLen)
    (hlt : m.iLen + ds.length + s.length + 5 < 2 ^ 31) (hm : m' = m.bulkLine (ds.length + 3) s.length) :
    feeds (flatByte rd) (Byte.usd :: ds ++ crlf ++ s ++ crlf) (pr, m) =
      ((m'.endLine rd pr []).1, ((m'.endLine rd pr []).2.1, (m'.endLine rd pr []).2.2.1), []) := by
  have e : usd :: ds ++ crlf ++ s ++ crlf = usd :: ds ++ crlf ++ (s ++ [cr] ++ [lf]) := by
    simp [crlf]
  have h1 := feeds_bulkHead rd pr hs hr hd (by omega) hl (by omega)
  rw [hn] at h1
  have h2 : feeds (flatByte rd) (s ++ [cr]) (pr, m.bulkHead (ds.length + 3) s.length) = _ :=
    feeds_body_cr rd pr rfl hr rfl (by simp only [bulkHead, ahead]; omega) (by simp only [bulkHead, ahead]; omega)
  have h3 : flatByte rd lf (pr, { ((m.bulkHead (ds.length + 3) s.length).marked
      (m.bulkHead (ds.length + 3) s.length).szNowPos).ahead (s.length + 1) with iArgLen := 0, nowState := .strCrlf }) =
        ((m'.endLine rd pr []).1, (m'.endLine rd pr []).2.1, (m'.endLine rd pr []).2.2.1) := by
    obtain ⟨k, c, n, hk⟩ := marked_eq (m.bulkHead (ds.length + 3) s.length) (m.szNowPos + (ds.length + 3))
    have hk' : (m.bulkHead (ds.length + 3) s.length).marked (m.bulkHead (ds.length + 3) s.length).szNowPos = _ := hk
    rw [hk']
    refine flatByte_lf rd pr s.length rfl (by exact hr) ?_ ?_ ?_ (by omega) ?_ ?_
    · simp only [ahead, bulkHead]; omega
    · simp only [ahead, bulkHead]; omega
    · simp only [ahead, bulkHead]; omega
    · simp only [ahead, bulkHead]; omega
    · rw [hm]
      unfold bulkLine
      rw [hk]
      have e2 : m.szNowPos + (ds.length + 3) + (s.length + 1) = m.szNowPos + (ds.length + 3) + s.length + 1 := by omega
      have e3 : m.szNowPos + (ds.length + 3) + s.length + 1 - s.length - 1 = m.szNowPos + (ds.length + 3) := by omega
      have e4 : ∀ x : Int, x + (s.length + 1) + 1 = x + (s.length + 2) := fun x => by omega
      have e5 : m.szNowPos + (ds.length + 3) + s.length + 1 + 1 = m.szNowPos + (ds.length + 3) + (s.length + 2) := by omega
      simp only [ahead, bulkHead, e2, e3, e4, e5]
  rw [e, feeds_append h1, feeds_append h2]
  rcases ho : (m'.endLine rd pr []).1 with _ | iRet
  · rw [ho] at h3
    exact feeds_cons_none h3
  · rw [ho] at h3
    exact feeds_cons_some h3

/-! ### The lines of a request -/

theorem add_two_le_bulk {a s : List UInt8} (h : Bulk Canonical a s) : a.length + 2 ≤ s.length := by
  obtain ⟨ds, -, -, rfl⟩ := h
  simp only [length_append, crlf, length_cons, length_nil]
  omega

theorem length_le_lines {as ss : List (List UInt8)} (h : List.Forall₂ (Bulk Canonical) as ss) :
    as.length ≤ ss.flatten.length := by
  induction h with
  | nil => simp
  | cons ha _ ih =>
    obtain ⟨ds, -, -, rfl⟩ := ha
    simp only [length_cons, flatten_cons, length_append]
    omega

/-- The results have room for `n` lines more. -/
def Room (pr : Option MsgResults) (n : Nat) : Prop := ∀ r ∈ pr, r.vMsgMeta.length + n ≤ r.iTotal

theorem room_none (n : Nat) : Room none n := by simp [Room]

/-- The results with the lines `done`. -/
def withLines (pr : Option MsgResults) (done : List (Int × List UInt8)) : Option MsgResults :=
  pr.map fun r => { r with vMsgMeta := r.vMsgMeta ++ done.map fun x => ⟨x.1, x.2.length⟩ }

theorem withLines_nil (pr : Option MsgResults) : withLines pr [] = pr := by
  cases pr <;> simp [withLines]

theorem withLines_cons (pr : Option MsgResults) (x : Int × List UInt8) (done : List (Int × List UInt8)) :
    withLines (withLines pr [x]) done = withLines pr (x :: done) := by
  cases pr <;> simp [withLines]

theorem room_withLines {n : Nat} {x : Int × List UInt8} (h : Room pr (n + 1)) : Room (withLines pr [x]) n := by
  cases pr with
  | none => exact nofun
  | some r =>
    intro r' hr
    simp only [withLines, map_some, mem_def, some.injEq] at hr
    have := h r rfl
    rw [← hr]
    simp only [length_append, map_cons, map_nil, length_singleton]
    omega

theorem addResult_room {n : Nat} (h : Room pr (n + 1)) {c : Int} {a : List UInt8} (hl : m.line = ⟨c, a.length⟩) :
    m.addResult pr = some (withLines pr [(c, a)]) := by
  cases pr with
  | none => rfl
  | some r =>
    have := h r rfl
    unfold addResult
    dsimp only
    rw [if_neg (by omega), hl]
    rfl

theorem bulkLine_eq (m : Layer) (h n : Int) : ∃ k c i j, m.bulkLine h n =
    { m.ahead (h + (n + 2)) with
      szKeyStart := k, szCmd := c, iCmdLen := i, iKeyLen := j, iArgLen := 0, iMaxLen := max m.iMaxLen n
      nowState := .strCrlf, bReadingLine := false, line := ⟨m.szNowPos + h, n⟩ } := by
  obtain ⟨k, c, i, hk⟩ := marked_eq (m.bulkHead h n) (m.szNowPos + h)
  obtain ⟨j, hj⟩ := endStr_eq ({ ((m.bulkHead h n).marked (m.szNowPos + h)).ahead (n + 2) with
    iArgLen := 0, nowState := .strCrlf, line := ⟨m.szNowPos + h, n⟩ }) (m.szNowPos + h + n + 1)
  refine ⟨k, c, i, j, ?_⟩
  unfold bulkLine
  rw [hj, hk]
  simp only [ahead, bulkHead, add_assoc]

theorem bytesAt_of_getD {v : List UInt8} (h : ∀ i < v.length, rd (p + i) = v.getD i 0) : bytesAt rd p v.length = v := by
  induction v generalizing p with
  | nil => rfl
  | cons ch v ih =>
    have h0 := h 0 (by simp)
    simp only [Nat.cast_zero, add_zero, getD_cons_zero] at h0
    rw [length_cons, bytesAt, h0, ih fun i hi => ?_]
    have h1 := h (i + 1) (by simpa using hi)
    rw [getD_cons_succ] at h1
    rw [← h1]
    congr 1
    omega

theorem bytesAt_right {p : Int} {xs ys : List UInt8} (h : bytesAt rd p (xs ++ ys).length = xs ++ ys) :
    bytesAt rd (p + xs.length) ys.length = ys := by
  rw [length_append, RedisMsg.bytesAt_add] at h
  exact (append_inj h (by simp [bytesAt_length])).2

theorem bytesAt_left {p : Int} {xs ys : List UInt8} (h : bytesAt rd p (xs ++ ys).length = xs ++ ys) :
    bytesAt rd p xs.length = xs := by
  rw [length_append, RedisMsg.bytesAt_add] at h
  exact (append_inj h (by simp [bytesAt_length])).1

theorem bytesAt_part {p : Int} {xs ys zs : List UInt8} (h : bytesAt rd p (xs ++ ys ++ zs).length = xs ++ ys ++ zs) :
    bytesAt rd (p + xs.length) ys.length = ys := by
  rw [length_append, length_append, RedisMsg.bytesAt_add, RedisMsg.bytesAt_add] at h
  have h1 := (append_inj h (by simp [bytesAt_length])).1
  exact (append_inj h1 (by simp [bytesAt_length])).2

/-- A line of a request, of which `n` more follow. -/
theorem feeds_line {a s : List UInt8} {n : Nat} (hb : Bulk Canonical a s) (hroom : Room pr (n + 1)) (hs : m.nowState = .readingLine)
    (hr : m.bReadingLine = true) (hneed : m.iNeedArgNum = n + 1) (hn : n + 1 < 2 ^ 31) (hl : 0 ≤ m.iLen)
    (hlt : m.iLen + s.length < 2 ^ 31) (hw : bytesAt rd m.szNowPos s.length = s) : ∃ h : Int,
    bytesAt rd (m.szNowPos + h) a.length = a ∧ h + (a.length + 2) = s.length ∧
    feeds (flatByte rd) s (pr, m) =
      (if n = 0 then some .ok else none, (withLines pr [(m.szNowPos + h, a)],
        { (m.bulkLine h a.length).lineDone rd with
          nowState := if n = 0 then .msgEnd else .readingLine, bReadingLine := decide (n ≠ 0) }), []) := by
  obtain ⟨ds, hd, hdec, rfl⟩ := hb
  simp only [length_append, length_cons, crlf, length_nil] at hlt
  refine ⟨ds.length + 3, ?_, ?_, ?_⟩
  · have e : (usd :: ds ++ crlf).length = ds.length + 3 := by simp [crlf]
    have h1 := bytesAt_part hw
    rw [e] at h1
    exact h1
  · simp only [length_append, length_cons, crlf, length_nil]
    omega
  · have h1 := feeds_bulkLine rd pr hs hr hd.1.2 hdec hl (by omega) rfl
    obtain ⟨k, c, i, j, hk⟩ := bulkLine_eq m (ds.length + 3) a.length
    generalize m.bulkLine (ds.length + 3) a.length = m1 at h1 hk
    have hres : m1.addResult pr = some (withLines pr [(m.szNowPos + (ds.length + 3), a)]) :=
      addResult_room hroom (by rw [hk])
    obtain ⟨k', b, hd'⟩ := lineDone_eq rd m1
    have hneed1 : (m1.lineDone rd).iNeedArgNum = n := by
      rw [hd', hk]
      simp only [ahead, hneed]
      rw [int32_eq (by omega) (by omega)]
      omega
    have hend : m1.endLine rd pr [] = (if n = 0 then some .ok else none,
        withLines pr [(m.szNowPos + (ds.length + 3), a)], { m1.lineDone rd with
          nowState := if n = 0 then .msgEnd else .readingLine, bReadingLine := decide (n ≠ 0) }, []) := by
      unfold endLine
      rw [hres]
      dsimp only
      by_cases h0 : n = 0
      · have hread : (m1.lineDone rd).bReadingLine = decide (n ≠ 0) := by
          rw [hd', hk, decide_eq_false (not_not.mpr h0)]
        rw [if_pos (by rw [hneed1, h0]; rfl), if_pos h0, if_pos h0, ← hread]
      · rw [if_neg (by rw [hneed1]; omega), if_neg h0, if_neg h0, decide_eq_true h0]
    rw [h1, hend]

/-- What holds after the lines `done` of a request: the command is the first of them, and the key is the line that
the command says, if the parser has come that far. -/
structure Named (rd : Int → UInt8) (done : List (Int × List UInt8)) (m : Layer) : Prop where
  line : m.iNowLine = done.length
  fresh : done = [] → m.szCmd = none ∧ m.szKeyStart = none ∧ m.iKeyLen = 0 ∧ m.bKeyLine = false ∧ m.iKeyInLines = 0
  cmd : ∀ x ∈ done.head?, m.szCmd = some x.1 ∧ m.iCmdLen = x.2.length
  before : done ≠ [] → m.iNowLine < m.keyInLine rd → m.szKeyStart = none ∧ m.iKeyLen = 0 ∧
    m.iKeyInLines = m.keyInLine rd ∧ (m.bKeyLine = true ↔ m.iNowLine + 1 = m.keyInLine rd)
  after : done ≠ [] → m.keyInLine rd ≤ m.iNowLine → ∃ x, done[(m.keyInLine rd).toNat - 1]? = some x ∧
    m.szKeyStart = some x.1 ∧ m.iKeyLen = x.2.length

theorem keyInLine_cases (rd : Int → UInt8) (m : Layer) : m.keyInLine rd = 2 ∨ m.keyInLine rd = 4 := by
  unfold keyInLine
  split
  · exact .inl rfl
  · split_ifs
    · exact .inr rfl
    · exact .inr rfl
    · exact .inl rfl

theorem keyInLine_congr (rd : Int → UInt8) (h1 : m'.szCmd = m.szCmd) (h2 : m'.iCmdLen = m.iCmdLen) :
    m'.keyInLine rd = m.keyInLine rd := by
  unfold keyInLine
  rw [h1, h2]

/-- A line before the key. -/
theorem lineDone_before {K : Int} (h1 : m.szCmd ≠ none) (h2 : m.szKeyStart = none)
    (hK : (if m.iKeyInLines = 0 then m.keyInLine rd else m.iKeyInLines) = K) :
    m.lineDone rd = { m with
      iNowLine := m.iNowLine + 1
      iKeyInLines := K
      bKeyLine := m.bKeyLine || decide (K = m.iNowLine + 1 + 1)
      iNeedArgNum := int32 (m.iNeedArgNum - 1) } := by
  unfold lineDone
  dsimp only
  rw [if_pos ⟨h1, h2⟩]
  have hk : ({ m with iNowLine := m.iNowLine + 1 } : Layer).keyInLine rd = m.keyInLine rd := rfl
  rw [hk]
  subst hK
  by_cases h0 : m.iKeyInLines = 0
  · rw [if_pos h0, if_pos h0]
    by_cases h3 : m.keyInLine rd = m.iNowLine + 1 + 1
    · rw [if_pos h3, decide_eq_true h3, Bool.or_true]
    · rw [if_neg h3, decide_eq_false h3, Bool.or_false]
  · rw [if_neg h0, if_neg h0]
    by_cases h3 : m.iKeyInLines = m.iNowLine + 1 + 1
    · rw [if_pos h3, decide_eq_true h3, Bool.or_true]
    · rw [if_neg h3, decide_eq_false h3, Bool.or_false]

/-- A line after which the key is not looked for. -/
theorem lineDone_after (h : ¬ (m.szCmd ≠ none ∧ m.szKeyStart = none)) : m.lineDone rd = { m with
    iNowLine := m.iNowLine + 1, iNeedArgNum := int32 (m.iNeedArgNum - 1) } := by
  unfold lineDone
  dsimp only
  rw [if_neg h]

/-- The first line. -/
theorem Named.first (h : Int) (a : List UInt8) (hm : Named rd [] m) :
    Named rd [(m.szNowPos + h, a)] ((m.bulkLine h a.length).lineDone rd) := by
  obtain ⟨h1, h2, h3, h4, h5⟩ := hm.fresh rfl
  have h6 : m.iNowLine = 0 := hm.line
  have hline : m.bulkLine h a.length = { m.ahead (h + (a.length + 2)) with
      szCmd := some (m.szNowPos + h), iCmdLen := a.length, iArgLen := 0, iMaxLen := max m.iMaxLen a.length
      nowState := .strCrlf, bReadingLine := false, line := ⟨m.szNowPos + h, a.length⟩ } := by
    simp only [bulkLine, bulkHead, marked, keyStart, cmdInfo, endStr, ahead, h1, h2, h4]
    simp [add_assoc]
  generalize m.bulkLine h a.length = m1 at hline
  have g1 : m1.szCmd = some (m.szNowPos + h) := by rw [hline]
  have g2 : m1.szKeyStart = none := by rw [hline]; exact h2
  have g3 : m1.iNowLine = 0 := by rw [hline]; exact h6
  have g4 : m1.bKeyLine = false := by rw [hline]; exact h4
  have hdone := lineDone_before (K := m1.keyInLine rd) (by simp [g1]) g2 (if_pos (by rw [hline]; exact h5))
  rw [g3, g4] at hdone
  have hkey : (m1.lineDone rd).keyInLine rd = m1.keyInLine rd := keyInLine_congr rd (by rw [hdone]) (by rw [hdone])
  refine ⟨by rw [hdone]; rfl, (by simp), ?_, fun _ hlt => ?_, fun _ hle => ?_⟩
  · intro x hx
    simp only [head?_cons, mem_def, some.injEq] at hx
    rw [← hx, hdone]
    exact ⟨g1, by rw [hline]⟩
  · rw [hkey, hdone]
    refine ⟨g2, by rw [hline]; exact h3, rfl, ?_⟩
    simp only [Bool.false_or, decide_eq_true_eq]
    exact eq_comm
  · rw [hkey, hdone] at hle
    rcases keyInLine_cases rd m1 with hK | hK
    · simp only [hK] at hle
      omega
    · simp only [hK] at hle
      omega

/-- The line that is the key. -/
theorem bulkLine_key {c : Int} {n : Nat} (h : Int) (h1 : m.szCmd = some c) (h2 : m.szKeyStart = none) (h3 : m.iKeyLen = 0)
    (h4 : m.bKeyLine = true) (hn : n < 2 ^ 31) : m.bulkLine h n = { m.ahead (h + (n + 2)) with
      szKeyStart := some (m.szNowPos + h), iKeyLen := n, iArgLen := 0, iMaxLen := max m.iMaxLen n
      nowState := .strCrlf, bReadingLine := false, line := ⟨m.szNowPos + h, n⟩ } := by
  have e : m.szNowPos + (h + (n + 1)) - 1 - (m.szNowPos + h) = n := by omega
  have e1 : int32 (m.szNowPos + (h + (n + 1)) - 1 - (m.szNowPos + h)) = n := by rw [e, int32_eq (by omega) (by omega)]
  simp only [bulkLine, bulkHead, marked, keyStart, cmdInfo, endStr, ahead, h1, h2, h3, h4, e1, and_self, if_true,
    reduceCtorEq, if_false, add_assoc]

/-- A line that changes neither the command nor the key. -/
theorem bulkLine_other {c : Int} {n : Nat} (h : Int) (h1 : m.szCmd = some c)
    (h2 : m.szKeyStart = none ∧ m.bKeyLine = false ∨ (∃ k, m.szKeyStart = some k) ∧ m.iKeyLen ≠ 0) :
    m.bulkLine h n = { m.ahead (h + (n + 2)) with
      iArgLen := 0, iMaxLen := max m.iMaxLen n
      nowState := .strCrlf, bReadingLine := false, line := ⟨m.szNowPos + h, n⟩ } := by
  rcases h2 with ⟨h2, h3⟩ | ⟨⟨k, h2⟩, h3⟩
  · simp only [bulkLine, bulkHead, marked, keyStart, cmdInfo, endStr, ahead, h1, h2, h3, Bool.false_eq_true, and_false,
      if_false, reduceCtorEq, add_assoc]
  · simp only [bulkLine, bulkHead, marked, keyStart, cmdInfo, endStr, ahead, h1, h2, if_neg h3, false_and, if_false,
      reduceCtorEq, add_assoc]

theorem Named.snoc {done : List (Int × List UInt8)} {y : Int × List UInt8} (hm : Named rd done m) (hne : done ≠ [])
    (hcmd : m'.szCmd = m.szCmd) (hclen : m'.iCmdLen = m.iCmdLen) (hnow : m'.iNowLine = m.iNowLine + 1)
    (hbefore : m.iNowLine + 1 < m.keyInLine rd → m'.szKeyStart = none ∧ m'.iKeyLen = 0 ∧
      m'.iKeyInLines = m.keyInLine rd ∧ (m'.bKeyLine = true ↔ m.iNowLine + 1 + 1 = m.keyInLine rd))
    (hafter : m.keyInLine rd ≤ m.iNowLine + 1 → ∃ x, (done ++ [y])[(m.keyInLine rd).toNat - 1]? = some x ∧
      m'.szKeyStart = some x.1 ∧ m'.iKeyLen = x.2.length) : Named rd (done ++ [y]) m' := by
  have hkey : m'.keyInLine rd = m.keyInLine rd := keyInLine_congr rd hcmd hclen
  refine ⟨?_, fun h => absurd h (by simp), fun x hx => ?_, fun _ => ?_, fun _ => ?_⟩
  · rw [hnow, hm.line, length_append]
    rfl
  · rw [head?_append_of_ne_nil _ hne] at hx
    rw [hcmd, hclen]
    exact hm.cmd x hx
  · rw [hkey, hnow]
    exact hbefore
  · rw [hkey, hnow]
    exact hafter

/-- A line after the first one. The length of an empty key would be set again. -/
theorem Named.more (h : Int) (a : List UInt8) {done : List (Int × List UInt8)} (hm : Named rd done m) (hne : done ≠ [])
    (ha : a.length < 2 ^ 31) (hkey : ∀ x, done[(m.keyInLine rd).toNat - 1]? = some x → x.2 ≠ []) :
    Named rd (done ++ [(m.szNowPos + h, a)]) ((m.bulkLine h a.length).lineDone rd) := by
  obtain ⟨c, h1⟩ : ∃ c, m.szCmd = some c := by
    obtain ⟨x, xs, rfl⟩ := exists_cons_of_ne_nil hne
    exact ⟨x.1, (hm.cmd x rfl).1⟩
  have hnow := hm.line
  by_cases hlt : m.iNowLine < m.keyInLine rd
  · obtain ⟨h3, h4, h5, h6⟩ := hm.before hne hlt
    by_cases hlast : m.iNowLine + 1 = m.keyInLine rd
    · -- this line is the key
      have hline := bulkLine_key h h1 h3 h4 (h6.mpr hlast) ha
      generalize m.bulkLine h a.length = m1 at hline
      have hdone : m1.lineDone rd = _ := lineDone_after (by rw [hline]; simp)
      rw [hdone, hline]
      refine hm.snoc hne rfl rfl rfl (fun h => by omega) fun _ => ⟨(m.szNowPos + h, a), ?_, rfl, rfl⟩
      have hidx : (m.keyInLine rd).toNat - 1 = done.length := by omega
      rw [hidx, getElem?_append_right (le_refl _), Nat.sub_self]
      rfl
    · -- the key comes later
      have hb : m.bKeyLine = false := by
        cases hb : m.bKeyLine with
        | false => rfl
        | true => exact absurd (h6.mp hb) hlast
      have hline : m.bulkLine h a.length = _ := bulkLine_other h h1 (.inl ⟨h3, hb⟩)
      generalize m.bulkLine h a.length = m1 at hline
      have hdone : m1.lineDone rd = _ := lineDone_before (K := m.keyInLine rd) (by rw [hline]; simp [ahead, h1])
        (by rw [hline]; exact h3) (by rw [hline]; exact (if_neg (by simp only [ahead]; omega)).trans h5)
      rw [hdone, hline]
      refine hm.snoc hne rfl rfl rfl (fun _ => ⟨h3, h4, rfl, ?_⟩) fun hle => by omega
      simp only [ahead, hb, Bool.false_or, decide_eq_true_eq]
      exact eq_comm
  · -- the key has been found
    obtain ⟨x, h3, h4, h5⟩ := hm.after hne (not_lt.mp hlt)
    have hx : m.iKeyLen ≠ 0 := by
      have := length_pos_of_ne_nil (hkey x h3)
      omega
    have hline : m.bulkLine h a.length = _ := bulkLine_other h h1 (.inr ⟨⟨x.1, h4⟩, hx⟩)
    generalize m.bulkLine h a.length = m1 at hline
    have hdone : m1.lineDone rd = _ := lineDone_after (by rw [hline]; simp [ahead, h4])
    rw [hdone, hline]
    refine hm.snoc hne rfl rfl rfl (fun h => by omega) fun _ => ⟨x, ?_, h4, h5⟩
    rw [List.getElem?_append_left (List.getElem?_eq_some_iff.mp h3).1]
    exact h3

/-- The lines of a request. `I` is what each line keeps: the lines read so far, the arguments that are left, and the
parser. -/
theorem feeds_lines {I : List (Int × List UInt8) → List (List UInt8) → Layer → Prop}
    (hline : ∀ done a as m h, I done (a :: as) m → 0 ≤ h → a.length < 2 ^ 31 → bytesAt rd (m.szNowPos + h) a.length = a →
      I (done ++ [(m.szNowPos + h, a)]) as ((m.bulkLine h a.length).lineDone rd))
    (hnext : ∀ done as m s b, I done as m → I done as { m with nowState := s, bReadingLine := b })
    {as ss : List (List UInt8)} (hb : List.Forall₂ (Bulk Canonical) as ss) (hne : as ≠ []) (hroom : Room pr as.length)
    (done : List (Int × List UInt8)) (hm : I done as m) (hs : m.nowState = .readingLine) (hr : m.bReadingLine = true)
    (hneed : m.iNeedArgNum = as.length) (hn : as.length < 2 ^ 31) (hl : 0 ≤ m.iLen)
    (hlt : m.iLen + ss.flatten.length < 2 ^ 31) (hw : bytesAt rd m.szNowPos ss.flatten.length = ss.flatten) :
    ∃ xs m', feeds (flatByte rd) ss.flatten (pr, m) = (some .ok, (withLines pr xs, m'), []) ∧
      I (done ++ xs) [] m' ∧ xs.map Prod.snd = as ∧ (∀ x ∈ xs, bytesAt rd x.1 x.2.length = x.2) ∧
      m'.iLen = m.iLen + ss.flatten.length ∧ m'.nowState = .msgEnd := by
  induction hb generalizing pr m done with
  | nil => exact absurd rfl hne
  | @cons a s as ss ha has ih =>
    rw [flatten_cons] at hw
    simp only [flatten_cons, length_append, length_cons] at hlt hneed hroom hn ⊢
    obtain ⟨h, h1, h2, h3⟩ := feeds_line ha hroom hs hr hneed hn hl (by omega) (bytesAt_left hw)
    have hale := add_two_le_bulk ha
    have hI := hnext _ _ _ (if as.length = 0 then .msgEnd else .readingLine) (decide (as.length ≠ 0))
      (hline done a as m h hm (by omega) (by omega) h1)
    obtain ⟨i, b, hd⟩ := lineDone_eq rd (m.bulkLine h a.length)
    obtain ⟨k, c, i', j, hk⟩ := bulkLine_eq m h a.length
    have hpos : ((m.bulkLine h a.length).lineDone rd).szNowPos = m.szNowPos + s.length := by
      rw [hd, hk]
      simp only [ahead]
      omega
    have hlen : ((m.bulkLine h a.length).lineDone rd).iLen = m.iLen + s.length := by
      rw [hd, hk]
      simp only [ahead]
      omega
    have hneed' : ((m.bulkLine h a.length).lineDone rd).iNeedArgNum = as.length := by
      rw [hd, hk]
      simp only [ahead, hneed]
      rw [int32_eq (by omega) (by omega)]
      omega
    cases has with
    | nil =>
      refine ⟨_, _, by rw [flatten_nil, append_nil]; exact h3, hI, rfl, ?_, by simpa using hlen, rfl⟩
      intro x hx
      cases mem_singleton.mp hx
      exact h1
    | @cons a' s' as ss ha' has =>
      generalize hv : (s' :: ss).flatten = v at *
      rw [if_neg (by simp), decide_eq_true (by simp)] at h3
      rw [decide_eq_true (by simp)] at hI
      obtain ⟨xs, m', h4, h5, h6, h7, h8, h9⟩ := ih (by simp) (room_withLines hroom) _ hI rfl rfl hneed' (by omega)
        (by simp only [hlen]; omega) (by simp only [hlen]; omega) (by simp only [hpos]; exact bytesAt_right hw)
      refine ⟨(m.szNowPos + h, a) :: xs, m', ?_, by simpa using h5, by simpa using h6, ?_, ?_, h9⟩
      · rw [feeds_append h3, h4, withLines_cons]
      · intro x hx
        rcases mem_cons.mp hx with rfl | hx
        · exact h1
        · exact h7 x hx
      · rw [h8]
        push_cast
        omega

/-! ### The first line -/

/-- A parser before a message at `p`. -/
def Fresh (p : Int) (m : Layer) : Prop := m.toMsgInfo = .zero ∧ m.szNowPos = p ∧ m.bReadingLine = false

/-- The parser after the count of a request. -/
def headed (m : Layer) (h n : Int) : Layer :=
  { m.ahead h with szStart := m.szNowPos, iNeedArgNum := n, nowState := .readingLine, bReadingLine := true }

/-- The digits of a count. -/
theorem feeds_count (rd : Int → UInt8) (pr : Option MsgResults) (hs : m.nowState = .narg) (hr : m.bReadingLine = false)
    (hd : ∀ d ∈ us, Byte.isDigit d = true) (n : Nat) (hn : m.iNeedArgNum = n)
    (hpos : ∀ ws, ws ≠ [] → ws <+: us → digitsFrom n ws ≠ 0) (hmax : digitsFrom n us < 2 ^ 31)
    (hl : 0 ≤ m.iLen) (hlt : m.iLen + us.length < 2 ^ 31) :
    feeds (flatByte rd) us (pr, m) = (none, (pr, { m.ahead us.length with iNeedArgNum := digitsFrom n us }), []) := by
  induction us generalizing m n with
  | nil =>
    simp only [length_nil, ahead, digitsFrom, foldl_nil, ← hn]
    simp [feeds]
  | cons ch us ih =>
    simp only [mem_cons, forall_eq_or_imp, length_cons] at hd hlt
    have hmax' : digitsFrom (n * 10 + digitNat ch) us < 2 ^ 31 := hmax
    have hle := lt_of_le_of_lt (Scan.le_foldl_digits (n * 10 + digitNat ch) us) hmax'
    have hne : n * 10 + digitNat ch ≠ 0 := hpos [ch] (by simp) (by simp)
    have h1 : flatByte rd ch (pr, m) = (none, pr, { m.ahead 1 with iNeedArgNum := (n * 10 + digitNat ch : Nat) }) := by
      have hdig : int32 (m.iNeedArgNum * 10 + digit ch) = (n * 10 + digitNat ch : Nat) := by
        rw [hn, digit_eq hd.1, int32_eq (by omega) (by push_cast at hle; omega)]
        push_cast
        rfl
      unfold flatByte
      dsimp only
      rw [if_neg (by rw [hr]; simp), stepForward_eq hl (by omega)]
      unfold parseSwitch
      simp only [ahead, hs, hd.1, if_true, hdig]
      rw [if_neg (by exact_mod_cast hne)]
    have h2 := ih (m := { m.ahead 1 with iNeedArgNum := (n * 10 + digitNat ch : Nat) }) hs hr hd.2 _ rfl
      (fun ws hne hw => hpos (ch :: ws) (by simp) (by simpa using hw)) hmax'
      (by simp only [ahead]; omega) (by simp only [ahead]; omega)
    rw [feeds_cons_none h1, h2]
    simp only [ahead, length_cons, add_assoc]
    rw [add_comm (1 : Int)]
    rfl

theorem flatByte_outside (rd : Int → UInt8) (ch : UInt8) (pr : Option MsgResults) (hr : m.bReadingLine = false)
    (hl : 0 ≤ m.iLen) (hlt : m.iLen + 1 < 2 ^ 31) : flatByte rd ch (pr, m) =
      (((m.ahead 1).parseSwitch m.szNowPos ch).1, pr, ((m.ahead 1).parseSwitch m.szNowPos ch).2) := by
  unfold flatByte
  rw [if_neg (by rw [hr]; exact nofun), stepForward_eq hl hlt]

theorem flatByte_star (rd : Int → UInt8) (pr : Option MsgResults) (h : Fresh p m) : flatByte rd Byte.star (pr, m) =
    (none, pr, { m.ahead 1 with szStart := p, iNeedArgNum := 0, nowState := .narg, bReadingLine := false }) := by
  obtain ⟨h1, h2, h3⟩ := h
  have hs : m.nowState = .start := congrArg MsgInfo.nowState h1
  have hl : m.iLen = 0 := congrArg MsgInfo.iLen h1
  rw [flatByte_outside rd _ pr h3 (by omega) (by omega)]
  simp only [ahead, hs, h2]
  rfl

/-- A number that is 0 starts with the digit 0. -/
theorem digitsFrom_eq_zero {w : UInt8} {ws : List UInt8} (hd : Byte.isDigit w = true) (h : digitsFrom 0 (w :: ws) = 0) :
    w = 48 := by
  have hle := Scan.le_foldl_digits (0 * 10 + digitNat w) ws
  have h1 : digitNat w = 0 := by
    unfold digitsFrom at h
    simp only [foldl_cons] at h
    omega
  have h2 := digit_eq hd
  unfold digit at h2
  have h3 : w.toNat = 48 := by omega
  exact UInt8.toNat_inj.mp h3

/-- The number of a canonical count never is 0 on the way, unless it is 0. -/
theorem digitsFrom_ne_zero {ds : List UInt8} (h : Canonical ds) (h0 : decimal ds ≠ 0) :
    ∀ ws, ws ≠ [] → ws <+: ds → digitsFrom 0 ws ≠ 0 := by
  intro ws hne hw h1
  obtain ⟨w, ws, rfl⟩ := exists_cons_of_ne_nil hne
  obtain ⟨t, rfl⟩ := hw
  refine h0 ?_
  rw [h.2 (by simp [digitsFrom_eq_zero (h.1.2 w (by simp)) h1])]
  rfl

theorem canonical_zero {ds : List UInt8} (h : Canonical ds) (h0 : decimal ds = 0) : ds = [48] := by
  obtain ⟨w, ws, rfl⟩ := exists_cons_of_ne_nil h.1.1
  exact h.2 (by simp [digitsFrom_eq_zero (h.1.2 w (by simp)) h0])

/-- The first line of a request. -/
theorem feeds_head {ds : List UInt8} (rd : Int → UInt8) (pr : Option MsgResults) (hm : Fresh p m) (hd : Canonical ds)
    (h0 : decimal ds ≠ 0) (hmax : decimal ds < 2 ^ 31) (hlt : ds.length + 3 < 2 ^ 31) :
    feeds (flatByte rd) (Byte.star :: ds ++ crlf) (pr, m) =
      (none, (pr, m.headed (ds.length + 3) (decimal ds)), []) := by
  have h1 := flatByte_star rd pr hm
  obtain ⟨hz, hp, -⟩ := hm
  have hl : m.iLen = 0 := congrArg MsgInfo.iLen hz
  generalize hm1 : ({ m.ahead 1 with szStart := p, iNeedArgNum := 0, nowState := .narg, bReadingLine := false } : Layer) = m1
    at h1
  have hl1 : m1.iLen = 1 := by rw [← hm1]; simp only [ahead, hl]; rfl
  have h2 := feeds_count (m := m1) rd pr (by rw [← hm1]) (by rw [← hm1]) hd.1.2 0 (by rw [← hm1]; rfl)
    (digitsFrom_ne_zero hd h0) hmax (by omega) (by omega)
  generalize hm2 : ({ m1.ahead ds.length with iNeedArgNum := digitsFrom 0 ds } : Layer) = m2 at h2
  have hl2 : m2.iLen = 1 + ds.length := by rw [← hm2]; simp only [ahead, hl1]
  have h3 : flatByte rd cr (pr, m2) = (none, pr, { m2.ahead 1 with nowState := .nargCrlf }) := by
    rw [flatByte_outside rd _ pr (by rw [← hm2, ← hm1]; rfl) (by omega) (by omega)]
    have hs : (m2.ahead 1).nowState = .narg := by rw [← hm2, ← hm1]; rfl
    unfold parseSwitch
    simp only [hs]
    rfl
  generalize hm3 : ({ m2.ahead 1 with nowState := .nargCrlf } : Layer) = m3 at h3
  have hl3 : m3.iLen = 2 + ds.length := by rw [← hm3]; simp only [ahead, hl2]; omega
  have h4 : flatByte rd lf (pr, m3) =
      (none, pr, { m3.ahead 1 with nowState := .readingLine, bReadingLine := true }) := by
    rw [flatByte_outside rd _ pr (by rw [← hm3, ← hm2, ← hm1]; rfl) (by omega) (by omega)]
    have hs : (m3.ahead 1).nowState = .nargCrlf := by rw [← hm3]; rfl
    have hn : (m3.ahead 1).iNeedArgNum ≠ 0 := by
      rw [← hm3, ← hm2]
      simp only [ahead]
      exact_mod_cast h0
    unfold parseSwitch
    simp only [hs]
    rw [if_pos trivial, if_neg hn]
  calc feeds (flatByte rd) (star :: ds ++ crlf) (pr, m)
      = feeds (flatByte rd) (ds ++ crlf) (pr, m1) := feeds_cons_none h1
    _ = feeds (flatByte rd) crlf (pr, m2) := feeds_append h2
    _ = feeds (flatByte rd) [lf] (pr, m3) := feeds_cons_none h3
    _ = (none, (pr, { m3.ahead 1 with nowState := .readingLine, bReadingLine := true }), []) := feeds_cons_none h4
    _ = (none, (pr, m.headed (ds.length + 3) (decimal ds)), []) := by
      rw [← hm3, ← hm2, ← hm1]
      have e : (1 : Int) + (ds.length + (1 + 1)) = ds.length + 3 := by omega
      simp only [headed, ahead, hp, add_assoc, e]
      rfl

/-- A request without arguments. -/
theorem feeds_head_zero (rd : Int → UInt8) (pr : Option MsgResults) (hm : Fresh p m) :
    feeds (flatByte rd) (Byte.star :: [48] ++ crlf) (pr, m) =
      (some .ok, (pr, { m.ahead 4 with szStart := p, nowState := .msgEnd, bReadingLine := false }), []) := by
  have h1 := flatByte_star rd pr hm
  obtain ⟨hz, hp, -⟩ := hm
  obtain ⟨info, szStart, szEnd, szNowPos, line, b⟩ := m
  subst hz hp
  refine (feeds_cons_none h1).trans ?_
  have e : szNowPos + 1 + 1 + 1 + 1 = szNowPos + 4 := by omega
  simp [feeds, flatByte, parseSwitch, stepForward, ahead, MsgInfo.zero, crlf, isDigit, digit, cr, lf,
    int32, e]

/-! ### The command and the key -/

theorem strIcmp_iff (rd : Int → UInt8) (p : Int) {cs : List UInt8} (hcs : ∀ c ∈ cs, 97 ≤ c ∧ c ≤ 122) :
    strIcmp rd p cs = isCommand (bytesAt rd p cs.length) cs := by
  have hone : ∀ c : UInt8, 97 ≤ c ∧ c ≤ 122 → ∀ ch, (ch == c || ch == c ^^^ 0x20) = (lowerCase ch == c) := by
    decide +kernel
  induction cs generalizing p with
  | nil => rfl
  | cons c cs ih =>
    simp only [mem_cons, forall_eq_or_imp] at hcs
    unfold strIcmp
    rw [hone c hcs.1, ih (p + 1) hcs.2]
    rfl

theorem isCommand_length {a cs : List UInt8} (h : isCommand a cs = true) : a.length = cs.length := by
  have := congrArg List.length (beq_iff_eq.mp h)
  simpa using this

/-- The command says which argument is the key. -/
theorem keyInLine_eq {c : Int} {a : List UInt8} {as : List (List UInt8)} (hc : m.szCmd = some c) (hl : m.iCmdLen = a.length)
    (hw : bytesAt rd c a.length = a) : m.keyInLine rd = keyArg (a :: as) := by
  have hcmd : ∀ cs : List UInt8, (∀ c ∈ cs, 97 ≤ c ∧ c ≤ 122) →
      (m.iCmdLen = cs.length ∧ strIcmp rd c cs = true ↔ isCommand a cs = true) := by
    intro cs hcs
    rw [strIcmp_iff rd c hcs, hl]
    constructor
    · rintro ⟨h1, h2⟩
      rw [← Int.natCast_inj.mp h1, hw] at h2
      exact h2
    · intro h
      have := isCommand_length h
      rw [← this, hw]
      exact ⟨rfl, h⟩
  have h4 : m.iCmdLen = 4 ∧ strIcmp rd c [101, 118, 97, 108] = true ↔ _ := hcmd eval (by decide +kernel)
  have h7 : m.iCmdLen = 7 ∧ strIcmp rd c [101, 118, 97, 108, 115, 104, 97] = true ↔ _ := hcmd evalsha (by decide +kernel)
  unfold keyInLine keyArg
  rw [hc]
  simp only [head?_cons, any_some, Bool.or_eq_true]
  by_cases he : isCommand a eval = true
  · rw [if_pos (h4.mpr he), if_pos (.inl he)]
    rfl
  · rw [if_neg fun h => he (h4.mp h)]
    by_cases hs : isCommand a evalsha = true
    · rw [if_pos (h7.mpr hs), if_pos (.inr hs)]
      rfl
    · rw [if_neg fun h => hs (h7.mp h), if_neg (by tauto)]
      rfl

theorem int32_le {x : Int} (h : 0 ≤ x) : int32 x ≤ x := by
  unfold int32 Int.bmod
  push_cast
  split_ifs <;> omega

/-- The command and the key are among the bytes that have been read since `p`. -/
structure Marks (p : Int) (m : Layer) : Prop where
  start : p ≤ m.szNowPos
  cmd : ∀ c, m.szCmd = some c → p ≤ c ∧ c + m.iCmdLen ≤ m.szNowPos
  key : ∀ k, m.szKeyStart = some k → p ≤ k ∧ k ≤ m.szNowPos ∧ k + m.iKeyLen ≤ m.szNowPos
  noKey : m.szKeyStart = none → m.iKeyLen = 0

theorem marks_none (hp : p ≤ m.szNowPos) (hc : m.szCmd = none) (hk : m.szKeyStart = none) (hl : m.iKeyLen = 0) :
    Marks p m := by
  refine ⟨hp, ?_, ?_, fun _ => hl⟩
  · rw [hc]
    exact nofun
  · rw [hk]
    exact nofun

/-- The command after a line: it is the text of the line, if there was none before. -/
theorem bulkLine_cmd (m : Layer) (h n : Int) :
    (m.bulkLine h n).szCmd = (if m.szCmd = none then some (m.szNowPos + h) else m.szCmd) ∧
      (m.bulkLine h n).iCmdLen = if m.szCmd = none then n else m.iCmdLen := by
  obtain ⟨j, hj⟩ := endStr_eq ({ ((m.bulkHead h n).marked (m.szNowPos + h)).ahead (n + 2) with
    iArgLen := 0, nowState := .strCrlf, line := ⟨m.szNowPos + h, n⟩ }) (m.szNowPos + h + n + 1)
  obtain ⟨k, hk⟩ := keyStart_eq (m.bulkHead h n) (m.bulkHead h n).bKeyLine (m.szNowPos + h)
  unfold bulkLine
  rw [hj]
  unfold marked
  rw [hk]
  unfold cmdInfo
  split_ifs with h1 h2
  · exact ⟨rfl, rfl⟩
  · exact absurd h1 h2
  · exact absurd ‹_› h1
  · exact ⟨rfl, rfl⟩

/-- The key after a line: it starts with the line or before, and ends with the line if it had no length. -/
theorem bulkLine_keyCases (m : Layer) (h n : Int) :
    ((m.bulkLine h n).szKeyStart = none ∧ m.szKeyStart = none ∧ (m.bulkLine h n).iKeyLen = m.iKeyLen) ∨
      ∃ k, (m.bulkLine h n).szKeyStart = some k ∧ (m.szKeyStart = some k ∨ m.szKeyStart = none ∧ k = m.szNowPos + h) ∧
        (m.bulkLine h n).iKeyLen = if m.iKeyLen = 0 then int32 (m.szNowPos + h + n - k) else m.iKeyLen := by
  obtain ⟨c, i, hc⟩ := cmdInfo_eq ((m.bulkHead h n).keyStart (m.bulkHead h n).bKeyLine (m.szNowPos + h)) (m.szNowPos + h)
  unfold bulkLine marked
  rw [hc]
  have hsub : ∀ k : Int, m.szNowPos + h + n + 1 - 1 - k = m.szNowPos + h + n - k := fun k => by omega
  cases hks : m.szKeyStart with
  | some k =>
    refine .inr ⟨k, ?_⟩
    simp only [keyStart, endStr, bulkHead, ahead, hks, reduceCtorEq, false_and, if_false, hsub]
    split_ifs <;> simp
  | none =>
    cases hb : m.bKeyLine with
    | true =>
      refine .inr ⟨m.szNowPos + h, ?_⟩
      simp only [keyStart, endStr, bulkHead, ahead, hks, hb, and_self, if_true, hsub]
      split_ifs <;> simp
    | false =>
      left
      simp only [keyStart, endStr, bulkHead, ahead, hks, hb, Bool.false_eq_true, and_false, if_false, and_self]

/-- A line marks its own bytes only. -/
theorem Marks.line {h : Int} (hm : Marks p m) (hh : 0 ≤ h) (n : Nat) :
    Marks p ((m.bulkLine h n).lineDone rd) := by
  obtain ⟨i, b, hd⟩ := lineDone_eq rd (m.bulkLine h n)
  obtain ⟨hstart, hcmd, hkey, hnoKey⟩ := hm
  have hpos : (m.bulkLine h n).szNowPos = m.szNowPos + h + (n + 2) := by
    obtain ⟨k, c, i, j, hline⟩ := bulkLine_eq m h n
    rw [hline]
    simp only [ahead]
    omega
  obtain ⟨hc, hlen⟩ := bulkLine_cmd m h n
  rw [hd]
  refine ⟨?_, ?_, ?_, ?_⟩
  · dsimp only
    omega
  · intro c hm
    rw [hc] at hm
    rw [hlen, hpos]
    split_ifs at hm ⊢ with hnone
    · cases hm
      omega
    · obtain ⟨h1, h2⟩ := hcmd c hm
      omega
  · intro k hk
    rcases bulkLine_keyCases m h n with ⟨h1, -, -⟩ | ⟨k', h1, h2, h3⟩
    · rw [hk] at h1
      cases h1
    rw [hk] at h1
    cases h1
    rw [hpos, h3]
    have hlast := int32_le (x := m.szNowPos + h + n - k)
    rcases h2 with h2 | ⟨h2, rfl⟩
    · obtain ⟨h4, h5, h6⟩ := hkey k h2
      refine ⟨h4, by omega, ?_⟩
      split_ifs <;> omega
    · rw [if_pos (hnoKey h2)]
      omega
  · intro hk
    rcases bulkLine_keyCases m h n with ⟨-, h2, h3⟩ | ⟨k', h1, -, -⟩
    · exact h3.trans (hnoKey h2)
    · exact absurd (hk.symm.trans h1) nofun

/-- What the lines of a request at `p` keep. -/
structure Lines (rd : Int → UInt8) (p : Int) (all : List (List UInt8)) (done : List (Int × List UInt8))
    (as : List (List UInt8)) (m : Layer) : Prop where
  args : done.map Prod.snd ++ as = all
  bytes : ∀ x ∈ done, bytesAt rd x.1 x.2.length = x.2
  named : RedisMsg.KeySet all → Named rd done m
  marks : Marks p m

theorem Lines.keyInLine {all as : List (List UInt8)} {done : List (Int × List UInt8)} (h : Lines rd p all done as m)
    (hne : done ≠ []) (hk : RedisMsg.KeySet all) : m.keyInLine rd = keyArg all := by
  obtain ⟨x, xs, rfl⟩ := exists_cons_of_ne_nil hne
  obtain ⟨h1, h2⟩ := (h.named hk).cmd x rfl
  rw [← h.args]
  exact keyInLine_eq h1 h2 (h.bytes x (by simp))

theorem Lines.snoc {all as : List (List UInt8)} {a : List UInt8} {done : List (Int × List UInt8)} {h : Int}
    (hm : Lines rd p all done (a :: as) m) (hh : 0 ≤ h) (ha : a.length < 2 ^ 31)
    (hw : bytesAt rd (m.szNowPos + h) a.length = a) : Lines rd p all (done ++ [(m.szNowPos + h, a)]) as ((m.bulkLine h a.length).lineDone rd) := by
  refine ⟨by rw [← hm.args]; simp, ?_, fun hk => ?_, hm.marks.line hh a.length⟩
  · intro x hx
    rcases mem_append.mp hx with hx | hx
    · exact hm.bytes x hx
    · cases mem_singleton.mp hx
      exact hw
  · by_cases hne : done = []
    · subst hne
      exact (hm.named hk).first h a
    · refine (hm.named hk).more h a hne ha fun x hx => ?_
      rw [hm.keyInLine hne hk] at hx
      have hlt := (List.getElem?_eq_some_iff.mp hx).1
      have hget : ∀ i : Nat, done[i]? = some x → all[i]? = some x.2 := by
        intro i hi
        have := (List.getElem?_eq_some_iff.mp hi).1
        rw [← hm.args, getElem?_append_left (by simpa using this), getElem?_map, hi]
        rfl
      rcases hk _ (hget _ hx) with hk | hk
      · exact hk
      · have := congrArg List.length hm.args
        simp only [length_append, length_map, length_cons] at this
        omega

theorem Named.state {done : List (Int × List UInt8)} (h : Named rd done m) (hm : m'.iNowLine = m.iNowLine ∧
    m'.szCmd = m.szCmd ∧ m'.iCmdLen = m.iCmdLen ∧ m'.szKeyStart = m.szKeyStart ∧ m'.iKeyLen = m.iKeyLen ∧
    m'.bKeyLine = m.bKeyLine ∧ m'.iKeyInLines = m.iKeyInLines) : Named rd done m' := by
  obtain ⟨h1, h2, h3, h4, h5, h6, h7⟩ := hm
  have hkey : m'.keyInLine rd = m.keyInLine rd := keyInLine_congr rd h2 h3
  refine ⟨?_, ?_, ?_, ?_, ?_⟩
  · rw [h1]
    exact h.line
  · rw [h2, h4, h5, h6, h7]
    exact h.fresh
  · rw [h2, h3]
    exact h.cmd
  · rw [hkey, h1, h4, h5, h6, h7]
    exact h.before
  · rw [hkey, h1, h4, h5]
    exact h.after

/-- The bytes of a request. -/
theorem feeds_request {as : List (List UInt8)} {v : List UInt8} (hv : Request Canonical as v) (hlt : v.length < 2 ^ 31)
    (hroom : Room pr as.length) (hm : Fresh p m) (hw : bytesAt rd p v.length = v) :
    ∃ xs m', feeds (flatByte rd) v (pr, m) = (some .ok, (withLines pr xs, m'), []) ∧ Lines rd p as xs [] m' ∧
      m'.iLen = v.length ∧ m'.nowState = .msgEnd := by
  obtain ⟨ds, ss, hd, hdec, hss, rfl⟩ := hv
  obtain ⟨hz, hp, -⟩ := id hm
  obtain ⟨z1, z2, z3, z4, z5, z6, z7, z8⟩ : m.iLen = 0 ∧ m.iNowLine = 0 ∧ m.szCmd = none ∧ m.iCmdLen = 0 ∧
      m.szKeyStart = none ∧ m.iKeyLen = 0 ∧ m.bKeyLine = false ∧ m.iKeyInLines = 0 := by
    obtain ⟨info, szStart, szEnd, szNowPos, line, b⟩ := m
    subst hz
    exact ⟨rfl, rfl, rfl, rfl, rfl, rfl, rfl, rfl⟩
  have hlen : (star :: ds ++ crlf).length = ds.length + 3 := by simp [crlf]
  rw [length_append, hlen] at hlt
  by_cases h0 : as = []
  · subst h0
    cases hss
    cases canonical_zero hd hdec
    refine ⟨[], { m.ahead 4 with szStart := p, nowState := .msgEnd, bReadingLine := false }, ?_,
      ⟨rfl, (by simp), fun _ => ⟨z2, fun _ => ⟨z3, z5, z6, z7, z8⟩, (by simp), (by simp), (by simp)⟩,
        marks_none (by simp only [ahead]; omega) z3 z5 z6⟩, ?_, rfl⟩
    · rw [flatten_nil, append_nil, feeds_head_zero rd pr hm, withLines_nil]
    · simp [ahead, z1, crlf]
  · have hn : decimal ds ≠ 0 := by
      rw [hdec]
      exact fun h => h0 (length_eq_zero_iff.mp h)
    have hle := length_le_lines hss
    have h1 := feeds_head rd pr hm hd hn (by omega) (by omega)
    rw [hdec] at h1
    have hI : Lines rd p as [] as (m.headed (ds.length + 3) as.length) :=
      ⟨rfl, (by simp), fun _ => ⟨z2, fun _ => ⟨z3, z5, z6, z7, z8⟩, (by simp), (by simp), (by simp)⟩,
        marks_none (by simp only [headed, ahead]; omega) z3 z5 z6⟩
    have hw2 := bytesAt_right hw
    rw [hlen] at hw2
    obtain ⟨xs, m', h2, h3, -, -, h4, h5⟩ := feeds_lines (fun _ _ _ _ _ h hh ha hb => h.snoc hh ha hb)
      (fun _ _ _ _ _ h => ⟨h.args, h.bytes, fun hk => (h.named hk).state ⟨rfl, rfl, rfl, rfl, rfl, rfl, rfl⟩,
        ⟨h.marks.start, h.marks.cmd, h.marks.key, h.marks.noKey⟩⟩)
      hss h0 hroom [] hI rfl rfl rfl (by omega) (by simp only [headed, ahead]; omega) (by simp only [headed, ahead]; omega)
      (by simp only [headed, ahead, hp]; exact_mod_cast hw2)
    refine ⟨xs, m', ?_, h3, ?_, h5⟩
    · rw [feeds_append h1, h2]
    · rw [h4, length_append, hlen]
      simp only [headed, ahead]
      omega

end

end Layer

end RedisProxy
