import RedisProxy.Event

/-!
# `GR_RedisMsg`

The parser of requests and replies. It reads the bytes between `szNowPos` and `szEnd` and can be called
again when more of them have arrived. A nested array is read by a parser of its own, `pNextLayer`, which
has the same fields; the chain of these parsers is a list here, the outermost one first.

Addresses are integers, and the memory is a function from them.
-/

namespace RedisProxy

/-- The values of `nowState`. -/
inductive MsgState
  | start
  | narg
  | nargNagOne
  | nargZero
  | nargCrlf
  | readingLine
  | inNextLayer
  | usdNum
  | usdZero
  | usdNumCrlf
  | usdStr
  | usdEmpty
  | usdEmptyOne
  | str
  | strCrlf
  | msgEnd
deriving DecidableEq, Repr

/-- The results of `ParseRsp`: `GR_OK`, `GR_ERROR` and `GR_START_NULL`. -/
inductive ParseRet
  | ok
  | error
  | startNull
deriving DecidableEq, Repr

namespace Byte

def lf : UInt8 := 10
def cr : UInt8 := 13
def star : UInt8 := 42
def plus : UInt8 := 43
def sub : UInt8 := 45
def colon : UInt8 := 58
def usd : UInt8 := 36
def pingB : UInt8 := 80
def one : UInt8 := 49

/-- `isdigit`. -/
def isDigit (ch : UInt8) : Bool := 48 ≤ ch && ch ≤ 57

/-- `int(ch-'0')`. -/
def digit (ch : UInt8) : Int := (ch.toNat : Int) - 48

end Byte

/-- `GR_RedisMsgMeta`. -/
structure MsgMeta where
  szStart : Int
  iLen : Int
deriving DecidableEq, Repr

/-- `MsgInfo`. -/
structure MsgInfo where
  iLen : Int
  szKeyStart : Option Int
  iKeyLen : Int
  bKeyLine : Bool
  szCmd : Option Int
  iCmdLen : Int
  iArgLen : Int
  iNowLine : Int
  iKeyInLines : Int
  iNeedArgNum : Int
  nowState : MsgState
  iErrFlag : Bool
  iMaxLen : Int
deriving DecidableEq, Repr

/-- `memset(&m_Info, 0, sizeof(MsgInfo))`. -/
def MsgInfo.zero : MsgInfo := ⟨0, none, 0, false, none, 0, 0, 0, 0, 0, .start, false, 0⟩

/-- A `GR_RedisMsg` apart from `pNextLayer`. -/
structure Layer extends MsgInfo where
  szStart : Int
  szEnd : Int
  szNowPos : Int
  line : MsgMeta
  bReadingLine : Bool
deriving DecidableEq, Repr

/-- `GR_RedisMsgResults`: the entries that are used, of `iTotal`, and the code. -/
structure MsgResults where
  vMsgMeta : List MsgMeta
  iTotal : Nat
  iCode : ParseRet
deriving DecidableEq, Repr

/-- What one byte does in the `switch` of `ReadLine`. -/
inductive LineRet
  /-- `break`. -/
  | more
  /-- `break` at the end of the header of a bulk string. -/
  | bulk
  /-- `return true`. -/
  | lineEnd
  /-- `return false`; `iRet` is `GR_OK`. -/
  | stop
  /-- `return false`; `iRet` is `GR_ERROR`. -/
  | fail
deriving DecidableEq, Repr

/-- `str4icmp` and the like, for bytes `cs` at the address `p`: each byte is compared up to bit 5. -/
def strIcmp (rd : Int → UInt8) (p : Int) : List UInt8 → Bool
  | [] => true
  | c :: cs => (rd p == c || rd p == c ^^^ 0x20) && strIcmp rd (p + 1) cs

namespace Layer

/-- `Init`. -/
def init (szNewStart : Int) : Layer :=
  { MsgInfo.zero with
    szStart := szNewStart
    szEnd := szNewStart
    szNowPos := szNewStart
    line := ⟨0, 0⟩
    bReadingLine := false }

/-- `StartNext`. -/
def startNext (m : Layer) : Layer :=
  { m with
    szStart := m.szStart + m.iLen
    szNowPos := m.szStart + m.iLen
    bReadingLine := false
    toMsgInfo := .zero }

/-- `GR_MSG_STEP_FORWARD`. -/
def stepForward (m : Layer) (num : Int) : Layer :=
  { m with szNowPos := m.szNowPos + num, iLen := int32 (m.iLen + num) }

/-- `GR_MSG_KEY_START`. -/
def keyStart (m : Layer) (bKeyLine : Bool) (p : Int) : Layer :=
  if m.szKeyStart = none ∧ bKeyLine = true then { m with szKeyStart := some p } else m

/-- `GR_MSG_CMD_INFO`. -/
def cmdInfo (m : Layer) (p : Int) : Layer :=
  if m.szCmd = none then { m with szCmd := some p, iCmdLen := m.iArgLen } else m

/-- `KeyInLine`. -/
def keyInLine (rd : Int → UInt8) (m : Layer) : Int :=
  match m.szCmd with
  | none => 2
  | some szCmd =>
    if m.iCmdLen = 4 ∧ strIcmp rd szCmd [101, 118, 97, 108] = true then 4
    else if m.iCmdLen = 7 ∧ strIcmp rd szCmd [101, 118, 97, 108, 115, 104, 97] = true then 4
    else 2

/-! ## `ReadLine` -/

/-- A line that starts with `+`, `-` or `:`. -/
def startStr (m : Layer) (bKeyLine : Bool) (p : Int) : Layer :=
  let m := { m with nowState := .str }.stepForward 1
  { m with line.iLen := m.iLen }.keyStart bKeyLine p

/-- The end of a line. The length of the key is the way from its start to here if it is not set; a
key that is too long is logged only, since `GR_ERROR` is true. -/
def endStr (m : Layer) (p : Int) : Layer :=
  let m := { m with bReadingLine := false }
  match m.szKeyStart with
  | some szKeyStart => if m.iKeyLen = 0 then { m with iKeyLen := int32 (p - 1 - szKeyStart) } else m
  | none => m

/-- The `switch` of `ReadLine` for the byte `ch` at `p`, without nested arrays. -/
def readSwitch (m : Layer) (bKeyLine : Bool) (p : Int) (ch : UInt8) : LineRet × Layer :=
  match m.nowState with
  | .readingLine =>
    if ch = Byte.plus ∨ ch = Byte.sub ∨ ch = Byte.colon then (.more, m.startStr bKeyLine p)
    else if ch = Byte.usd then (.more, { m with nowState := .usdNum, iArgLen := 0 }.stepForward 1)
    else (.fail, m)
  | .str =>
    let m := m.stepForward 1
    (.more, if ch = Byte.cr then { m with nowState := .strCrlf } else m)
  | .strCrlf =>
    let iLen := int32 (m.iLen - m.line.iLen - 1)
    let m := { m with line := ⟨m.szNowPos - iLen - 1, iLen⟩ }.stepForward 1
    if ch = Byte.lf then (.lineEnd, m.endStr p) else (.fail, m)
  | .usdNum =>
    let m := m.stepForward 1
    if Byte.isDigit ch then (.more, { m with iArgLen := int32 (m.iArgLen * 10 + Byte.digit ch) })
    else if ch = Byte.cr then
      (.more, { m with nowState := .usdNumCrlf, iMaxLen := max m.iMaxLen m.iArgLen })
    else if ch = Byte.sub then
      let m := { m with nowState := .usdEmpty }
      if m.iArgLen ≠ 0 then (.fail, m) else (.more, m)
    else (.fail, m)
  | .usdNumCrlf =>
    let m := m.stepForward 1
    -- `iRet` is left as it is
    if ch = Byte.lf then (.bulk, { m with line.iLen := m.iLen, nowState := .usdStr }) else (.stop, m)
  | .usdStr =>
    let m := ((m.keyStart bKeyLine p).cmdInfo p).stepForward 1
    if m.iArgLen = 0 then
      if ch = Byte.cr then (.more, { m with nowState := .strCrlf }) else (.fail, m)
    else (.more, { m with iArgLen := int32 (m.iArgLen - 1) })
  | .usdZero =>
    let m := m.stepForward 1
    if ch = Byte.cr then (.more, { m with nowState := .strCrlf }) else (.fail, m)
  | .usdEmpty =>
    let m := m.stepForward 1
    if ch = Byte.one then (.more, { m with line.iLen := m.iLen, nowState := .usdEmptyOne }) else (.fail, m)
  | .usdEmptyOne =>
    let m := m.stepForward 1
    if ch = Byte.cr then (.more, { m with nowState := .strCrlf }) else (.fail, m)
  | _ => (.fail, m)

/-- The rest of `GR_USD_NUM_CRLF`, with `p` at the line feed: as much of the bulk string as there is is
skipped at once. -/
def skipBulk (m : Layer) (bKeyLine : Bool) (p : Int) : Option Layer :=
  let iTmpLen := int32 (m.szEnd - p)
  if iTmpLen ≤ 0 then none
  else if iTmpLen = 1 ∨ m.iArgLen = 0 then some m
  else if m.iArgLen < iTmpLen then
    some { ((m.keyStart bKeyLine (p + 1)).cmdInfo (p + 1)).stepForward m.iArgLen with iArgLen := 0 }
  else
    some { ((m.keyStart bKeyLine (p + 1)).cmdInfo (p + 1)).stepForward (iTmpLen - 1) with
      iArgLen := int32 (m.iArgLen - (iTmpLen - 1)) }

/-- The parser for a nested array at `szNowPos`. -/
def nextLayer (m : Layer) : Layer := { init m.szNowPos with szEnd := m.szEnd }

/-- A nested array is complete. -/
def nextLayerDone (m l : Layer) : Layer :=
  { m with
    bReadingLine := false
    iLen := int32 (m.iLen + l.iLen)
    line.iLen := l.iLen
    szNowPos := m.szNowPos + l.iLen }

/-- What `ReadLine` does with the result of `ParseRsp` of the next layer; `none` if the line goes on. -/
def nextLayerRet (m : Layer) : ParseRet × Layer × List Layer → Option (Bool × ParseRet × Layer × List Layer)
  | (.ok, l, next) => if l.nowState = .msgEnd then some (true, .ok, m.nextLayerDone l, l :: next) else none
  | (iRet, l, next) => some (false, iRet, m, l :: next)

/-- The loop of `ReadLine` from `p` on. `parse` is `ParseRsp` of the next layer. The result is that of
`ReadLine`, `iRet` and the chain of parsers. -/
def readLine (rd : Int → UInt8) (parse : Layer → List Layer → Option (ParseRet × Layer × List Layer))
    (bKeyLine : Bool) : Nat → Int → Layer → List Layer → Option (Bool × ParseRet × Layer × List Layer)
  | 0, _, _, _ => none
  | n + 1, p, m, next =>
    if m.szEnd ≤ p then some (false, .ok, m, next)
    else if m.nowState = .inNextLayer then
      match next with
      | [] => none
      | l :: next => do
        let r ← parse l next
        return (m.nextLayerRet r).getD (false, .ok, m, r.2.1 :: r.2.2)
    else if m.nowState = .readingLine ∧ rd p = Byte.star then do
      let m := { m with nowState := .inNextLayer, line.szStart := m.szNowPos }
      let r ← parse m.nextLayer []
      match m.nextLayerRet r with
      | some ret => return ret
      | none => readLine rd parse bKeyLine n (p + 1) m (r.2.1 :: r.2.2)
    else
      match m.readSwitch bKeyLine p (rd p) with
      | (.more, m) => readLine rd parse bKeyLine n (p + 1) m next
      | (.bulk, m) => do
        let m ← m.skipBulk bKeyLine p
        readLine rd parse bKeyLine n m.szNowPos m next
      | (.lineEnd, m) => some (true, .ok, m, next)
      | (.stop, m) => some (false, .ok, m, next)
      | (.fail, m) => some (false, .error, m, next)

/-! ## `ParseRsp` -/

/-- The `switch` of `ParseRsp` for the byte `ch` at `p`; the result is `none` for `break`. -/
def parseSwitch (m : Layer) (p : Int) (ch : UInt8) : Option ParseRet × Layer :=
  match m.nowState with
  | .start =>
    let m := { m with iNeedArgNum := 1, szStart := p, bReadingLine := false }
    if ch = Byte.plus ∨ ch = Byte.colon ∨ ch = Byte.pingB then (none, { m with nowState := .str, bReadingLine := true })
    else if ch = Byte.sub then (none, { m with nowState := .str, bReadingLine := true, iErrFlag := true })
    else if ch = Byte.usd then (none, { m with nowState := .usdNum, iArgLen := 0, bReadingLine := true })
    else if ch = Byte.star then (none, { m with nowState := .narg, iNeedArgNum := 0 })
    else if ch = 0 then (some .startNull, { m with iLen := 0 })
    else (some .error, m)
  | .narg =>
    if Byte.isDigit ch then
      let m := { m with iNeedArgNum := int32 (m.iNeedArgNum * 10 + Byte.digit ch) }
      (none, if m.iNeedArgNum = 0 then { m with nowState := .nargZero } else m)
    else if ch = Byte.cr then (none, { m with nowState := .nargCrlf })
    else if ch = Byte.sub then (none, { m with nowState := .nargNagOne })
    else (some .error, m)
  | .nargZero => if ch = Byte.cr then (none, { m with nowState := .nargCrlf }) else (some .error, m)
  | .nargNagOne => if ch = Byte.one then (none, { m with nowState := .nargZero }) else (some .error, m)
  | .nargCrlf =>
    if ch = Byte.lf then
      if m.iNeedArgNum = 0 then (some .ok, { m with nowState := .msgEnd })
      else (none, { m with nowState := .readingLine, bReadingLine := true })
    else (some .error, m)
  | _ => (none, m)

/-- A line is complete: the key may be in the next one. -/
def lineDone (rd : Int → UInt8) (m : Layer) : Layer :=
  let m := { m with iNowLine := m.iNowLine + 1 }
  let m :=
    if m.szCmd ≠ none ∧ m.szKeyStart = none then
      let m := if m.iKeyInLines = 0 then { m with iKeyInLines := m.keyInLine rd } else m
      if m.iKeyInLines = m.iNowLine + 1 then { m with bKeyLine := true } else m
    else m
  { m with iNeedArgNum := int32 (m.iNeedArgNum - 1) }

/-- A line is complete: the results get it, if there are any. -/
def addResult (m : Layer) : Option MsgResults → Option (Option MsgResults)
  | none => some none
  | some r => if r.vMsgMeta.length = r.iTotal then none else some (some { r with vMsgMeta := r.vMsgMeta ++ [m.line] })

/-- `pResults->iCode = GR_ERROR`. -/
def poorResult (r : Option MsgResults) : Option MsgResults := r.map fun r => { r with iCode := .error }

/-- `ParseRsp`, in at most `n` rounds of its loop. The variable `p` of the loop is not modelled: it is
`szNowPos` wherever it is read. -/
def parseRsp (rd : Int → UInt8) : Nat → Option MsgResults → Layer → List Layer →
    Option (ParseRet × Option MsgResults × Layer × List Layer)
  | 0, _, _, _ => none
  | n + 1, pResults, m, next =>
    if m.szEnd ≤ m.szNowPos then some (.ok, pResults, m, next)
    else if m.bReadingLine then do
      let parse := fun l next => (parseRsp rd n none l next).map fun r => (r.1, r.2.2)
      match ← readLine rd parse m.bKeyLine n m.szNowPos m next with
      | (false, iRet, m, next) => return (iRet, pResults, m, next)
      | (true, _, m, next) =>
        match m.addResult pResults with
        | none => return (.error, poorResult pResults, m, next)
        | some pResults =>
          let m := m.lineDone rd
          if m.iNeedArgNum = 0 then return (.ok, pResults, { m with nowState := .msgEnd }, next)
          else parseRsp rd n pResults { m with nowState := .readingLine, bReadingLine := true } next
    else
      match (m.stepForward 1).parseSwitch m.szNowPos (rd m.szNowPos) with
      | (none, m) => parseRsp rd n pResults m next
      | (some iRet, m) => some (iRet, pResults, m, next)

end Layer

/-- A `GR_RedisMsg` with the chain of its next layers. -/
structure RedisMsg where
  this : Layer
  next : List Layer
deriving DecidableEq, Repr

namespace RedisMsg

/-- `Init`. -/
def init (szNewStart : Int) : RedisMsg := ⟨.init szNewStart, []⟩

/-- `Expand`, and `REDISMSG_EXPAND`. -/
def expand (m : RedisMsg) (iLen : Int) : RedisMsg where
  this := { m.this with szEnd := m.this.szEnd + iLen }
  next := m.next.map fun l => { l with szEnd := l.szEnd + iLen }

/-- `Reset` for one parser, relative to the start of the outermost one. `szCmd` is left as it is. -/
def rebase (szStart szNewStart : Int) (l : Layer) : Layer :=
  { l with
    szEnd := szNewStart + (l.szEnd - szStart)
    szKeyStart := l.szKeyStart.map fun szKeyStart => szNewStart + (szKeyStart - szStart)
    szNowPos := szNewStart + (l.szNowPos - szStart)
    szStart := szNewStart + (l.szStart - szStart) }

/-- `Reset`. -/
def reset (m : RedisMsg) (szNewStart : Int) : RedisMsg where
  this := rebase m.this.szStart szNewStart m.this
  next := m.next.map (rebase m.this.szStart szNewStart)

/-- `StartNext`. -/
def startNext (m : RedisMsg) : RedisMsg := { m with this := m.this.startNext }

/-- The rounds that `ParseRsp` can take: two for each byte, and one for each parser of the chain. Only
lengths that overflow move the parser back and need more. -/
def rounds (m : RedisMsg) : Nat := 2 * (m.this.szEnd - m.this.szNowPos).toNat + m.next.length + 2

/-- `ParseRsp(pResults)`. -/
def parseRspResults (rd : Int → UInt8) (m : RedisMsg) (pResults : Option MsgResults) :
    Option (ParseRet × Option MsgResults × RedisMsg) :=
  (Layer.parseRsp rd m.rounds pResults m.this m.next).map fun r => (r.1, r.2.1, ⟨r.2.2.1, r.2.2.2⟩)

/-- `ParseRsp()`. -/
def parseRsp (rd : Int → UInt8) (m : RedisMsg) : Option (ParseRet × RedisMsg) :=
  (m.parseRspResults rd none).map fun r => (r.1, r.2.2)

end RedisMsg

end RedisProxy
