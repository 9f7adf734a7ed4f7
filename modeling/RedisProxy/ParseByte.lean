import RedisProxy.RedisMsg
import RedisProxy.Lib.Feed

/-!
# The parser, byte by byte

`ParseRsp` and `ReadLine` are two loops that call each other, and they skip the body of a bulk string at
once. Here the parser reads one byte at a time, with the same `switch` statements and no loops. A byte
goes to the parser of the innermost array that is not complete; when it completes that array, it may
complete the ones around it too.
-/

namespace RedisProxy

namespace Layer

/-- The parser of the innermost array that is not complete. -/
def active (m : Layer) : List Layer → Layer
  | [] => m
  | l :: next => if m.nowState = .inNextLayer then l.active next else m

/-- The bytes of the message that have been read. -/
def size (m : Layer) : List Layer → Int
  | [] => m.iLen
  | l :: next => if m.nowState = .inNextLayer then m.iLen + l.size next else m.iLen

/-- The end of a line, as the loops see it. -/
inductive LineStop
  | lineEnd
  | fail (iRet : ParseRet)
deriving DecidableEq, Repr

/-- One byte of `ReadLine`; `sub` is what it does to the next layer. -/
def lineByte (ch : UInt8) (m : Layer) (next : List Layer) (sub : Option ParseRet × Layer × List Layer) :
    Option LineStop × Layer × List Layer :=
  if m.nowState = .inNextLayer then
    match sub with
    | (none, l, next) => (none, m, l :: next)
    | (some .ok, l, next) => (some .lineEnd, m.nextLayerDone l, l :: next)
    | (some iRet, l, next) => (some (.fail iRet), m, l :: next)
  else if m.nowState = .readingLine ∧ ch = Byte.star then
    let m := { m with nowState := .inNextLayer, line.szStart := m.szNowPos }
    (none, m, [((m.nextLayer.stepForward 1).parseSwitch m.szNowPos ch).2])
  else
    match m.readSwitch m.bKeyLine m.szNowPos ch with
    | (.more, m) => (none, m, next)
    | (.bulk, m) => (none, m, next)
    | (.stop, m) => (none, m, next)
    | (.lineEnd, m) => (some .lineEnd, m, next)
    | (.fail, m) => (some (.fail .error), m, next)

/-- What `ParseRsp` does after a line. -/
def endLine (rd : Int → UInt8) (pResults : Option MsgResults) (m : Layer) (next : List Layer) :
    Option ParseRet × Option MsgResults × Layer × List Layer :=
  match m.addResult pResults with
  | none => (some .error, poorResult pResults, m, next)
  | some pResults =>
    let m := m.lineDone rd
    if m.iNeedArgNum = 0 then (some .ok, pResults, { m with nowState := .msgEnd }, next)
    else (none, pResults, { m with nowState := .readingLine, bReadingLine := true }, next)

/-- One byte of `ParseRsp`; `sub` is what it does to the next layer. -/
def layerByte (rd : Int → UInt8) (ch : UInt8) (pResults : Option MsgResults) (m : Layer) (next : List Layer)
    (sub : Option ParseRet × Layer × List Layer) : Option ParseRet × Option MsgResults × Layer × List Layer :=
  if m.bReadingLine then
    match m.lineByte ch next sub with
    | (none, m, next) => (none, pResults, m, next)
    | (some .lineEnd, m, next) => m.endLine rd pResults next
    | (some (.fail iRet), m, next) => (some iRet, pResults, m, next)
  else
    let r := (m.stepForward 1).parseSwitch m.szNowPos ch
    (r.1, pResults, r.2, next)

/-- One byte of the parser `m` with its chain of next layers. The result is `none` if the message goes on,
`GR_OK` at its end. -/
def byte (rd : Int → UInt8) (ch : UInt8) (pResults : Option MsgResults) (m : Layer) :
    List Layer → Option ParseRet × Option MsgResults × Layer × List Layer
  | [] => m.layerByte rd ch pResults [] (some .error, m, [])
  | l :: next =>
    let r := l.byte rd ch none next
    m.layerByte rd ch pResults (l :: next) (r.1, r.2.2)

/-- What a byte does to the next layer. -/
def subByte (rd : Int → UInt8) (ch : UInt8) (m : Layer) : List Layer → Option ParseRet × Layer × List Layer
  | [] => (some .error, m, [])
  | l :: next => ((l.byte rd ch none next).1, (l.byte rd ch none next).2.2)

/-- The byte is skipped: a line feed is missing after the length of a bulk string. -/
def Skips (ch : UInt8) (m : Layer) (next : List Layer) : Prop :=
  (m.active next).nowState = .usdNumCrlf ∧ ch ≠ Byte.lf

/-- The count or length that the byte continues stays in the range of an `int`, and so does the length
of the message. -/
def Fits (ch : UInt8) (m : Layer) (next : List Layer) : Prop :=
  m.size next + 1 < 2 ^ 31 ∧
    ((m.active next).nowState = .usdNum → Byte.isDigit ch = true →
      (m.active next).iArgLen * 10 + Byte.digit ch < 2 ^ 31) ∧
    ((m.active next).nowState = .narg → Byte.isDigit ch = true →
      (m.active next).iNeedArgNum * 10 + Byte.digit ch < 2 ^ 31)

/-- The states in which `bReadingLine` is set. -/
def inLine : MsgState → Bool
  | .readingLine | .inNextLayer | .usdNum | .usdZero | .usdNumCrlf | .usdStr | .usdEmpty | .usdEmptyOne
  | .str | .strCrlf => true
  | .start | .narg | .nargNagOne | .nargZero | .nargCrlf | .msgEnd => false

/-- What holds in one parser between two bytes of a message. -/
structure Sane (m : Layer) : Prop where
  reading : m.bReadingLine = inLine m.nowState
  notEnd : m.nowState ≠ .msgEnd
  argLen : 0 ≤ m.iArgLen
  argMax : m.iArgLen < 2 ^ 31
  len : 0 ≤ m.iLen

/-- What holds between a parser and the next layer while that reads a nested array. -/
structure Nested (m l : Layer) (next : List Layer) : Prop where
  start : l.szStart = m.szNowPos
  szEnd : l.szEnd = m.szEnd
  nowPos : (l.active next).szNowPos = l.szStart + l.size next
  begun : l.nowState ≠ .start

/-- What holds in a chain of parsers between two bytes of a message. -/
def Ready (m : Layer) : List Layer → Prop
  | [] => m.Sane ∧ m.nowState ≠ .inNextLayer
  | l :: next => m.Sane ∧ (m.nowState = .inNextLayer → m.Nested l next ∧ l.Ready next)

end Layer

/-- The bytes at `p`. -/
def bytesAt (rd : Int → UInt8) (p : Int) : Nat → List UInt8
  | 0 => []
  | n + 1 => rd p :: bytesAt rd (p + 1) n

namespace Layer

/-- The place that the parser has reached. -/
def cursor (m : Layer) (next : List Layer) : Int := (m.active next).szNowPos

/-- The number of bytes that are left. -/
def left (m : Layer) (next : List Layer) : Nat := (m.szEnd - m.cursor next).toNat

/-- The bytes that are left. -/
def window (rd : Int → UInt8) (m : Layer) (next : List Layer) : List UInt8 :=
  bytesAt rd (m.cursor next) (m.left next)

end Layer

/-- The state of a parser while it reads bytes. -/
structure Parse where
  pResults : Option MsgResults
  this : Layer
  next : List Layer
deriving DecidableEq, Repr

namespace Parse

/-- One byte. -/
def step (rd : Int → UInt8) (ch : UInt8) (s : Parse) : Option ParseRet × Parse :=
  let r := s.this.byte rd ch s.pResults s.next
  (r.1, ⟨r.2.1, r.2.2.1, r.2.2.2⟩)

end Parse

end RedisProxy
