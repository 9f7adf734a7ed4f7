import RedisProxy.RespScan

/-!
# Feeding the parser

A stream of bytes stands in the memory and is handed to the parser in chunks: `Expand` makes the next
bytes known, then `ParseRsp` is called until the message that it reads is not complete, with `StartNext`
after each message, as `ProcessMsg` does. A failure ends it.
-/

namespace RedisProxy

/-- A memory with the text `s` at address 0. -/
def memoryOf (s : String) : Int → UInt8 := fun p => (s.toList.map fun c => c.toNat.toUInt8).getD p.toNat 0

namespace RedisMsg

/-- A call of `ParseRsp`: what it returned, and the parser after it. -/
structure Call where
  iRet : ParseRet
  msg : RedisMsg
deriving DecidableEq, Repr

/-- The message is complete. -/
def Call.isEnd (c : Call) : Bool := c.msg.this.nowState == .msgEnd

/-- Calls `ParseRsp` at most `n` times: again after null bytes, and again after `StartNext` at the end of a
message. -/
def parseAll (rd : Int → UInt8) : Nat → RedisMsg → Option (List Call)
  | 0, _ => none
  | n + 1, m =>
    match m.parseRsp rd with
    | none => none
    | some (.startNull, m) => (parseAll rd n m).map (⟨.startNull, m⟩ :: ·)
    | some (.error, m) => some [⟨.error, m⟩]
    | some (.ok, m) =>
      if m.this.nowState = .msgEnd then (parseAll rd n m.startNext).map (⟨.ok, m⟩ :: ·) else some [⟨.ok, m⟩]

/-- The call has returned a complete message. -/
def Call.isMsg (c : Call) : Bool := c.iRet == .ok && c.isEnd

/-- A stream of messages, with null bytes before each of them. -/
def pieces (ps : List (Nat × List UInt8)) : List UInt8 := ps.flatMap fun x => List.replicate x.1 0 ++ x.2

/-- The same stream from `p` on: where the messages end, and how long they are. -/
def pieceEnds : Int → List (Nat × List UInt8) → List (Int × Int)
  | _, [] => []
  | p, (k, v) :: ps => (p + k + v.length, v.length) :: pieceEnds (p + k + v.length) ps

/-- The messages `vs` stand at `p` one after another: where those end that the first `k` bytes hold, and how long
they are. -/
def endsBy : Int → Nat → List (List UInt8) → List (Int × Int)
  | _, _, [] => []
  | p, k, v :: vs => if v.length ≤ k then (p + v.length, v.length) :: endsBy (p + v.length) (k - v.length) vs else []

/-- The calls that a chunk of `len` bytes can take. -/
def calls (m : RedisMsg) : Nat := (m.this.szEnd - m.this.szNowPos).toNat + 1

/-- Feeds chunks of the lengths `lens` and returns the calls of `ParseRsp`. -/
def feedAll (rd : Int → UInt8) : RedisMsg → List Nat → Option (List Call)
  | _, [] => some []
  | m, len :: lens =>
    match parseAll rd (m.expand len).calls (m.expand len) with
    | none => none
    | some log =>
      match log.getLast? with
      | some ⟨.ok, m⟩ => (feedAll rd m lens).map (log ++ ·)
      | _ => some log

end RedisMsg

namespace Scan

/-- The reader starts anew after a message. -/
def restart (c : Scan) : Scan := if c.state = .msgEnd then init else c

/-- One byte of a stream of messages. -/
def stream (ch : UInt8) (c : Scan) : Option ParseRet × Scan :=
  match step ch c.restart with
  | (some .error, d) => (some .error, d)
  | (_, d) => (none, d)

/-- The reader finds no mistake in a stream. -/
def Faultless (bs : List UInt8) : Prop := (Lib.feeds stream bs init).1 = none

instance (bs : List UInt8) : Decidable (Faultless bs) := inferInstanceAs (Decidable (_ = _))

/-- Each byte of a stream meets `P`. -/
def Throughout (P : UInt8 → Scan → Prop) (bs : List UInt8) (c : Scan) : Prop :=
  Lib.Along (fun b c => P b c.restart) stream bs c

instance (P : UInt8 → Scan → Prop) [∀ b c, Decidable (P b c)] (bs : List UInt8) (c : Scan) :
    Decidable (Throughout P bs c) := inferInstanceAs (Decidable (Lib.Along _ _ _ _))

/-- The largest length that the lines of the outermost array declare, after the byte `ch`. -/
def nextMax (ch : UInt8) (c : Scan) (x : Nat) : Nat :=
  if c.state = .usdNum ∧ c.outer = [] ∧ ch = Byte.cr then max x c.arg else x

/-- The same after some bytes of a message. -/
def maxLen : List UInt8 → Scan → Nat → Nat
  | [], _, x => x
  | ch :: bs, c, x => maxLen bs (step ch c).2 (nextMax ch c x)

/-- The same for the last message of a stream. -/
def streamMax : List UInt8 → Scan → Nat → Nat
  | [], _, x => x
  | ch :: bs, c, x => streamMax bs (stream ch c).2 (nextMax ch c.restart (if c.state = .msgEnd then 0 else x))

/-- The number that the byte continues stays in the range of an `int`, and a length does so with the 256 bytes
that `Read` adds to it. -/
def InRange (ch : UInt8) (c : Scan) : Prop :=
  Fit ch c ∧ (c.state = .usdNum → Byte.isDigit ch = true → c.arg * 10 + Resp.digitNat ch + 256 < 2 ^ 31)

instance (ch : UInt8) (c : Scan) : Decidable (InRange ch c) := inferInstanceAs (Decidable (_ ∧ _))

/-- The byte is not a null byte before a message. -/
def NotNull (ch : UInt8) (c : Scan) : Prop := c.state = .start → ch ≠ 0

instance (ch : UInt8) (c : Scan) : Decidable (NotNull ch c) := inferInstanceAs (Decidable (_ → _))

/-- The bytes are one message, as the reader sees it. -/
def IsMessage (v : List UInt8) : Prop := ∃ d, Lib.feeds step v init = (some .ok, d, [])

/-- The number of messages that a stream holds, up to the first mistake. -/
def messages : List UInt8 → Scan → Nat
  | [], _ => 0
  | ch :: bs, c =>
    match step ch c with
    | (none, d) => messages bs d
    | (some .ok, _) => messages bs init + 1
    | (some .startNull, d) => messages bs d
    | (some .error, _) => 0

/-- The number of bytes behind the first message of a stream. -/
def behind (bs : List UInt8) : Nat :=
  match Lib.feeds step bs init with
  | (some .ok, _, rest) => rest.length
  | _ => 0

/-- The numbers of a stream are in range. -/
def Ranged (bs : List UInt8) : Prop := Throughout InRange bs init

instance (bs : List UInt8) : Decidable (Ranged bs) := inferInstanceAs (Decidable (Throughout _ _ _))

/-- A stream that the parser can read: its numbers are in range, and no null byte stands before a message. -/
def Clear (bs : List UInt8) : Prop := Throughout (fun b c => InRange b c ∧ NotNull b c) bs init

instance (bs : List UInt8) : Decidable (Clear bs) := inferInstanceAs (Decidable (Throughout _ _ _))

end Scan

namespace RedisMsg

/-- The counts and lengths of the parser are those that the reader has read: the lines that the outermost array
still needs, the bytes that its bulk string still needs, and the largest length of its bulk strings. -/
structure Holds (m : Layer) (c : Scan) (x : Nat) : Prop where
  need : c.state ≠ .start → m.iNeedArgNum = if c.state = .msgEnd then 0 else (c.outer.getLast?.getD c.need : Nat)
  needMax : c.state ≠ .start → m.iNeedArgNum < 2 ^ 31
  arg : Scan.inBulk c.state = true → c.outer = [] → m.iArgLen = c.arg
  maxLen : m.iMaxLen = x

/-- The parser is inside of its buffer and has not gone back from `prev`, and its numbers are in range. If the call
has not failed, the parser is before a message, or its numbers are those that the bytes read so far declare. -/
structure SafeCall (bs : List UInt8) (prev : Int) (call : Call) : Prop where
  start_le : call.msg.this.szStart ≤ call.msg.this.szNowPos
  le : call.msg.this.szNowPos ≤ call.msg.this.szEnd
  mono : prev ≤ call.msg.this.szNowPos
  arg : 0 ≤ call.msg.this.iArgLen ∧ call.msg.this.iArgLen < 2 ^ 31
  max : 0 ≤ call.msg.this.iMaxLen ∧ call.msg.this.iMaxLen + 256 < 2 ^ 31
  declared : call.iRet ≠ .error → call.msg.this.nowState = .start ∧ call.msg.this.iMaxLen = 0 ∨
    ∃ us c, us <+: bs ∧ Lib.feeds Scan.stream us Scan.init = (none, c, []) ∧
      Holds call.msg.this c (Scan.streamMax us Scan.init 0)

/-- The parser has found the command and the key of the request with the arguments `as`. -/
structure Extracted (rd : Int → UInt8) (as : List (List UInt8)) (m : Layer) : Prop where
  cmd : ∀ a, as.head? = some a → ∃ szCmd, m.szCmd = some szCmd ∧ m.iCmdLen = a.length ∧ bytesAt rd szCmd a.length = a
  key : ∀ a, as[Resp.keyArg as - 1]? = some a →
    ∃ szKey, m.szKeyStart = some szKey ∧ m.iKeyLen = a.length ∧ bytesAt rd szKey a.length = a

/-- The key of a request is not empty, or it is its last argument. -/
def KeySet (as : List (List UInt8)) : Prop := ∀ a, as[Resp.keyArg as - 1]? = some a → a ≠ [] ∨ as.length = Resp.keyArg as

/-- Every call is safe. -/
def SafeCalls (bs : List UInt8) : Int → List Call → Prop
  | _, [] => True
  | prev, call :: calls => SafeCall bs prev call ∧ SafeCalls bs call.msg.this.szNowPos calls

end RedisMsg

end RedisProxy
