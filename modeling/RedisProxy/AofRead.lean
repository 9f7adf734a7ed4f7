import RedisProxy.ClientRead

/-!
# `GR_LoadAofEvent::Read`

How the requests of an append only file are read and sent to the servers. It is the code for a client with other checks:
`fread` fills the cache and `ProcessMsg` takes the requests from it. `StartNext` asks for the new block with
`ResetMemPool(true)`, which is a block for one byte. After a time mark the loop goes on without `StartNext`, so that the
parser stays at the end of the mark. `TransferMsgToRedis` does nothing but return `GR_OK`.

`LoadAofFile` calls `Read`, or `ClearPending` when the wait ring was full, and lets the other events run in between. Each
round of the loop of `ProcessMsg` is a step here.
-/

namespace RedisProxy

/-- `CharToInt`: the sign and the digits of a text. The digits are not checked. -/
def charToInt (text : List UInt8) : Int :=
  let digits := List.foldl (fun (iResult : Int) ch => int32 (iResult * 10 + (ch.toNat : Int).bmod 256 - 48)) 0
  match text with
  | [] => 0
  | ch :: rest => if ch = Byte.sub then int32 (-digits rest) else digits text

/-- `IS_TIMEFLAG`. -/
def MsgInfo.isTimeflag (info : MsgInfo) (rd : Int → UInt8) : Bool :=
  info.iCmdLen == 8 && info.cmdIcmp rd [116, 105, 109, 101, 102, 108, 97, 103]

/-- `m_iProcFlag`. Without replies of a server, `GR_LOAD_FINISH` is not reached. -/
inductive LoadFlag
  | start
  | finishRead
  | error
deriving DecidableEq, Repr

/-- Who has called `ProcessMsg`: `Read`, after a call of `fread` that has or has not filled the cache, and at the end of the
file or not, or `ClearPending`. -/
inductive LoadCaller
  | read (short feof : Bool)
  | clearPending
deriving DecidableEq, Repr

/-- Where the loader is: not running, before a call of `fread`, before a round of `ProcessMsg`, or before the bytes are
moved. -/
inductive LoadPhase
  | idle
  | reading
  | processing (caller : LoadCaller)
  | moving
deriving DecidableEq, Repr

/-- The results of `ProcessMsg`; `GR_ERROR` and `GR_AOF_END` both end the loading. -/
inductive LoadRet
  | ok
  | full
  | error
deriving DecidableEq, Repr

/-- The loader of one file. -/
structure AofRead extends Reader where
  /-- `iWaitDone` of the entries of `m_pWaitRing`. -/
  ring : List Bool
  iProcFlag : LoadFlag
  iPending : Bool
  iSelectNum : Nat
  phase : LoadPhase
  /-- What `fread` has returned so far. -/
  received : List UInt8
  /-- The bytes that `StartNext` has consumed. -/
  consumed : List UInt8

namespace AofRead

/-- `Init` and `Loading`, with the first block at `uszData`. -/
def init (mem : Int → UInt8) (uszData : Int) : AofRead where
  toReader := .init mem uszData
  ring := []
  iProcFlag := .start
  iPending := false
  iSelectNum := 0
  phase := .idle
  received := []
  consumed := []

/-- `GetReply` for the newest request: the requests that are done leave the wait ring. -/
def getReply (s : AofRead) : AofRead := { s with ring := (s.ring.dropLast ++ [true]).dropWhile id }

/-- `StartNext`. The argument of `ResetMemPool` is `true`, taken for a size. -/
def startNext (s : AofRead) (hint : Int) : Option AofRead :=
  let readCache := { s.readCache with szMsgStart := s.readCache.szMsgStart + s.readMsg.this.iLen }
  (readCache.resetMemPool s.mem hint 1).map fun r =>
    { s with
      toReader := { s.toReader with readMsg := s.readMsg.startNext }.moved r
      consumed := s.consumed ++ bytesAt s.mem s.readCache.szMsgStart s.readMsg.this.iLen.toNat }

/-- `ProcessMsg` for a request that the parser has read. The result is `none` if the loop goes on. -/
def process (lUnixTime : Int) (s : AofRead) (hint : Int) : Option (Option LoadRet × AofRead) :=
  let info := s.readMsg.this.toMsgInfo
  if info.iKeyLen = 0 ∨ 1572864 < info.iLen then (s.getReply.startNext hint).map fun s => (some .error, s)
  else if info.iCmdLen = 6 ∧ info.cmdIcmp s.mem [115, 101, 108, 101, 99, 116] then
    let s := { s with iSelectNum := s.iSelectNum + 1 }
    if 1 < s.iSelectNum then some (some .error, s) else (s.getReply.startNext hint).map fun s => (none, s)
  else if info.isTimeflag s.mem then
    if 0 < lUnixTime then
      let text := (info.szKeyStart.map fun p => bytesAt s.mem p info.iKeyLen.toNat).getD []
      if info.iKeyLen < 0 ∨ lUnixTime < (charToInt text).tdiv 1000 then some (some .error, s) else some (none, s)
    else some (none, s)
  else (s.startNext hint).map fun s => (none, s)

/-- One round of the loop of `ProcessMsg`. -/
def round (lUnixTime : Int) (s : AofRead) (hint : Int) : Option (Option LoadRet × AofRead) :=
  if s.ring.length = maxWaitRingLen then some (some .full, s)
  else
    match s.readMsg.parseRsp s.mem with
    | none => none
    | some (.ok, readMsg) =>
      if readMsg.this.nowState = .msgEnd then process lUnixTime { s with readMsg, ring := s.ring ++ [false] } hint
      else some (some .ok, { s with readMsg })
    | some (_, readMsg) => some (some .error, { s with readMsg })

/-- `finish_check`. -/
def finishCheck (s : AofRead) (feof : Bool) : AofRead :=
  { s with phase := .idle, iProcFlag := if feof then .finishRead else .error }

/-- `ProcessMsg` has returned to its caller. -/
def returned (s : AofRead) : LoadRet → LoadCaller → AofRead
  | .ok, .read short feof => if short then s.finishCheck feof else { s with phase := .moving }
  | .ok, .clearPending => { s with phase := .idle }
  | .full, _ => { s with phase := .idle, iPending := true }
  | .error, _ => { s with phase := .idle, iProcFlag := .error }

/-- The bytes `bs` have been read. -/
def receive (s : AofRead) (bs : List UInt8) : AofRead :=
  { s with toReader := s.toReader.receive bs, received := s.received ++ bs }

/-- The start of the loop of `Read`. -/
def again (s : AofRead) : AofRead :=
  if s.ring.length = maxWaitRingLen then { s with phase := .idle, iPending := true } else { s with phase := .reading }

/-- The end of the loop of `Read`: the block is full. -/
def move (s : AofRead) (hint : Int) : Option AofRead := do
  let left := s.readCache.leftCapcity
  let r ←
    if left < 0 ∨ ((s.readCache.pData.sCapacity / 2 : Nat) : Int) < left then some (s.readCache.resetBuffer s.mem)
    else s.readCache.expand s.mem hint 0
  return { s with toReader := s.toReader.moved r }.again

/-- The steps: `Read` or `ClearPending` is called, a call of `fread`, a round of `ProcessMsg`, the bytes are moved, and
other code of the process runs and writes to memory. -/
inductive Label
  | enter
  | clearPending
  | fread (bs : List UInt8) (feof : Bool)
  | round (hint : Int)
  | move (hint : Int)
  | others (mem : Int → UInt8)

/-- A step. Other code only runs while the loader does not, and does not write to the block of the cache. -/
def step (lUnixTime : Int) (s : AofRead) : Label → Option AofRead
  | .enter => if s.phase = .idle ∧ s.iPending = false ∧ s.iProcFlag = .start then some s.again else some s
  | .clearPending =>
    if s.phase = .idle ∧ s.iPending = true ∧ s.iProcFlag ≠ .error then
      if s.ring = [] then some { s with iPending := false, iProcFlag := .error }
      else some { s with iPending := false, phase := .processing .clearPending }
    else some s
  | .fread bs feof =>
    match s.phase with
    | .reading =>
      let bs := bs.take s.iLeft.toNat
      if bs = [] then some (s.finishCheck feof)
      else some { s.receive bs with phase := .processing (.read (decide ((bs.length : Int) < s.iLeft)) feof) }
    | _ => some s
  | .round hint =>
    match s.phase with
    | .processing caller => do
      match ← s.round lUnixTime hint with
      | (none, s) => return s
      | (some iRet, s) => return s.returned iRet caller
    | _ => some s
  | .move hint => if s.phase = .moving then s.move hint else some s
  | .others mem =>
    if s.phase = .idle then some { s with mem := fun a => if s.readCache.pData.has a then s.mem a else mem a } else some s

/-! ## A condition on the steps -/

/-- `Read` moves the bytes with `Expand`. -/
def expands (s : AofRead) : Prop :=
  ¬ (s.readCache.leftCapcity < 0 ∨ ((s.readCache.pData.sCapacity / 2 : Nat) : Int) < s.readCache.leftCapcity)

instance (s : AofRead) : Decidable s.expands := inferInstanceAs (Decidable (¬ _))

/-- Before a round of `ProcessMsg` the numbers in the cache are in range and at most 512 bytes stand behind a message; a block
that is expanded has less than 2 ^ 29 bytes. -/
def Orderly (s : AofRead) : Label → Prop
  | .round _ => Scan.Ranged s.content ∧ Scan.behind s.content ≤ 512
  | .move _ => s.expands → s.readCache.pData.sCapacity < 2 ^ 29
  | _ => True

instance (s : AofRead) (l : Label) : Decidable (s.Orderly l) := by
  unfold Orderly
  split <;> infer_instance

end AofRead

end RedisProxy
