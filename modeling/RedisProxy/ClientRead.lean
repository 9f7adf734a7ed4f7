import RedisProxy.AccessEvent
import RedisProxy.MsgBuffer
import RedisProxy.ParserDriver

/-!
# `GR_AccessEvent::Read`

How the requests of one client are read: `Read` fills `m_ReadCache`, `ProcessMsg` lets the parser `m_ReadMsg` look for
requests in it, and for each request the command decides what is done. The request keeps its block of memory, so
`StartNext` moves the rest of the bytes to another one; `Read` also moves them when the block is full. A block that has
been given back can be overwritten by whoever gets it next.

Each call of `read` is a step here, and so is each move of the bytes between two calls. What `Route` and `SendMsg` do
with a request that is forwarded does not matter to the reader.
-/

namespace RedisProxy

/-! ## Commands -/

/-- What `ProcessMsg` does with a request. -/
inductive Decision
  | unsupported
  | tooLarge
  | pong
  | clusterSlots
  | flush
  | forward
deriving DecidableEq, Repr

/-- `m_iRouteMode` is `PROXY_ROUTE_CLUSTER`, and `m_lLongestReq`. -/
structure ReadConfig where
  cluster : Bool
  lLongestReq : Int

namespace MsgInfo

/-- `strNicmp(szCmd, ..)`. -/
def cmdIcmp (info : MsgInfo) (rd : Int → UInt8) (text : List UInt8) : Bool := info.szCmd.any fun p => strIcmp rd p text

/-- `strNicmp(szKeyStart, ..)`. -/
def keyIcmp (info : MsgInfo) (rd : Int → UInt8) (text : List UInt8) : Bool := info.szKeyStart.any fun p => strIcmp rd p text

/-- `GR_NOT_SRPPORT_CMD`: `SELECT`, and what starts with `FLUSH`. -/
def notSupportCmd (info : MsgInfo) (rd : Int → UInt8) : Bool :=
  info.iCmdLen == 6 && info.cmdIcmp rd [115, 101, 108, 101, 99, 116] ||
    5 < info.iCmdLen && info.cmdIcmp rd [102, 108, 117, 115, 104]

/-- `PING`. -/
def isPing (info : MsgInfo) (rd : Int → UInt8) : Bool := info.iCmdLen == 4 && info.cmdIcmp rd [112, 105, 110, 103]

/-- `IS_RESET`: `_RESET_`. -/
def isReset (info : MsgInfo) (rd : Int → UInt8) : Bool :=
  info.iCmdLen == 7 && info.cmdIcmp rd [95, 114, 101, 115, 101, 116, 95]

/-- `IS_CLUSTER_CMD`, with the length that `ProcessMsg` asks for. -/
def isClusterCmd (info : MsgInfo) (rd : Int → UInt8) : Bool :=
  info.iCmdLen == 7 && info.cmdIcmp rd [99, 108, 117, 115, 116, 101, 114]

/-- `IS_CLUSTER_SLOTS`. -/
def isClusterSlots (info : MsgInfo) (rd : Int → UInt8) : Bool :=
  info.iKeyLen == 5 && info.keyIcmp rd [115, 108, 111, 116, 115]

/-- `IF_CLUSTER_SUPPORT_CMD`: `SLOTS`, `INFO`, `KEYSLOT` and `NODES`. -/
def clusterSupportCmd (info : MsgInfo) (rd : Int → UInt8) : Bool :=
  info.isClusterSlots rd || info.iKeyLen == 4 && info.keyIcmp rd [105, 110, 102, 111] ||
    info.iKeyLen == 7 && info.keyIcmp rd [107, 101, 121, 115, 108, 111, 116] ||
    info.iKeyLen == 5 && info.keyIcmp rd [110, 111, 100, 101, 115]

/-- The part of `ProcessMsg` after the checks of the key and the length. -/
def route (info : MsgInfo) (cfg : ReadConfig) (rd : Int → UInt8) : Decision :=
  if cfg.cluster && info.isClusterCmd rd && !info.clusterSupportCmd rd then .unsupported
  else if cfg.cluster && info.isClusterCmd rd && info.isClusterSlots rd then .clusterSlots
  else if info.isReset rd then .flush
  else .forward

/-- What `ProcessMsg` does with the request that the parser has read. -/
def decision (info : MsgInfo) (cfg : ReadConfig) (rd : Int → UInt8) : Decision :=
  if info.notSupportCmd rd then .unsupported
  else if info.iKeyLen = 0 ∨ cfg.lLongestReq < info.iLen then
    if cfg.lLongestReq < info.iLen then .tooLarge
    else if info.isPing rd then .pong
    else if info.isReset rd then info.route cfg rd
    else .unsupported
  else info.route cfg rd

end MsgInfo

/-! ## The reader -/

/-- A request for which `ProcessMsg` has made its decision: the pointers at that time, and the `m_sUsedSize` bytes of the
block, which are what is forwarded. -/
structure Taken where
  decision : Decision
  szStart : Int
  szMsgStart : Int
  uszData : Int
  szCmd : Option Int
  iCmdLen : Int
  cmd : List UInt8
  bytes : List UInt8
deriving DecidableEq, Repr

/-- The pointers are at the start of the block when the request is taken, and the bytes are one message. -/
structure Taken.Whole (t : Taken) : Prop where
  start : t.szStart = t.szMsgStart
  front : t.szMsgStart = t.uszData
  message : Scan.IsMessage t.bytes

/-- The command is a part of the request, in the block of the request. -/
def Taken.Located (t : Taken) : Prop := ∀ c, t.szCmd = some c → t.uszData ≤ c ∧ c + t.iCmdLen ≤ t.uszData + t.bytes.length ∧
  t.cmd = (t.bytes.drop (c - t.uszData).toNat).take t.iCmdLen.toNat

/-- Where `Read` is: not called, before a call of `read`, or before the bytes are moved. The number is `iMaxMsgRead`. -/
inductive ReadPhase
  | idle
  | reading (iMaxMsgRead : Int)
  | moving (iMaxMsgRead : Int)
deriving DecidableEq, Repr

/-- The client side of one connection, as far as reading goes. -/
structure ClientRead extends Reader where
  /-- The number of entries of `m_pWaitRing`. -/
  ring : Nat
  status : ReadStatus
  phase : ReadPhase
  taken : List Taken
  /-- What `read` has returned so far. -/
  received : List UInt8

namespace ClientRead

/-- `Init`, with the first block at `uszData`. -/
def init (mem : Int → UInt8) (uszData : Int) : ClientRead where
  toReader := .init mem uszData
  ring := 0
  status := .opened
  phase := .idle
  taken := []
  received := []

/-- The part of `ProcessMsg` from the end of a request to `StartNext`. -/
def take (cfg : ReadConfig) (s : ClientRead) : ClientRead :=
  let info := s.readMsg.this.toMsgInfo
  { s with
    ring := s.ring + 1
    taken := s.taken ++ [{
      decision := info.decision cfg s.mem
      szStart := s.readMsg.this.szStart
      szMsgStart := s.readCache.szMsgStart
      uszData := s.readCache.pData.uszData
      szCmd := info.szCmd
      iCmdLen := info.iCmdLen
      cmd := (info.szCmd.map fun p => bytesAt s.mem p info.iCmdLen.toNat).getD []
      bytes := bytesAt s.mem s.readCache.pData.uszData info.iLen.toNat }] }

/-- The results of `ProcessMsg`. -/
inductive ProcessRet
  | ok
  | full
  /-- `ASSERT(false)`. -/
  | abort
deriving DecidableEq, Repr

/-- `ProcessMsg`, in at most `n` rounds of its loop; `hints` are for the blocks that `StartNext` gets. -/
def processMsg (cfg : ReadConfig) : Nat → List Int → ClientRead → Option (ProcessRet × ClientRead)
  | 0, _, _ => none
  | n + 1, hints, s =>
    if s.ring = maxWaitRingLen then some (.full, s)
    else
      match s.readMsg.parseRsp s.mem with
      | none => none
      | some (.startNull, readMsg) => processMsg cfg n hints { s with readMsg }
      | some (.error, readMsg) => some (.abort, { s with readMsg })
      | some (.ok, readMsg) =>
        if readMsg.this.nowState = .msgEnd then do
          let s := take cfg { s with readMsg }
          let reader ← s.toReader.startNext (hints.headD 0)
          processMsg cfg n hints.tail { s with toReader := reader }
        else some (.ok, { s with readMsg })

/-- The bytes `bs` have been read. -/
def receive (s : ClientRead) (bs : List UInt8) : ClientRead :=
  { s with toReader := s.toReader.receive bs, received := s.received ++ bs }

/-- One round of the loop of `Read`, up to the moving of the bytes. `read` returns no more than there is room for, and 0
if there is none. -/
def recv (cfg : ReadConfig) (s : ClientRead) (iMaxMsgRead : Int) (hints : List Int) : ReadRet → Option ClientRead
  | .eintr => some s
  | .eagain => some { s with phase := .idle }
  | .failed => some { s with phase := .idle, status := .closed }
  | .data bs =>
    let bs := bs.take s.iLeft.toNat
    if bs = [] then some { s with phase := .idle, status := .closed }
    else do
      let (iRet, s') ← processMsg cfg (s.receive bs).readMsg.calls hints (s.receive bs)
      match iRet with
      | .abort => return { s' with phase := .idle, status := .aborted }
      | .full => return { s' with phase := .idle }
      | .ok =>
        if bs.length < s.iLeft then return { s' with phase := .idle }
        else return { s' with phase := .moving (iMaxMsgRead - (s'.taken.length - s.taken.length)) }

/-- The rest of the loop of `Read`: the block is full. -/
def move (s : ClientRead) (iMaxMsgRead hint : Int) : Option ClientRead := do
  let sCapacity := s.readCache.pData.sCapacity
  let iAtLeast := int32 (s.readMsg.this.iMaxLen + 256)
  let left := s.readCache.leftCapcity
  let r ←
    if iAtLeast < 0 ∨ sCapacity < iAtLeast then s.readCache.expand s.mem hint iAtLeast
    else if left < 0 ∨ ((sCapacity / 2 : Nat) : Int) < left then some (s.readCache.resetBuffer s.mem)
    else s.readCache.expand s.mem hint 0
  return { s with toReader := s.toReader.moved r, phase := if 0 < iMaxMsgRead then .reading iMaxMsgRead else .idle }

/-- The steps: `Read` is called, a call of `read` in it, the bytes are moved, other code of the process runs and writes
to memory, and the first `k` replies of the wait ring are written to the client. -/
inductive Label
  | enter
  | recv (ret : ReadRet) (hints : List Int)
  | move (hint : Int)
  | others (mem : Int → UInt8)
  | replied (k : Nat)

/-- A step. Other code only runs while `Read` does not, and does not write to the block of the cache. -/
def step (cfg : ReadConfig) (s : ClientRead) : Label → Option ClientRead
  | .enter =>
    if s.status = .opened ∧ s.phase = .idle then
      if s.ring = maxWaitRingLen then some { s with status := .closed } else some { s with phase := .reading 1000 }
    else some s
  | .recv ret hints =>
    match s.phase with
    | .reading iMaxMsgRead => s.recv cfg iMaxMsgRead hints ret
    | _ => some s
  | .move hint =>
    match s.phase with
    | .moving iMaxMsgRead => s.move iMaxMsgRead hint
    | _ => some s
  | .others mem =>
    if s.phase = .idle then some { s with mem := fun a => if s.readCache.pData.has a then s.mem a else mem a } else some s
  | .replied k => if s.phase = .idle then some { s with ring := s.ring - k } else some s

/-! ## Conditions on the steps -/

/-- `Read` moves the bytes with `Expand`. -/
def expands (s : ClientRead) : Prop :=
  let sCapacity := s.readCache.pData.sCapacity
  let iAtLeast := int32 (s.readMsg.this.iMaxLen + 256)
  let left := s.readCache.leftCapcity
  (iAtLeast < 0 ∨ sCapacity < iAtLeast) ∨ ¬ (left < 0 ∨ ((sCapacity / 2 : Nat) : Int) < left)

instance (s : ClientRead) : Decidable s.expands := inferInstanceAs (Decidable (_ ∨ _))

/-- The parser can read what the client has sent, and a block that is expanded has less than 2 ^ 29 bytes. -/
def Orderly (s : ClientRead) : Label → Prop
  | .recv (.data bs) _ => Scan.Clear (s.received ++ bs.take s.iLeft.toNat)
  | .move _ => s.expands → s.readCache.pData.sCapacity < 2 ^ 29
  | _ => True

instance (s : ClientRead) (l : Label) : Decidable (s.Orderly l) := by
  unfold Orderly
  split <;> infer_instance

/-- The client sends the bytes of `w`. -/
def Streams (w : List UInt8) (s : ClientRead) : Label → Prop
  | .recv (.data bs) _ => s.received ++ bs.take s.iLeft.toNat <+: w
  | _ => True

instance (w : List UInt8) (s : ClientRead) (l : Label) : Decidable (s.Streams w l) := by
  unfold Streams
  split <;> infer_instance

/-- The bytes do not go to another block when the parser has found the command of a request. -/
def Keeps (s : ClientRead) : Label → Prop
  | .move _ => s.expands → s.readMsg.this.szCmd = none
  | _ => True

instance (s : ClientRead) (l : Label) : Decidable (s.Keeps l) := by
  unfold Keeps
  split <;> infer_instance

/-- The parser finds no mistake in what the client has sent. -/
def Faultless (s : ClientRead) : Label → Prop
  | .recv (.data bs) _ => Scan.Faultless (s.received ++ bs.take s.iLeft.toNat)
  | _ => True

instance (s : ClientRead) (l : Label) : Decidable (s.Faultless l) := by
  unfold Faultless
  split <;> infer_instance

/-- The wait ring has room for every request that the cache holds when the bytes have been read. -/
def Places (s : ClientRead) : Label → Prop
  | .recv (.data bs) _ => s.ring + Scan.messages (s.content ++ bs.take s.iLeft.toNat) Scan.init ≤ maxWaitRingLen
  | _ => True

instance (s : ClientRead) (l : Label) : Decidable (s.Places l) := by
  unfold Places
  split <;> infer_instance

end ClientRead

end RedisProxy
