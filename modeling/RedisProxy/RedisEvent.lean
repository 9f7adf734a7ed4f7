import RedisProxy.Event
import RedisProxy.WaitRing

/-!
# `GR_RedisEvent`

One connection to a backend: the requests wait in `m_vCiov` between `m_lCiovReadIdx` and
`m_lCiovWriteIdx` until they have been written, and their identities wait in `m_pWaitRing` for the
replies.

A method that fails returns `Ret.error`, and its caller then runs `Close`; in the source the call
of `Close` is the last thing such a method does. A failed `ASSERT` aborts the process and is `none`.
-/

namespace RedisProxy

/-- `MAX_REDIS_MSG_IDENTY_POOL`, the length of `m_vCiov` and of the wait ring. -/
def maxRedisMsgIdentyPool : Nat := 65535

theorem maxRedisMsgIdentyPool_pos : 0 < maxRedisMsgIdentyPool := by decide

/-- The used part of a `GR_MemPoolData`. `m_sUsedSize` is always set from an `int`. -/
structure Msg where
  bytes : List UInt8
  lt : bytes.length < 2 ^ 31
deriving DecidableEq

/-- The `iovec` that a method stores for a block. -/
def Msg.iovec (m : Msg) : Iovec := ⟨m.bytes, m.bytes.length⟩

theorem Msg.iovec_bytes (m : Msg) : m.iovec.bytes = m.bytes := by
  simp [Msg.iovec, Iovec.bytes]

theorem Msg.iovec_valid (m : Msg) : m.iovec.Valid := ⟨le_rfl, m.lt⟩

/-- The state of a `GR_RedisEvent`. The wait ring holds pointers to identities. -/
structure RedisEvent where
  iFD : Nat
  mask : Mask
  status : ConnectStatus
  vCiov : Nat → Iovec
  lCiovReadIdx : Nat
  lCiovWriteIdx : Nat
  waitRing : WaitRing maxRedisMsgIdentyPool Nat
  ulNextTry : Nat
  ulMaxTryConnect : Nat

namespace RedisEvent

/-- `GR_RedisEvent::Init`. -/
def init : RedisEvent where
  iFD := 0
  mask := .none
  status := .init
  vCiov := fun _ => .null
  lCiovReadIdx := 0
  lCiovWriteIdx := 0
  waitRing := .empty maxRedisMsgIdentyPool_pos
  ulNextTry := 0
  ulMaxTryConnect := 0

/-- `GR_RedisEvent::ReInit`. -/
def reInit (ev : RedisEvent) : RedisEvent :=
  { ev with lCiovReadIdx := 0, lCiovWriteIdx := 0, waitRing := ev.waitRing.reInit }

/-- `ConnectToRedis` with the descriptor `iFD`, when `connect` reports `EINPROGRESS`. -/
def connectInProgress (ev : RedisEvent) (iFD : Nat) : RedisEvent :=
  { ev with iFD, mask := ev.mask.addRW iFD, status := .connecting }

/-- The outcome of `SendMsg` that does not abort. -/
inductive SendMsgRes
  /-- There is no connection: the identity is answered with `REDIS_RSP_DISCONNECT`. -/
  | disconnected
  /-- The request waits in the connection. -/
  | queued (ev : RedisEvent)

/-- `m_lCiovWriteIdx > 0xFFFFFFF` brings both indices down again. -/
def renormalise (ev : RedisEvent) : RedisEvent :=
  if 0xFFFFFFF < ev.lCiovWriteIdx then
    let iDiff := ev.lCiovWriteIdx - ev.lCiovReadIdx
    let lCiovReadIdx := ev.lCiovReadIdx % maxRedisMsgIdentyPool
    { ev with lCiovReadIdx, lCiovWriteIdx := lCiovReadIdx + iDiff }
  else ev

/-- `GR_RedisEvent::SendMsg(pData, pIdenty)`. The full branches end in `ASSERT(false)`. -/
def sendMsg (ev : RedisEvent) (pData : Msg) (pIdenty : Nat) : Option SendMsgRes :=
  if ev.status ≠ .connecting ∧ ev.status ≠ .connected then some .disconnected
  else if ev.lCiovWriteIdx - ev.lCiovReadIdx = maxRedisMsgIdentyPool then none
  else
    match ev.waitRing.addData pIdenty with
    | none => none
    | some waitRing =>
      let iIdx := ev.lCiovWriteIdx % maxRedisMsgIdentyPool
      let ev := { ev with waitRing, lCiovWriteIdx := ev.lCiovWriteIdx + 1 }
      if ev.lCiovReadIdx < ev.lCiovWriteIdx ∧
          ev.lCiovWriteIdx - ev.lCiovReadIdx ≤ maxRedisMsgIdentyPool then
        let ev := ev.renormalise
        some (.queued
          { ev with
            vCiov := Function.update ev.vCiov iIdx pData.iovec
            mask := ev.mask.addWrite ev.iFD })
      else none

/-- `GR_RedisEvent::Sendv` over the cells `iov, …, iov + nsend - 1` of `m_vCiov`. -/
def sendv (ev : RedisEvent) (iov nsend : Nat) (sock : Socket) : Option (Ret × RedisEvent × Socket) :=
  if nsend = 0 then none
  else
    let (iSendRet, sock) := doSendv (iovSlice ev.vCiov iov nsend) sock
    if iSendRet < 0 then
      if iSendRet ≠ grEagain then some (.error, ev, sock) else some (.eagain, ev, sock)
    else if iSendRet = 0 then some (.ok, ev, sock)
    else
      match sendvLoop (fun lCiovReadIdx => some (lCiovReadIdx + 1)) nsend iov iSendRet ev.vCiov
          ev.lCiovReadIdx with
      | none => none
      | some (ret, vCiov, lCiovReadIdx) =>
        let ev := { ev with vCiov, lCiovReadIdx }
        match ret with
        | .ok => some (.ok, { ev with mask := ev.mask.delWrite ev.iFD }, sock)
        | ret => some (ret, ev, sock)

/-- `GR_RedisEvent::ConnectResult`. `bConnected` is the answer of `ConnectedCheck`, `connectSuccess`
the virtual method of that name. -/
def connectResult (connectSuccess : RedisEvent → Option RedisEvent) (bConnected : Bool)
    (ev : RedisEvent) : Option (Ret × RedisEvent) :=
  if ev.status ≠ .connecting then some (.ok, ev)
  else if bConnected = false then some (.error, ev)
  else
    match connectSuccess
        { ev with status := .connected, ulMaxTryConnect := 0, mask := ev.mask.addRead ev.iFD } with
    | none => none
    | some ev => some (.ok, ev)

/-- `GR_RedisEvent::Write` behind the check of the connection. -/
def writeQueue (ev : RedisEvent) (sock : Socket) : Option (Ret × RedisEvent × Socket) :=
  if ev.lCiovReadIdx ≤ ev.lCiovWriteIdx ∧
      ev.lCiovWriteIdx - ev.lCiovReadIdx ≤ maxRedisMsgIdentyPool then
    if ev.lCiovWriteIdx = ev.lCiovReadIdx then
      some (.ok, { ev with mask := ev.mask.delWrite ev.iFD }, sock)
    else
      let iWriteIdx := ev.lCiovWriteIdx % maxRedisMsgIdentyPool
      let iReadIdx := ev.lCiovReadIdx % maxRedisMsgIdentyPool
      if iReadIdx < iWriteIdx then ev.sendv iReadIdx (iWriteIdx - iReadIdx) sock
      else
        match ev.sendv iReadIdx (maxRedisMsgIdentyPool - iReadIdx) sock with
        | none => none
        | some (iRet, ev, sock) =>
          if iRet ≠ .ok then some (iRet, ev, sock)
          else if iWriteIdx = 0 then some (.ok, ev, sock)
          else ev.sendv 0 iWriteIdx sock
  else none

/-- `GR_RedisEvent::Write`. -/
def write (connectSuccess : RedisEvent → Option RedisEvent) (bConnected : Bool) (ev : RedisEvent)
    (sock : Socket) : Option (Ret × RedisEvent × Socket) :=
  if ev.status ≠ .connected then
    match ev.connectResult connectSuccess bConnected with
    | none => none
    | some (iRet, ev) => if iRet ≠ .ok then some (.error, ev, sock) else ev.writeQueue sock
  else ev.writeQueue sock

/-- The identity that `ProcessMsg` takes for a complete reply; it aborts if there is none. -/
def popIdenty (ev : RedisEvent) : Option (Nat × RedisEvent) :=
  match ev.waitRing.popFront with
  | (none, _) => none
  | (some pIdenty, waitRing) => some (pIdenty, { ev with waitRing })

end RedisEvent

end RedisProxy
