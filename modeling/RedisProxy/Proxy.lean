import RedisProxy.AccessEvent
import RedisProxy.Lib.Runs

/-!
# The proxy

All connections of one redis group together: the clients, the backends, and what they share. Each
step is a callback of the event loop: a complete request or reply, a write event, a connection that
breaks or completes, or a timer. What lies outside of the proxy comes with the label of the step: the
answers of the kernel, the bytes received, and the choice of a backend by the route.

A step without a result is a failed `ASSERT` or a null pointer; `exit(0)` ends the run.
-/

namespace RedisProxy

/-- `m_iRouteMode`. -/
inductive RouteMode
  | twem
  | cluster
  | tiny
deriving DecidableEq, Repr

/-- The configuration of the group. -/
structure Config where
  mode : RouteMode
  /-- `m_iDB` of each server of a tiny group. -/
  iDB : Nat → Nat

/-! ## Messages that the proxy writes by itself -/

/-- The bytes of a text in a message block; a text that is too long does not fit any block. -/
def Msg.ofString (s : String) : Msg :=
  let bytes := s.toList.map fun c => UInt8.ofNat c.toNat
  if h : bytes.length < 2 ^ 31 then ⟨bytes, h⟩ else ⟨[], by decide⟩

/-- `SelectCmd(iDB)`. -/
def selectCmd (iDB : Nat) : Msg :=
  .ofString s!"*2\r\n$6\r\nselect\r\n${(toString iDB).length}\r\n{iDB}\r\n"

/-- The content of the static blocks. -/
def staticData (pData : Nat) : Msg :=
  if pData = MemPool.flushdbCmd then .ofString "*1\r\n$7\r\nflushdb\r\n"
  else if pData = MemPool.askingCmd then .ofString "*1\r\n$6\r\nASKING\r\n"
  else ⟨[], by decide⟩

/-- `IS_OK_RESULT`; `str5icmp` compares each byte up to bit 5. -/
def isOkResult (m : Msg) : Bool :=
  m.bytes.length == 5 &&
    (m.bytes.zip (staticText "+ok\r\n")).all fun (b, c) => b == c || b == c ^^^ 0x20
where
  staticText (s : String) : List UInt8 := s.toList.map fun c => UInt8.ofNat c.toNat

/-! ## State -/

/-- A client connection. -/
structure ClientConn where
  ev : AccessEvent
  sock : Socket

/-- A command given to `SendMsg`. -/
structure Cmd where
  isSelect : Bool
  bytes : List UInt8
deriving DecidableEq, Repr

/-- One connection epoch of a backend: the commands queued in it, and the bytes written. -/
structure EpochLog where
  cmds : List Cmd
  sent : List UInt8
deriving DecidableEq, Repr

/-- A backend: its event, and the history of its connections. -/
structure Backend where
  ev : RedisEvent
  /-- The block of `m_ReadCache`. -/
  pCache : Nat
  /-- `m_lConnectSuccessTimes`, of `GR_TinyRedisEvent`. -/
  lConnectSuccessTimes : Nat
  sock : Socket
  /-- The commands of the present epoch. -/
  cmds : List Cmd
  past : List EpochLog
  /-- The requests for which the identities in the wait ring were queued. -/
  tags : List Nat
  /-- The status in which `ReConnect` has run `ReInit`, each time. -/
  reInits : List ConnectStatus

/-- A timer whose callback is `GR_RedisEventReconnectCB`. -/
structure Timer where
  idx : Nat
  server : Nat
  ulMS : Nat
  ulNextMS : Nat
deriving DecidableEq, Repr

/-- The state of the proxy. -/
structure Proxy where
  st : Store
  /-- The content of the memory blocks, up to `m_sUsedSize`. -/
  data : Nat → Msg
  clients : Nat → ClientConn
  nClients : Nat
  backends : Nat → Backend
  nBackends : Nat
  /-- `m_vServers`; an entry is null or has an event. -/
  vServers : List (Option Nat)
  timers : List Timer
  nextTimer : Nat
  /-- `CURRENT_MS`. -/
  now : Nat
  /-- `m_bListenFlag`, of `GR_TinyRoute`. -/
  bListenFlag : Bool
  /-- The request that an identity stands for, and the number of the next one. -/
  serial : Nat → Nat
  nextSerial : Nat
  /-- The process has ended by `exit`. -/
  exited : Bool

namespace Proxy

/-- The state before the first connection. -/
def init : Proxy where
  st := .init
  data := staticData
  clients := fun _ => ⟨.init 0 0, ⟨[], []⟩⟩
  nClients := 0
  backends := fun _ => ⟨.init, 0, 0, ⟨[], []⟩, [], [], [], []⟩
  nBackends := 0
  vServers := []
  timers := []
  nextTimer := 0
  now := 0
  bListenFlag := false
  serial := fun _ => 0
  nextSerial := 1
  exited := false

def setStore (w : Proxy) (st : Store) : Proxy := { w with st }

def setData (w : Proxy) (pData : Nat) (m : Msg) : Proxy := { w with data := Function.update w.data pData m }

def setClient (w : Proxy) (c : Nat) (x : ClientConn) : Proxy :=
  { w with clients := Function.update w.clients c x }

def setBackend (w : Proxy) (b : Nat) (x : Backend) : Proxy :=
  { w with backends := Function.update w.backends b x }

/-- Writes the event of a backend. -/
def setEvent (w : Proxy) (b : Nat) (ev : RedisEvent) : Proxy := w.setBackend b { w.backends b with ev }

/-! ## Memory -/

/-- `GR_MEMPOOL_GETDATA`. -/
def getData (w : Proxy) (sSize : Nat) : Option (Nat × Proxy) := do
  let (pData, mem) ← w.st.mem.getData sSize
  return (pData, w.setStore { w.st with mem })

/-- `GR_MEMDATA_RELEASE`. -/
def releaseData (w : Proxy) (pData : Nat) : Option Proxy := do
  let mem ← w.st.mem.release pData
  return w.setStore { w.st with mem }

/-- `MSGBUFFER_RESET` of a read cache with the block `old`: it gets another block. -/
def resetCache (w : Proxy) (old sSize : Nat) (bRelease : Bool) : Option (Nat × Proxy) := do
  let (pData, w) ← w.getData sSize
  if bRelease then
    let w ← w.releaseData old
    return (pData, w)
  else return (pData, w)

/-- Gives the read cache of the client `c` a block of `sSize` bytes. -/
def resetClientCache (w : Proxy) (c sSize : Nat) (bRelease : Bool) : Option Proxy := do
  let (pCache, w) ← w.resetCache (w.clients c).ev.pCache sSize bRelease
  return w.setClient c { w.clients c with ev := { (w.clients c).ev with pCache } }

/-- Gives the read cache of the backend `b` a block of `sSize` bytes. -/
def resetBackendCache (w : Proxy) (b sSize : Nat) (bRelease : Bool) : Option Proxy := do
  let (pCache, w) ← w.resetCache (w.backends b).pCache sSize bRelease
  return w.setBackend b { w.backends b with pCache }

/-- `GR_AccessEvent::StartNext`. -/
def clientStartNext (w : Proxy) (c : Nat) (bRelease : Bool) : Option Proxy :=
  w.resetClientCache c (w.st.mem.blocks (w.clients c).ev.pCache).sCapacity bRelease

/-- `GR_RedisEvent::StartNext`. -/
def backendStartNext (w : Proxy) (b : Nat) (bRelease : Bool) : Option Proxy :=
  w.resetBackendCache b (w.st.mem.blocks (w.backends b).pCache).sCapacity bRelease

/-! ## Identities -/

/-- `GR_MsgIdenty::ReplyError`. Only clients act on the error. -/
def replyError (w : Proxy) (p : Nat) (iErr : RspErr) : Proxy :=
  match (w.st.ids p).pAccessEvent with
  | some (.client c) =>
    let (st, ev) := AccessEvent.getReplyErr w.st (w.clients c).ev iErr p
    (w.setStore st).setClient c { w.clients c with ev }
  | _ => w

/-- `GR_MsgIdenty::GetReply` with the block `pData`. -/
def getReply (w : Proxy) (p pData : Nat) : Proxy :=
  match (w.st.ids p).pAccessEvent with
  | some (.client c) =>
    let (st, ev) := AccessEvent.getReply w.st (w.clients c).ev pData (w.data pData) p
    (w.setStore st).setClient c { w.clients c with ev }
  | some (.redis _) => w.setStore (w.st.setId p { w.st.ids p with pData := some pData })
  | none => w

/-- `GR_MsgIdenty::Release`. -/
def release (w : Proxy) (side : Side) (p : Nat) : Option Proxy := do
  let st ← w.st.release side p
  return w.setStore st

/-- `GR_RedisEvent::SendMsg(pData, pIdenty)`, which always returns `GR_OK` or aborts. -/
def sendMsg (w : Proxy) (b : Nat) (pData : Option Nat) (p : Nat) : Option Proxy :=
  let w := w.setStore (w.st.setId p { w.st.ids p with pReqData := pData })
  let x := w.backends b
  match x.ev.sendMsg ((pData.map w.data).getD ⟨[], by decide⟩) p with
  | none => none
  | some .disconnected => some (w.replyError p .disconnect)
  | some (.queued ev) =>
    match pData with
    | none => none
    | some pData =>
      let i := w.st.ids p
      let x := { x with
        ev
        cmds := x.cmds ++ [⟨i.isSelect, (w.data pData).bytes⟩]
        tags := x.tags ++ [w.serial p] }
      some ((w.setStore (w.st.setId p { i with pRedisEvent := some b })).setBackend b x)

/-- A new request takes the identity `p`. -/
def newRequest (w : Proxy) (p : Nat) : Proxy :=
  { w with serial := Function.update w.serial p w.nextSerial, nextSerial := w.nextSerial + 1 }

/-! ## Connections to the backends -/

/-- The outcome of `socket` and `connect`; the descriptor is `n + 1`. -/
inductive Connect
  /-- `ConnectToRedis` fails before there is a descriptor. -/
  | socketError
  /-- `EINPROGRESS`. -/
  | inProgress (n : Nat)
  /-- `connect` fails at once. -/
  | refused (n : Nat)
  /-- `connect` succeeds at once. -/
  | connected (n : Nat)
deriving DecidableEq, Repr

/-- The virtual method `ConnectSuccess`: a tiny backend sends `SELECT`. -/
def connectSuccess (cfg : Config) (w : Proxy) (b : Nat) : Option Proxy :=
  if cfg.mode = .tiny ∧ (w.backends b).lConnectSuccessTimes = 0 then do
    let (pData, w) ← w.getData 512
    let w := w.setData pData (selectCmd (cfg.iDB b))
    let (p, st) ← w.st.get
    let i := { st.ids p with pAccessEvent := some (.redis b), isSelect := true }
    ((w.setStore (st.setId p i)).newRequest p).sendMsg b (some pData) p
  else some w

/-- `GR_RedisEvent::ConnectResult`; the caller closes the backend on an error. -/
def connectResult (cfg : Config) (w : Proxy) (b : Nat) (bConnected : Bool) : Option (Ret × Proxy) := do
  let bConnecting := (w.backends b).ev.status == .connecting
  let (iRet, ev) ← (w.backends b).ev.connectResult some bConnected
  let w := w.setEvent b ev
  if bConnecting && iRet == .ok then
    let w ← w.connectSuccess cfg b
    return (.ok, w)
  else return (iRet, w)

/-- The loop of `GR_RedisEvent::Close` over the `n` identities in the wait ring. -/
def drain (b : Nat) : Nat → Proxy → Option Proxy
  | 0, w => some w
  | n + 1, w =>
    match (w.backends b).ev.popIdenty with
    | none => some w
    | some (p, ev) => do
      let w := w.setBackend b { w.backends b with ev, tags := (w.backends b).tags.tail }
      let w ← (w.replyError p .disconnect).release .redis p
      drain b n w

/-- `GR_RedisEvent::Close` without the reconnection. -/
def redisClose (w : Proxy) (b : Nat) : Option Proxy :=
  let ev := (w.backends b).ev
  if ev.iFD = 0 then some w
  else drain b ev.waitRing.getNum (w.setEvent b { ev with iFD := 0, mask := .none, status := .closed })

/-- A new connection epoch with the event `ev`. -/
def startEpoch (w : Proxy) (b : Nat) (ev : RedisEvent) : Proxy :=
  let x := w.backends b
  w.setBackend b { x with ev, sock := ⟨[], []⟩, cmds := [], past := x.past ++ [⟨x.cmds, x.sock.sent⟩] }

/-- `AddTimer` for `GR_RedisEventReconnectCB`. -/
def addTimer (w : Proxy) (b ulMS : Nat) : Proxy :=
  { w with timers := ⟨w.nextTimer, b, ulMS, w.now + ulMS⟩ :: w.timers, nextTimer := w.nextTimer + 1 }

/-- `pMeta->Finish()`. -/
def finishTimer (w : Proxy) (idx : Nat) : Proxy := { w with timers := w.timers.filter fun t => t.idx ≠ idx }

/-- The branch of `ReConnect` before `m_ulNextTry`. -/
def reConnectLater (w : Proxy) (b : Nat) (pMeta : Option Nat) : Proxy :=
  match pMeta with
  | none => w.addTimer b 10
  | some _ => w

/-- `ReConnect` as `ConnectFailed` calls it: `m_ulNextTry` has just been moved ahead. -/
def reConnectSoon (w : Proxy) (b : Nat) : Option Proxy :=
  if w.now < (w.backends b).ev.ulNextTry then some (w.reConnectLater b none) else none

/-- `ConnectFailed` within `ReConnect`. `Close` ends a tiny process, since it has not selected its
database; else it reconnects, and so does `ConnectFailed`. -/
def connectFailed (cfg : Config) (w : Proxy) (b : Nat) : Option Proxy := do
  let w ← w.redisClose b
  match cfg.mode with
  | .tiny => return { w with exited := true }
  | .cluster => return w
  | .twem =>
    let w ← w.reConnectSoon b
    w.reConnectSoon b

/-- The end of a failed `ReConnect`: a timer tries again. The trigger of an existing timer is set
again when its callback returns. -/
def reConnectRetry (w : Proxy) (b tmpMS : Nat) (pMeta : Option Nat) : Proxy :=
  match pMeta with
  | none => w.addTimer b tmpMS
  | some _ => w

/-- The end of a successful `ReConnect`. -/
def reConnectDone (w : Proxy) (pMeta : Option Nat) : Proxy :=
  match pMeta with
  | none => w
  | some idx => w.finishTimer idx

/-- `GR_RedisEvent::ReConnect(pMeta)`. -/
def reConnect (cfg : Config) (w : Proxy) (b : Nat) (pMeta : Option Nat) (conn : Connect) : Option Proxy :=
  let ev := (w.backends b).ev
  if w.now < ev.ulNextTry then some (w.reConnectLater b pMeta)
  else
    let tmpMS := min ((ev.ulMaxTryConnect + 1) * 100) 1000
    let ev := { ev with ulMaxTryConnect := ev.ulMaxTryConnect + 1, ulNextTry := w.now + tmpMS }.reInit
    let w := w.setBackend b { w.backends b with
      ev, tags := [], reInits := (w.backends b).reInits ++ [(w.backends b).ev.status] }
    match conn with
    | .socketError => some (w.reConnectRetry b tmpMS pMeta)
    | .inProgress n => some ((w.startEpoch b (ev.connectInProgress (n + 1))).reConnectDone pMeta)
    | .connected n =>
      some ((w.startEpoch b { ev with iFD := n + 1, mask := ev.mask.addRW (n + 1) }).reConnectDone pMeta)
    | .refused n => do
      let w ← (w.startEpoch b { ev with iFD := n + 1, mask := ev.mask.addRW (n + 1) }).connectFailed cfg b
      return w.reConnectRetry b tmpMS pMeta

/-- The virtual method `Close(false)` of a backend. -/
def backendClose (cfg : Config) (w : Proxy) (b : Nat) (conn : Connect) : Option Proxy :=
  let x := w.backends b
  match cfg.mode with
  | .tiny =>
    if x.lConnectSuccessTimes = 0 ∨ w.bListenFlag = false then do
      let w ← w.redisClose b
      return { w with exited := true }
    else
      let w := w.setBackend b { x with lConnectSuccessTimes := 0 }
      if x.ev.iFD = 0 then some w
      else do
        let w ← w.redisClose b
        w.reConnect cfg b none conn
  | .cluster => w.redisClose b
  | .twem =>
    if x.ev.iFD = 0 then some w
    else do
      let w ← w.redisClose b
      w.reConnect cfg b none conn

/-- `AddRedis` and `Connect`: a new backend at the end of `m_vServers`. A start-up that fails ends the
process. -/
def addServer (cfg : Config) (w : Proxy) (conn : Connect) : Option (Bool × Proxy) := do
  if w.vServers.length + 1 = maxRedisGroup then return (false, { w with exited := cfg.mode != .cluster })
  let b := w.nBackends
  let (pCache, w) ← w.getData 1024
  let x : Backend := ⟨.init, pCache, 0, ⟨[], []⟩, [], [], [], []⟩
  let w := { w.setBackend b x with nBackends := b + 1, vServers := w.vServers ++ [some b] }
  match conn with
  | .inProgress n => return (true, w.startEpoch b (x.ev.connectInProgress (n + 1)))
  | .connected n => return (true, w.startEpoch b { x.ev with iFD := n + 1, mask := x.ev.mask.addRW (n + 1) })
  | .socketError => return (false, { w with exited := cfg.mode != .cluster })
  | .refused n =>
    let w ← (w.startEpoch b { x.ev with iFD := n + 1, mask := x.ev.mask.addRW (n + 1) }).redisClose b
    return (false, { w with exited := cfg.mode != .cluster })

/-! ## Requests -/

/-- What `ProcessMsg` finds out about a request. -/
inductive Request
  /-- The proxy answers it itself: `PING`, an unsupported command, one without a key, one that is too
  large. -/
  | answer (iErr : RspErr)
  /-- `CLUSTER SLOTS`. -/
  | clusterSlots (rsp : Msg)
  /-- The result of `Route` for the key. -/
  | forward (route : Option Nat)
  /-- `_RESET_`. -/
  | reset
deriving Inhabited

/-- The loop of `Broadcast`. -/
def broadcastLoop (p : Nat) : List (Option Nat) → Proxy → Option Proxy
  | [], w => some w
  | pServer :: rest, w => do
    let skip := w.setStore (w.st.setId p { w.st.ids p with iGotNum := (w.st.ids p).iGotNum + 1 })
    let w ←
      match pServer with
      | none => some skip
      | some b =>
        if (w.backends b).ev.status = .connecting ∨ (w.backends b).ev.status = .connected then
          w.sendMsg b (some MemPool.flushdbCmd) p
        else some skip
    broadcastLoop p rest w

/-- `GR_Route::Broadcast`, and the same of `GR_TinyRoute`. -/
def broadcast (w : Proxy) (p : Nat) : Option Proxy := do
  let w := w.setStore (w.st.setId p { w.st.ids p with iNeedWaitNum := w.vServers.length })
  let w ← broadcastLoop p w.vServers w
  if (w.st.ids p).iGotNum = (w.st.ids p).iNeedWaitNum then return w.replyError p .commErr else return w

/-- `Route` found an event with a descriptor. -/
def routed (w : Proxy) : Option Nat → Option Nat
  | none => none
  | some b => if (w.backends b).ev.iFD = 0 then none else some b

/-- The rest of `ProcessMsg`, once the request has the identity `p`. -/
def processRequest (w : Proxy) (c p : Nat) : Request → Option Proxy
  | .answer iErr => (w.replyError p iErr).clientStartNext c true
  | .clusterSlots rsp => do
    let (pData, w) ← w.getData 2048
    ((w.setData pData rsp).getReply p pData).clientStartNext c true
  | .forward route => do
    let pCache := (w.clients c).ev.pCache
    let w := w.setStore (w.st.setId p { w.st.ids p with iBroadcast := false, pReqData := some pCache })
    match w.routed route with
    | none => (w.replyError p .disconnect).clientStartNext c true
    | some b =>
      let w ← w.sendMsg b (some pCache) p
      w.clientStartNext c false
  | .reset => do
    let i := { w.st.ids p with iBroadcast := true, pReqData := some MemPool.flushdbCmd }
    let w ← (w.setStore (w.st.setId p i)).broadcast p
    w.clientStartNext c false

/-- `GR_AccessEvent::ProcessMsg` for one complete request in the read cache. -/
def processMsg (w : Proxy) (c : Nat) (m : Msg) (req : Request) : Option Proxy := do
  let x := w.clients c
  if x.ev.waitRing.poolFull then return w
  let w := w.setData x.ev.pCache m
  let (p, st, ev) ← AccessEvent.addIdenty c w.st x.ev
  (((w.setStore st).setClient c { x with ev }).newRequest p).processRequest c p req

/-! ## Clients -/

/-- `GR_AccessMgr` accepts a connection. -/
def accept (w : Proxy) (iFD : Nat) : Option Proxy := do
  let (pCache, w) ← w.getData 1024
  return { w.setClient w.nClients ⟨.init (iFD + 1) pCache, ⟨[], []⟩⟩ with nClients := w.nClients + 1 }

/-- The loop of `GR_AccessEvent::Close` over the `n` identities in the wait ring. -/
def drainClient (c : Nat) : Nat → Proxy → Option Proxy
  | 0, w => some w
  | n + 1, w =>
    match (w.clients c).ev.waitRing.popFront with
    | (none, _) => some w
    | (some p, waitRing) => do
      let w := w.setClient c { w.clients c with ev := { (w.clients c).ev with waitRing } }
      let w ← w.release .access p
      drainClient c n w

/-- `GR_AccessEvent::Close`, which deletes the event and its read cache. -/
def clientClose (w : Proxy) (c : Nat) : Option Proxy :=
  let x := w.clients c
  if x.ev.iFD = 0 then some w
  else do
    let w ← drainClient c x.ev.waitRing.getNum (w.setClient c { x with ev := { x.ev with iFD := 0, mask := .none } })
    w.releaseData x.ev.pCache

/-- A write event of a client. -/
def clientWrite (w : Proxy) (c : Nat) (script : List WritevRet) : Option Proxy := do
  let x := w.clients c
  let (iRet, y) ← AccessEvent.write c ⟨w.st, x.ev, { x.sock with script }⟩
  let w := (w.setStore y.st).setClient c ⟨y.ev, y.sock⟩
  if iRet = .error then w.clientClose c else return w

/-! ## Replies -/

/-- Where a redirection leads. -/
inductive Target
  /-- The address cannot be read. -/
  | invalid
  /-- A backend with an event. -/
  | known (b : Nat)
  /-- A backend that is not connected yet. -/
  | unknown (conn : Connect)
deriving DecidableEq, Repr

/-- What `SlotPending` finds out about a reply. -/
inductive Reply
  | plain
  | moved (target : Target)
  | ask (target : Target)
deriving DecidableEq, Repr

/-- The two calls of `SendMsg` in `SlotRedirect`. -/
def redirectTo (w : Proxy) (b p : Nat) (bAsking : Bool) : Option Proxy := do
  if bAsking then
    let w ← w.sendMsg b (some MemPool.askingCmd) Store.askingIdenty
    w.sendMsg b (w.st.ids p).pReqData p
  else w.sendMsg b (w.st.ids p).pReqData p

/-- `GR_ClusterRoute::SlotRedirect`, and the error reply if it fails. -/
def slotRedirect (cfg : Config) (w : Proxy) (p : Nat) (bAsking : Bool) : Target → Option Proxy
  | .invalid => some (w.replyError p .commErr)
  | .known b => w.redirectTo b p bAsking
  | .unknown conn => do
    let (bOk, w') ← w.addServer cfg conn
    if bOk then w'.redirectTo w.nBackends p bAsking else return w'.replyError p .commErr

/-- `SlotPending`, when the reply is a redirection. -/
def slotPending (cfg : Config) (w : Proxy) (p : Nat) : Reply → Option Proxy
  | .plain => some w
  | .moved target =>
    let i := w.st.ids p
    let w := w.setStore (w.st.setId p { i with bRedirect := true, iMovedTimes := i.iMovedTimes + 1 })
    if 1024 < i.iMovedTimes + 1 then
      -- the request is copied into the log
      if i.pReqData = none then none else some (w.replyError p .moved)
    else w.slotRedirect cfg p false target
  | .ask target =>
    let i := w.st.ids p
    (w.setStore (w.st.setId p { i with bRedirect := false, iAskTimes := i.iAskTimes + 1 })).slotRedirect cfg p
      true target

/-- Every server of the group has selected its database. -/
def allSelected (w : Proxy) : Bool :=
  w.vServers.all fun s => s.any fun b => (w.backends b).lConnectSuccessTimes != 0

/-- `ResultCheck` of a tiny backend for the reply `m` to the identity `p`; `none` if it fails. -/
def resultCheck (cfg : Config) (w : Proxy) (b p : Nat) (m : Msg) : Option Proxy :=
  if cfg.mode ≠ .tiny ∨ (w.backends b).lConnectSuccessTimes ≠ 0 then some w
  else if (w.st.ids p).isSelect = false then none
  else if isOkResult m = false then none
  else
    let w := w.setBackend b { w.backends b with lConnectSuccessTimes := 1 }
    some { w with bListenFlag := w.bListenFlag || w.allSelected }

/-- The end of `ProcessMsg` for a reply to the identity `p`. -/
def deliver (cfg : Config) (w : Proxy) (b p : Nat) (rsp : Reply) : Option Proxy :=
  if cfg.mode = .cluster ∧ rsp ≠ .plain then do
    let w ← w.slotPending cfg p rsp
    w.backendStartNext b true
  else do
    let w ← (w.getReply p (w.backends b).pCache).release .redis p
    w.backendStartNext b false

/-- `GR_RedisEvent::ProcessMsg` for one complete reply in the read cache. -/
def processReply (cfg : Config) (w : Proxy) (b : Nat) (m : Msg) (rsp : Reply) (conn : Connect) :
    Option Proxy := do
  let x := w.backends b
  let (p, ev) ← x.ev.popIdenty
  let w := (w.setBackend b { x with ev, tags := x.tags.tail }).setData x.pCache m
  match w.resultCheck cfg b p m with
  | none => w.backendClose cfg b conn
  | some w => w.deliver cfg b p rsp

/-- A write event of a backend. -/
def backendWrite (cfg : Config) (w : Proxy) (b : Nat) (bConnected : Bool) (script : List WritevRet)
    (conn : Connect) : Option Proxy := do
  let (iRet, w) ←
    if (w.backends b).ev.status ≠ .connected then w.connectResult cfg b bConnected else some (.ok, w)
  if iRet ≠ .ok then w.backendClose cfg b conn
  else
    let x := w.backends b
    let (iRet, ev, sock) ← x.ev.writeQueue { x.sock with script }
    let w := w.setBackend b { x with ev, sock }
    if iRet = .error then w.backendClose cfg b conn else return w

/-- `GR_RedisEventStatusCB`. -/
def statusTimer (cfg : Config) (w : Proxy) (b : Nat) (bConnected : Bool) (conn : Connect) : Option Proxy := do
  let (iRet, w) ← w.connectResult cfg b bConnected
  if iRet ≠ .ok then w.backendClose cfg b conn else return w

/-- `GR_Timer::Loop` for the timer `t`. -/
def reconnectTimer (cfg : Config) (w : Proxy) (t : Timer) (conn : Connect) : Option Proxy :=
  if w.now < t.ulNextMS then some w
  else do
    let w ← w.reConnect cfg t.server (some t.idx) conn
    return { w with
      timers := w.timers.map fun u => if u.idx = t.idx then { u with ulNextMS := w.now + u.ulMS } else u }

/-! ## Steps -/

inductive Label
  | addServer (conn : Connect)
  /-- The tables of a cluster route change. -/
  | reroute (vServers : List (Option Nat))
  | accept (iFD : Nat)
  | request (c : Nat) (m : Msg) (req : Request)
  /-- A read cache gets a larger block. -/
  | growClient (c sSize : Nat)
  | clientWrite (c : Nat) (script : List WritevRet)
  | clientClose (c : Nat)
  | reply (b : Nat) (m : Msg) (rsp : Reply) (conn : Connect)
  | growBackend (b sSize : Nat)
  | backendWrite (b : Nat) (bConnected : Bool) (script : List WritevRet) (conn : Connect)
  | backendClose (b : Nat) (conn : Connect)
  | statusTimer (b : Nat) (bConnected : Bool) (conn : Connect)
  | reconnectTimer (k : Nat) (conn : Connect)
  | tick (ms : Nat)

/-- One step. Events of closed connections do not occur. -/
def step (cfg : Config) (w : Proxy) (l : Label) : Option Proxy :=
  if w.exited then some w
  else
    match l with
    | .addServer conn => (w.addServer cfg conn).map Prod.snd
    | .reroute vServers =>
      if cfg.mode = .cluster ∧ vServers.length < maxRedisGroup then some { w with vServers } else some w
    | .accept iFD => w.accept iFD
    | .request c m req => if (w.clients c).ev.iFD = 0 then some w else w.processMsg c m req
    | .growClient c sSize => if (w.clients c).ev.iFD = 0 then some w else w.resetClientCache c sSize true
    | .clientWrite c script => if (w.clients c).ev.iFD = 0 then some w else w.clientWrite c script
    | .clientClose c => w.clientClose c
    | .reply b m rsp conn =>
      if (w.backends b).ev.iFD = 0 then some w else w.processReply cfg b m rsp conn
    | .growBackend b sSize => if (w.backends b).ev.iFD = 0 then some w else w.resetBackendCache b sSize true
    | .backendWrite b bConnected script conn =>
      if (w.backends b).ev.iFD = 0 then some w else w.backendWrite cfg b bConnected script conn
    | .backendClose b conn => if (w.backends b).ev.iFD = 0 then some w else w.backendClose cfg b conn
    | .statusTimer b bConnected conn =>
      if (w.backends b).ev.iFD = 0 then some w else w.statusTimer cfg b bConnected conn
    | .reconnectTimer k conn =>
      match w.timers[k]? with
      | none => some w
      | some t => w.reconnectTimer cfg t conn
    | .tick ms => some { w with now := w.now + ms }

end Proxy

end RedisProxy
