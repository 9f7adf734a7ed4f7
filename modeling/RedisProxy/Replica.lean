import RedisProxy.MsgBuffer
import RedisProxy.CString

/-!
# The handshake of a replica

`GR_ReplicaEvent` connects to a master and asks for its data: `PING`, `AUTH`, three `REPLCONF` commands and `PSYNC`, each
sent when the reply to the one before has come. `m_iReplState` says which reply is awaited; `PrepareSync` is called with
what has been read until the master sends its data. What comes after that (`SyncBulkPayload`, `Replicating`) is not part of
the handshake.
-/

namespace RedisProxy

/-- The `REPL_STATE_` constants. -/
inductive ReplState
  | none
  | connect
  | connecting
  | receivePong
  | sendAuth
  | receiveAuth
  | sendPort
  | receivePort
  | sendIp
  | receiveIp
  | sendCapa
  | receiveCapa
  | sendPsync
  | receivePsync
  | transfer
  | connected
deriving DecidableEq, Repr

/-- The `PSYNC_` constants that `ProcPsyncResult` uses. -/
inductive PsyncResult
  | waitReply
  | partialSync
  | fullResync
  | notSupported
  | tryLater
deriving DecidableEq, Repr

inductive ReplicaRet
  | ok
  | eagain
  | error
deriving DecidableEq, Repr

/-- What the configuration says of the master and of the proxy. -/
structure ReplicaConfig where
  masterUser : List UInt8
  masterAuth : List UInt8
  /-- The port of the master. -/
  iPort : Nat
  usPort : Nat
  strIP : List UInt8

/-- A `GR_ReplicaEvent` with its server. -/
structure Replica extends Reader where
  status : ReadStatus
  replState : ReplState
  masterId : List UInt8
  replOffSet : Int
  initReplOffSet : Int
  /-- The commands that have been sent. -/
  sent : List (List (List UInt8))
  /-- The states that have been entered. -/
  entered : List ReplState

namespace Replica

def close (s : Replica) : Replica := { s with status := .closed }

/-- `m_iReplState = replState`. -/
def enter (s : Replica) (replState : ReplState) : Replica :=
  { s with replState, entered := s.entered ++ [replState] }

/-- `SendCommand`; `sendOk` says whether it succeeds. -/
def sendCommand (s : Replica) (sendOk : Bool) (args : List (List UInt8)) : Replica :=
  if sendOk then { s with sent := s.sent ++ [args] } else s

/-- After `ConnectSuccess`: `PING` has been sent. The master id and the offset are those of the configuration. -/
def connectSuccess (mem : Int → UInt8) (uszData : Int) (masterId : List UInt8) (replOffSet : Int) : Replica where
  toReader := .init mem uszData
  status := .opened
  replState := .receivePong
  masterId := masterId
  replOffSet := replOffSet
  initReplOffSet := -1
  sent := [[ascii "PING"]]
  entered := [.receivePong]

/-- `StartNext` at the end of `PrepareSync`. -/
def next (s : Replica) (hint : Int) : Option (ReplicaRet × Replica) :=
  (s.toReader.startNext hint).map fun toReader => (.ok, { s with toReader })

/-- `REPLICA_READ_MSG`, and what follows when the reply is complete. The bytes have already been added to the parser by
`Read`. -/
def readReply (s : Replica) (iRead : Nat) (k : Int → Replica → Option (ReplicaRet × Replica)) :
    Option (ReplicaRet × Replica) :=
  match (s.readMsg.expand iRead).parseRsp s.mem with
  | none => none
  | some (iParseRet, readMsg) =>
    if iParseRet ≠ .ok then some (.error, { s with readMsg, status := .aborted })
    else if readMsg.this.nowState ≠ .msgEnd then some (.eagain, { s with readMsg })
    else k readMsg.this.szStart { s with readMsg }

/-- `SendAuth`, and whether it succeeds. -/
def sendAuth (cfg : ReplicaConfig) (s : Replica) (sendOk : Bool) : Bool × Replica :=
  if cfg.masterUser ≠ [] ∧ cfg.masterAuth ≠ [] then
    let s := s.sendCommand sendOk [ascii "AUTH", cfg.masterUser, cfg.masterAuth]
    if sendOk then (true, s) else (false, s.close)
  else if cfg.masterAuth ≠ [] then
    let s := s.sendCommand sendOk [ascii "AUTH", cfg.masterAuth]
    if sendOk then (true, s) else (false, s.close)
  else
    let s := s.sendCommand sendOk [ascii "REPLCONF", ascii "listening-port", decimalText cfg.usPort]
    if sendOk then (true, s.enter .receivePort) else (false, s.close)

/-- `SendIP`, and whether it succeeds. -/
def sendIP (cfg : ReplicaConfig) (s : Replica) (sendOk : Bool) : Bool × Replica :=
  let s := s.sendCommand sendOk [ascii "REPLCONF", ascii "ip-address", cfg.strIP]
  if sendOk then (true, s.enter .receiveIp) else (false, s.close)

/-- The text of the offset that `PSYNC` asks for. -/
def psyncOffset (s : Replica) : List UInt8 :=
  if s.replOffSet < 0 then ascii "-1" else decimalText (s.replOffSet + 1).toNat

/-- The bytes from `p` to the end of the block. -/
def room (s : Replica) (p : Int) : Nat := (s.readCache.pData.uszEnd - p).toNat

/-- `+FULLRESYNC`: the id and the offset of the master. -/
def fullResync (s : Replica) (szMsgStart : Int) : Replica :=
  let replid := (strchr s.mem 32 (s.room szMsgStart) szMsgStart).map (· + 1)
  let offset := replid.bind fun replid => (strchr s.mem 32 (s.room replid) replid).map (· + 1)
  match replid, offset with
  | some replid, some offset =>
    if offset - replid - 1 = 40 then
      { s with
        masterId := bytesAt s.mem replid 40
        initReplOffSet := strtoll s.mem (s.room offset) offset
        replOffSet := strtoll s.mem (s.room offset) offset }
    else { s with masterId := [] }
  | _, _ => { s with masterId := [] }

/-- The end of a line, for `+CONTINUE`. -/
def lineEnd (rd : Int → UInt8) : Nat → Int → Int
  | 0, p => p
  | n + 1, p => if rd p = Byte.cr ∨ rd p = Byte.lf ∨ rd p = 0 then p else lineEnd rd n (p + 1)

/-- `+CONTINUE`: the master may have a new id. -/
def partialSync (s : Replica) (szMsgStart : Int) : Replica :=
  if lineEnd s.mem (s.room (szMsgStart + 9)) (szMsgStart + 9) - (szMsgStart + 10) = 40 then
    { s with masterId := bytesAt s.mem (szMsgStart + 10) 40 }
  else s

/-- `m_ReadCache.Read(iLen)`. -/
def consume (s : Replica) (iLen : Int) : Replica :=
  { s with readCache := { s.readCache with szMsgStart := s.readCache.szMsgStart + iLen } }

/-- `ProcPsyncResult`: `iResult`, `iPassLen` and the state after it. A line is searched for up to the end of the block. -/
def procPsyncResult (s : Replica) : PsyncResult × Int × Replica :=
  let szMsgStart := s.readCache.szMsgStart
  match strchr s.mem Byte.lf (s.room szMsgStart) szMsgStart with
  | none => (.waitReply, 0, s)
  | some szPos =>
    let iPassLen := szPos - szMsgStart + 1
    let s := s.consume iPassLen
    if iPassLen < 3 then (.waitReply, iPassLen, s)
    else if strncmpEq s.mem szMsgStart (ascii "+FULLRESYNC") then (.fullResync, iPassLen, s.fullResync szMsgStart)
    else if strncmpEq s.mem szMsgStart (ascii "+CONTINUE") then (.partialSync, iPassLen, s.partialSync szMsgStart)
    else if strncmpEq s.mem szMsgStart (ascii "-NOMASTERLINK") || strncmpEq s.mem szMsgStart (ascii "-LOADING") then
      (.tryLater, iPassLen, s)
    else (.notSupported, iPassLen, s)

/-- What the environment decides in a step: whether a command can be sent, where the next block is, and what
`SyncBulkPayload` or `Replicating` returns. -/
structure Env where
  sendOk : Bool
  hint : Int
  bulk : ReplicaRet

/-- `PrepareSync(iRead)`. -/
def prepareSync (cfg : ReplicaConfig) (env : Env) (iRead : Nat) (s : Replica) : Option (ReplicaRet × Replica) :=
  match s.replState with
  | .receivePong => s.readReply iRead fun szMsgStart s =>
    if s.mem szMsgStart ≠ Byte.plus ∧ strncmpEq s.mem szMsgStart (ascii "-NOAUTH") = false ∧
        strncmpEq s.mem szMsgStart (ascii "-ERR operation not permitted") = false then
      some (.error, s)
    else
      match (s.enter .sendAuth).sendAuth cfg env.sendOk with
      | (false, s) => some (.error, s)
      | (true, s) => s.next env.hint
  | .receiveAuth => s.readReply iRead fun szMsgStart s =>
    if s.mem szMsgStart = Byte.sub then some (.error, s)
    else
      let s := s.sendCommand env.sendOk [ascii "REPLCONF", ascii "listening-port", decimalText cfg.iPort]
      if env.sendOk then (s.enter .receivePort).next env.hint else some (.error, s.close)
  | .receivePort => s.readReply iRead fun _ s =>
    -- an error of the master is only logged, here and for the next two commands
    match s.sendIP cfg env.sendOk with
    | (false, s) => some (.error, s)
    | (true, s) => { s with replState := .receiveIp }.next env.hint
  | .receiveIp => s.readReply iRead fun _ s =>
    let s := s.sendCommand env.sendOk
      [ascii "REPLCONF", ascii "capa", ascii "eof", ascii "capa", ascii "psync2"]
    let s := if env.sendOk then s else s.close
    (s.enter .receiveCapa).next env.hint
  | .receiveCapa => s.readReply iRead fun _ s =>
    let s := s.sendCommand env.sendOk [ascii "PSYNC", s.masterId, s.psyncOffset]
    let s := if env.sendOk then s else s.close
    (s.enter .receivePsync).next env.hint
  | .receivePsync =>
    match s.procPsyncResult with
    | (.waitReply, _, s) => some (.ok, s)
    | (.tryLater, _, s) => some (.ok, s.close)
    | (.partialSync, iPassLen, s) => if 0 < iRead - iPassLen then some (env.bulk, s) else s.next env.hint
    | (.notSupported, _, s) => some (.ok, s.close)
    | (.fullResync, iPassLen, s) =>
      let s := s.enter .transfer
      if 0 < iRead - iPassLen then some (env.bulk, s) else s.next env.hint
  | _ => some (.ok, s)

/-- The rest of a round of `Read` when the block is full. -/
def move (s : Replica) (iRet : ReplicaRet) (hint : Int) : Option Replica :=
  let left := s.readCache.leftCapcity
  if 0 ≤ left ∧ left < ((s.readCache.pData.sCapacity / 2 : Nat) : Int) then
    (s.readCache.expand s.mem hint 0).map fun r => { s with toReader := s.toReader.moved r }
  else if iRet = .eagain then some s
  else some { s with toReader := s.toReader.moved (s.readCache.resetBuffer s.mem) }

/-- The bytes `bs` have been read. -/
def received (s : Replica) (bs : List UInt8) : Replica := { s with toReader := s.toReader.receive bs }

/-- The part of `Read` that looks at the state. -/
def process (cfg : ReplicaConfig) (env : Env) (iRead : Nat) (s : Replica) : Option (ReplicaRet × Replica) :=
  if s.replState = .connected ∨ s.replState = .transfer then some (env.bulk, s) else s.prepareSync cfg env iRead

/-- The rest of a round of `Read`, with what `PrepareSync` has returned. -/
def finish (iRead iLeft hint : Int) : ReplicaRet × Replica → Option Replica
  | (.error, s) => some (if s.status = .aborted then s else s.close)
  | (iRet, s) => if iRead < iLeft then some s else s.move iRet hint

/-- A call of `read` in `Read`, and what follows. `read` returns no more than there is room for, and 0 if there is none. -/
def recv (cfg : ReplicaConfig) (s : Replica) (env : Env) : ReadRet → Option Replica
  | .eintr => some s
  | .eagain => some s
  | .failed => some s.close
  | .data bs =>
    let bs := bs.take s.iLeft.toNat
    if bs = [] then some s.close
    else ((s.received bs).process cfg env bs.length).bind (finish bs.length s.iLeft env.hint)

/-- A step: `Read` is called for a connection that is open. -/
def step (cfg : ReplicaConfig) (s : Replica) (l : ReadRet × Env) : Option Replica :=
  if s.status = .opened then s.recv cfg l.2 l.1 else some s

/-- `PrepareSync` has a case for the state. -/
def handles : ReplState → Bool
  | .receivePong | .receiveAuth | .receivePort | .receiveIp | .receiveCapa | .receivePsync => true
  | _ => false

/-- The states of the handshake with a master that asks for no password, in their order. -/
def order : List ReplState :=
  [.receivePong, .sendAuth, .receivePort, .receiveIp, .receiveCapa, .receivePsync, .transfer]

/-- What is read is one reply, as a whole; instead of the reply to `PSYNC` it may be a newline, which keeps the connection
alive. The reply to `PSYNC` is not `+CONTINUE` and has no null byte. -/
def OneReply (s : Replica) (bs : List UInt8) : Prop :=
  bs.length ≤ s.iLeft ∧
    (Resp.Value Resp.Canonical bs ∧ (s.replState = .receivePsync → ¬ ascii "+CONTINUE" <+: bs ∧ 0 ∉ bs) ∨
      s.replState = .receivePsync ∧ bs = [Byte.lf])

/-- No password is configured, and the replies come one by one. -/
def Plain (cfg : ReplicaConfig) (s : Replica) (l : ReadRet × Env) : Prop :=
  cfg.masterAuth = [] ∧ ∀ bs, l.1 = .data bs → s.status = .opened → handles s.replState = true → s.OneReply bs

end Replica

end RedisProxy
