import RedisProxy.RedisEvent
import RedisProxy.Lib.Runs

/-!
# One connection epoch of a backend

The life of a `GR_RedisEvent` between `ConnectToRedis` and `Close`, as a machine. Its steps are the
calls that the proxy and the event loop make: `SendMsg`, a write event, the timer that checks the
connection, and `ProcessMsg` for one complete reply. Beside the event the state records what went
in and what came out.
-/

namespace RedisProxy

/-- An epoch: the event, its socket, and the history. -/
structure Epoch where
  ev : RedisEvent
  sock : Socket
  /-- The payloads given to `SendMsg`, in order. -/
  payloads : List (List UInt8)
  /-- The identities given to `SendMsg`, in order. -/
  idents : List Nat
  /-- The identities to which `ProcessMsg` assigned the replies, in order. -/
  paired : List Nat
  /-- The connection has been closed. -/
  isClosed : Bool

namespace Epoch

/-- The epoch that starts with the event `ev`. -/
def start (ev : RedisEvent) : Epoch := ⟨ev, ⟨[], []⟩, [], [], [], false⟩

/-- What `ReInit` and `ConnectToRedis` leave behind. The cells of `m_vCiov` and the mask may hold
anything. -/
structure Start (ev : RedisEvent) : Prop where
  fd : 0 < ev.iFD
  status : ev.status = .connecting ∨ ev.status = .connected
  readIdx : ev.lCiovReadIdx = 0
  writeIdx : ev.lCiovWriteIdx = 0
  ring : ev.waitRing.toList = []

/-- `ReConnect` starts an epoch. -/
theorem start_connectInProgress (ev : RedisEvent) {iFD : Nat} (h : 0 < iFD) :
    Start (ev.reInit.connectInProgress iFD) :=
  ⟨h, Or.inl rfl, rfl, rfl, rfl⟩

inductive Label
  | sendMsg (pData : Msg) (pIdenty : Nat)
  /-- A write event; `script` are the answers of the kernel. -/
  | write (bConnected : Bool) (script : List WritevRet)
  /-- `GR_RedisEventStatusCB`, one second after `connect`. -/
  | statusTimer (bConnected : Bool)
  /-- One complete reply has been read. -/
  | reply

/-- One step; after `Close` the epoch does not change any more. -/
def step (e : Epoch) (l : Label) : Option Epoch :=
  if e.isClosed then some e
  else
    match l with
    | .sendMsg pData pIdenty =>
      match e.ev.sendMsg pData pIdenty with
      | none => none
      | some .disconnected => some e
      | some (.queued ev) =>
        some { e with ev, payloads := e.payloads ++ [pData.bytes], idents := e.idents ++ [pIdenty] }
    | .write bConnected script =>
      match e.ev.write some bConnected { e.sock with script } with
      | none => none
      | some (iRet, ev, sock) => some { e with ev, sock, isClosed := iRet == .error }
    | .statusTimer bConnected =>
      match e.ev.connectResult some bConnected with
      | none => none
      | some (iRet, ev) => some { e with ev, isClosed := iRet == .error }
    | .reply =>
      match e.ev.popIdenty with
      | none => none
      | some (pIdenty, ev) => some { e with ev, paired := e.paired ++ [pIdenty] }

end Epoch

end RedisProxy
