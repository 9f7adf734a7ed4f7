import RedisProxy.MemPool
import RedisProxy.RedisEvent

/-!
# `GR_MsgIdenty` and its pool

Each request has an identity, which the wait rings of its client and of its backends point to. An
identity is held from both sides, through `pAccessEvent` and `pRedisEvent`, and goes back to the pool
when both have let go of it. `Store` is what all connections share: the identities, their pool and
the memory pool.
-/

namespace RedisProxy

/-- The event behind `pAccessEvent`: a client, or the backend connection that sends `SELECT`. -/
inductive Owner
  | client (c : Nat)
  | redis (b : Nat)
deriving DecidableEq, Repr

/-- The argument of `Release`: `ACCESS_RELEASE` or `REDIS_RELEASE`. -/
inductive Side
  | access
  | redis
deriving DecidableEq, Repr

/-- `GR_MsgIdenty`. `isSelect` says that `uiCmdType` is `GR_CMD_SELECT`. -/
structure MsgIdenty where
  iPreGood : Bool
  iWaitRsp : Bool
  iWaitDone : Bool
  iStaticFlag : Bool
  iBroadcast : Bool
  iNeedWaitNum : Nat
  iGotNum : Nat
  isSelect : Bool
  pAccessEvent : Option Owner
  pRedisEvent : Option Nat
  pData : Option Nat
  pReqData : Option Nat
  ulIndex : Nat
  bRedirect : Bool
  iMovedTimes : Nat
  iAskTimes : Nat
  /-- The replies given to `DoReply`, and whether each of them has completed the request. -/
  replies : List (List UInt8 × Bool)
deriving DecidableEq, Repr

namespace MsgIdenty

/-- An identity after `memset(pIdenty, 0, sizeof(GR_MsgIdenty))`. -/
def zero : MsgIdenty :=
  ⟨false, false, false, false, false, 0, 0, false, none, none, none, none, 0, false, 0, 0, []⟩

/-- `new GR_MsgIdenty(iStaticFlag)`. -/
def new (iStaticFlag : Bool) : MsgIdenty := { zero with iStaticFlag, iNeedWaitNum := 1 }

/-- `Release` lets go of one side. -/
def letGo (i : MsgIdenty) : Side → MsgIdenty
  | .access => { i with pAccessEvent := none }
  | .redis => { i with pRedisEvent := none }

end MsgIdenty

/-- What the connections share. -/
structure Store where
  ids : Nat → MsgIdenty
  /-- `m_pIdentyBuffer`, the identities that wait for reuse. -/
  identyBuffer : WaitRing maxRedisMsgIdentyPool Nat
  /-- The next address that `new GR_MsgIdenty` returns. -/
  nextId : Nat
  /-- The identities that have been deleted because the buffer was full. -/
  deleted : List Nat
  mem : MemPool

namespace Store

/-- `m_pAskingIdenty`, the static identity of `ASKING`. -/
def askingIdenty : Nat := 0

/-- The store at the start of the process. -/
def init : Store where
  ids := fun p => .new (p == askingIdenty)
  identyBuffer := .empty maxRedisMsgIdentyPool_pos
  nextId := 1
  deleted := []
  mem := .init

/-- Writes the identity `p`. -/
def setId (st : Store) (p : Nat) (i : MsgIdenty) : Store := { st with ids := Function.update st.ids p i }

/-- The identity that `Get` takes: one from the buffer, or a new one. -/
def takeIdenty (st : Store) : Nat × Store :=
  match st.identyBuffer.popFront with
  | (some p, identyBuffer) => (p, { st with identyBuffer })
  | (none, _) => (st.nextId, { st.setId st.nextId (.new false) with nextId := st.nextId + 1 })

/-- `GR_MsgIdentyPool::Get`. -/
def get (st : Store) : Option (Nat × Store) :=
  let (p, st) := st.takeIdenty
  if (st.ids p).pData = none ∧ (st.ids p).pReqData = none then
    some (p, st.setId p { st.ids p with iBroadcast := false })
  else none

/-- `GR_MEMDATA_RELEASE` for a block that may be null. -/
def releaseData (st : Store) : Option Nat → Option Store
  | none => some st
  | some pData =>
    match st.mem.release pData with
    | none => none
    | some mem => some { st with mem }

/-- `GR_MsgIdentyPool::Release`. -/
def recycle (st : Store) (p : Nat) : Option Store :=
  match st.releaseData (st.ids p).pData with
  | none => none
  | some st =>
    match st.releaseData (st.ids p).pReqData with
    | none => none
    | some st =>
      let st := st.setId p { st.ids p with pData := none, pReqData := none, bRedirect := false }
      if (st.ids p).iStaticFlag then some st
      else
        match st.identyBuffer.addData p with
        | none => some { st with deleted := p :: st.deleted }
        | some identyBuffer => some { st.setId p .zero with identyBuffer }

/-- `GR_MsgIdenty::Release`. -/
def release (st : Store) (side : Side) (p : Nat) : Option Store :=
  let i := st.ids p
  if i.pAccessEvent ≠ none ∨ i.pRedisEvent ≠ none ∨ i.iStaticFlag = true then
    let st := st.setId p (i.letGo side)
    if (st.ids p).pAccessEvent = none ∧ (st.ids p).pRedisEvent = none then st.recycle p else some st
  else none

end Store

end RedisProxy
