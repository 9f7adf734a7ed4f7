import RedisProxy.MsgIdenty

/-!
# `GR_AccessEvent`

One client connection. Its requests wait in `m_pWaitRing` in the order in which they came; the reply
to the request with index `ulIndex` is stored in cell `ulIndex % MAX_WAIT_RING_LEN` of `m_vCiov`, so
that neighbouring replies can go out in one `writev`.

As for the backends, a method that fails returns `Ret.error` and its caller runs `Close`.
-/

namespace RedisProxy

/-- `MAX_WAIT_RING_LEN`. -/
def maxWaitRingLen : Nat := 0xFFF

theorem maxWaitRingLen_pos : 0 < maxWaitRingLen := by decide

/-! ## Static replies -/

/-- The codes with which the proxy answers a request itself. -/
inductive RspErr
  | pong
  | commErr
  | disconnect
  | unspportCmd
  | moved
  | toLarge
deriving DecidableEq, Repr

/-- The texts of `define.h`. There is none for `REDIS_RSP_MOVED`, so `GetErrMsg` falls back to that
of `REDIS_RSP_COMM_ERR`. -/
def RspErr.desc : RspErr → String
  | .pong => "+PONG\r\n"
  | .commErr => "-inner error happend\r\n"
  | .disconnect => "-redis disconnect\r\n"
  | .unspportCmd => "-ERR unspport command\r\n"
  | .moved => "-inner error happend\r\n"
  | .toLarge => "-ERR request is too large\r\n"

/-- `GetErrMsg`. -/
def getErrMsg (iErr : RspErr) : Msg where
  bytes := iErr.desc.toList.map fun c => UInt8.ofNat c.toNat
  lt := by cases iErr <;> decide

/-! ## The event -/

/-- The state of a `GR_AccessEvent`. -/
structure AccessEvent where
  iFD : Nat
  mask : Mask
  vCiov : Nat → Iovec
  waitRing : WaitRing maxWaitRingLen Nat
  ulMsgIdenty : Nat
  /-- The block of `m_ReadCache`. -/
  pCache : Nat

namespace AccessEvent

/-- `GR_AccessEvent::Init` for an accepted connection, which is then registered for reading. The
cells of `m_vCiov` are not initialised in the source. -/
def init (iFD pCache : Nat) : AccessEvent where
  iFD := iFD
  mask := Mask.none.addRead iFD
  vCiov := fun _ => .null
  waitRing := .empty maxWaitRingLen_pos
  ulMsgIdenty := 0
  pCache := pCache

/-- `GR_AccessEvent::DoReply`. -/
def doReply (st : Store) (ev : AccessEvent) (pData : Msg) (pIdenty : Nat) : Store × AccessEvent :=
  let i := { st.ids pIdenty with iGotNum := (st.ids pIdenty).iGotNum + 1 }
  if 1 < i.iNeedWaitNum ∧ i.iGotNum < i.iNeedWaitNum then
    (st.setId pIdenty { i with replies := i.replies ++ [(pData.bytes, false)] }, ev)
  else
    let st := st.setId pIdenty { i with iWaitDone := true, replies := i.replies ++ [(pData.bytes, true)] }
    let ev := { ev with vCiov := Function.update ev.vCiov (i.ulIndex % maxWaitRingLen) pData.iovec }
    let wake :=
      match ev.waitRing.getPre i.ulIndex with
      | none => true
      | some pre =>
        !(st.ids pre).iWaitRsp || (st.ids pre).iWaitDone || (st.ids pre).iPreGood
    (st, if wake then { ev with mask := ev.mask.addWrite ev.iFD } else ev)

/-- `GR_AccessEvent::GetReply(iErr, pIdenty)`. -/
def getReplyErr (st : Store) (ev : AccessEvent) (iErr : RspErr) (pIdenty : Nat) : Store × AccessEvent :=
  doReply (st.setId pIdenty { st.ids pIdenty with pData := none }) ev (getErrMsg iErr) pIdenty

/-- `GR_AccessEvent::GetReply(pData, pIdenty)`: the block `block` with the content `pData` now belongs
to the identity. -/
def getReply (st : Store) (ev : AccessEvent) (block : Nat) (pData : Msg) (pIdenty : Nat) :
    Store × AccessEvent :=
  doReply (st.setId pIdenty { st.ids pIdenty with pData := some block }) ev pData pIdenty

/-- The start of `ProcessMsg` for one complete request: it gets an identity, which waits in the ring. -/
def addIdenty (self : Nat) (st : Store) (ev : AccessEvent) : Option (Nat × Store × AccessEvent) :=
  match st.get with
  | none => none
  | some (p, st) =>
    let i := st.ids p
    if i.pData = none ∧ i.pReqData = none ∧ i.pAccessEvent = none ∧ i.pRedisEvent = none then
      match ev.waitRing.addDataIdx p ev.ulMsgIdenty with
      | none => none
      | some waitRing =>
        some (p,
          st.setId p { i with pAccessEvent := some (.client self), ulIndex := ev.ulMsgIdenty, iWaitRsp := true },
          { ev with waitRing, ulMsgIdenty := (ev.ulMsgIdenty + 1) % uint64Size })
    else none

/-! ## `Write` -/

/-- A client connection at work: the shared store, the event and its socket. -/
structure Ctx where
  st : Store
  ev : AccessEvent
  sock : Socket

/-- What `Sendv` does for a reply that has gone out. -/
def popSent (s : Store × WaitRing maxWaitRingLen Nat) : Option (Store × WaitRing maxWaitRingLen Nat) :=
  match s.2.popFront with
  | (none, _) => none
  | (some p, waitRing) =>
    match s.1.release .access p with
    | none => none
    | some st => some (st, waitRing)

/-- `GR_AccessEvent::Sendv` over the cells `iov, …, iov + nsend - 1` of `m_vCiov`. -/
def sendv (x : Ctx) (iov nsend : Nat) : Option (Ret × Ctx) :=
  if nsend = 0 then some (.ok, x)
  else
    let (iSendRet, sock) := doSendv (iovSlice x.ev.vCiov iov nsend) x.sock
    if iSendRet ≤ 0 then
      if iSendRet ≠ grEagain then some (.error, { x with sock }) else some (.eagain, { x with sock })
    else
      match sendvLoop popSent nsend iov iSendRet x.ev.vCiov (x.st, x.ev.waitRing) with
      | none => none
      | some (ret, vCiov, st, waitRing) => some (ret, { st, ev := { x.ev with vCiov, waitRing }, sock })

/-- How the loop of `Write` ends: it returns from `Write`, or leaves `iSendNum` replies from cell
`iStart` on to be sent. -/
inductive LoopEnd
  | ret (iRet : Ret)
  | rest (iStart iSendNum : Nat)
deriving DecidableEq

/-- The loop of `Write` over the wait ring, for at most `n` more identities from `pIdenty` on. -/
def writeLoop (self : Nat) : Nat → Nat → Nat → Nat → Ctx → Option (LoopEnd × Ctx)
  | 0, _, iStart, iSendNum, x => some (.rest iStart iSendNum, x)
  | n + 1, pIdenty, iStart, iSendNum, x =>
    let i := x.st.ids pIdenty
    let ulNextIndex := (i.ulIndex + 1) % uint64Size
    if i.pAccessEvent = some (.client self) then
      let x := { x with st := x.st.setId pIdenty { i with iPreGood := true } }
      if i.iWaitDone = false then some (.rest iStart iSendNum, x)
      else if ulNextIndex % maxWaitRingLen = 0 then
        -- the replies up to the end of the array go out before those at its start
        match sendv x iStart (iSendNum + 1) with
        | none => none
        | some (iRet, x) =>
          if iRet ≠ .ok then some (.ret iRet, x)
          else
            match x.ev.waitRing.getData 0 with
            | none => some (.rest 0 0, x)
            | some pIdenty => writeLoop self n pIdenty 0 0 x
      else
        match x.ev.waitRing.getData ulNextIndex with
        | none => some (.rest iStart (iSendNum + 1), x)
        | some pIdenty => writeLoop self n pIdenty iStart (iSendNum + 1) x
    else none

/-- `GR_AccessEvent::Write`. -/
def write (self : Nat) (x : Ctx) : Option (Ret × Ctx) :=
  if x.ev.iFD = 0 then some (.ok, x)
  else
    match x.ev.waitRing.getFront with
    | none => some (.ok, { x with ev := { x.ev with mask := x.ev.mask.delWrite x.ev.iFD } })
    | some pIdenty =>
      match writeLoop self x.ev.waitRing.getNum pIdenty ((x.st.ids pIdenty).ulIndex % maxWaitRingLen) 0 x with
      | none => none
      | some (.ret iRet, x) => some (iRet, x)
      | some (.rest iStart iSendNum, x) =>
        if 0 < iSendNum then
          match sendv x iStart iSendNum with
          | none => none
          | some (iRet, x) =>
            if iRet = .ok then some (.ok, { x with ev := { x.ev with mask := x.ev.mask.delWrite x.ev.iFD } })
            else some (iRet, x)
        else some (.ok, x)

end AccessEvent

end RedisProxy
