import RedisProxy.AccessEvent
import RedisProxy.Proofs.StoreProofs
import RedisProxy.Lib.Runs

/-!
# One client connection

The life of a `GR_AccessEvent` as a machine. Its steps are `ProcessMsg` for one complete request, a
reply that `GetReply` delivers, a write event, `Close`, and the work of the rest of the proxy on the
identities and pools that all connections share.
-/

namespace RedisProxy

/-- A client connection and its history. -/
structure Client where
  x : AccessEvent.Ctx
  /-- The replies to all requests so far, in the order of the requests. -/
  replies : List (Option (List UInt8))
  isClosed : Bool

namespace Client

/-- The identities in the wait ring. -/
def ring (c : Client) : List Nat := c.x.ev.waitRing.toList

/-- A connection that has just been accepted. -/
def start (st : Store) (ev : AccessEvent) : Client := ⟨⟨st, ev, ⟨[], []⟩⟩, [], false⟩

/-- What the accept handler sets up. The cells of `m_vCiov` and the mask may hold anything, and the
pool may hold any identities that are not in use. -/
structure Start (st : Store) (ev : AccessEvent) : Prop where
  pool : st.PoolOK []
  fd : 0 < ev.iFD
  index : ev.ulMsgIdenty = 0
  ringStart : ev.waitRing.rb.pStart = 0
  ring : ev.waitRing.toList = []

theorem start_init {st : Store} (hp : st.PoolOK []) {iFD : Nat} (h : 0 < iFD) (pCache : Nat) :
    Start st (.init iFD pCache) :=
  ⟨hp, h, rfl, rfl, rfl⟩

inductive Label
  /-- One complete request has been read. -/
  | request
  /-- A reply arrives in the block `block`. -/
  | reply (pIdenty block : Nat) (pData : Msg)
  /-- The proxy answers by itself. -/
  | replyErr (pIdenty : Nat) (iErr : RspErr)
  /-- A write event; `script` are the answers of the kernel. -/
  | write (script : List WritevRet)
  | close
  /-- The rest of the proxy has turned the store into `st`. -/
  | other (st : Store)

/-- The state after `DoReply` for `pIdenty` with the content `pData`. -/
def replied (c : Client) (pIdenty : Nat) (pData : Msg) (r : Store × AccessEvent) : Client :=
  { c with
    x := { c.x with st := r.1, ev := r.2 },
    replies :=
      if (r.1.ids pIdenty).iWaitDone then c.replies.set (r.1.ids pIdenty).ulIndex (some pData.bytes)
      else c.replies }

/-- One step of the connection `self`; after `Close` it does not change any more. -/
def step (self : Nat) (c : Client) (l : Label) : Option Client :=
  if c.isClosed then some c
  else
    match l with
    | .request =>
      if c.x.ev.waitRing.poolFull then some c
      else
        match AccessEvent.addIdenty self c.x.st c.x.ev with
        | none => none
        | some (_, st, ev) => some { c with x := { c.x with st, ev }, replies := c.replies ++ [none] }
    | .reply pIdenty block pData =>
      some (c.replied pIdenty pData (AccessEvent.getReply c.x.st c.x.ev block pData pIdenty))
    | .replyErr pIdenty iErr =>
      some (c.replied pIdenty (getErrMsg iErr) (AccessEvent.getReplyErr c.x.st c.x.ev iErr pIdenty))
    | .write script =>
      match AccessEvent.write self { c.x with sock := { c.x.sock with script } } with
      | none => none
      | some (iRet, x) => some { c with x, isClosed := iRet == .error }
    | .close => some { c with isClosed := true }
    | .other st => some { c with x := { c.x with st } }

end Client

end RedisProxy
