import RedisProxy.AccessEvent

/-!
# The flow of identities

An abstract model of what happens to the identities of requests, without connections, bytes and
memory. An identity is in the pool, in the wait ring of a client, and in the wait rings of backends;
code that is at work on it holds it in its hands, which counts like a place in a backend's ring.

The model takes the steps that the methods are made of. The proxy is shown to follow it, and what
holds of the identities is proved here.
-/

namespace RedisProxy

/-- What the flow knows of an identity. -/
structure Token where
  pAccessEvent : Option Owner
  pRedisEvent : Option Nat
  iNeedWaitNum : Nat
  iGotNum : Nat
  iWaitDone : Bool
  iBroadcast : Bool
  iStaticFlag : Bool
  ulIndex : Nat
  /-- `pReqData` is not null. -/
  hasReq : Bool
  replies : List (List UInt8 × Bool)
deriving DecidableEq, Repr

/-- An identity, seen as a token. -/
def MsgIdenty.token (i : MsgIdenty) : Token where
  pAccessEvent := i.pAccessEvent
  pRedisEvent := i.pRedisEvent
  iNeedWaitNum := i.iNeedWaitNum
  iGotNum := i.iGotNum
  iWaitDone := i.iWaitDone
  iBroadcast := i.iBroadcast
  iStaticFlag := i.iStaticFlag
  ulIndex := i.ulIndex
  hasReq := i.pReqData.isSome
  replies := i.replies

/-- The text of an error starts with `-`. -/
def IsErr (m : List UInt8) : Prop := m.head? = some 0x2d

instance (m : List UInt8) : Decidable (IsErr m) := inferInstanceAs (Decidable (_ = _))

namespace Token

/-- The identity belongs to a request of a client. -/
def OfClient (t : Token) : Prop := ∃ c, t.pAccessEvent = some (.client c)

/-- A reply that does not complete the request. -/
def Partial (t : Token) : Prop := 1 < t.iNeedWaitNum ∧ t.iGotNum + 1 < t.iNeedWaitNum

instance (t : Token) : Decidable t.Partial := inferInstanceAs (Decidable (_ ∧ _))

/-- The reply `m`; the `SELECT` of a backend and requests whose client has left ignore it. -/
def reply (t : Token) (m : List UInt8) : Token :=
  match t.pAccessEvent with
  | some (.client _) =>
    { t with
      iGotNum := t.iGotNum + 1
      iWaitDone := t.iWaitDone || !decide t.Partial
      replies := t.replies ++ [(m, !decide t.Partial)] }
  | _ => t

/-- The identity belongs to a `_RESET_` of a client. -/
def IsReset (t : Token) : Prop := t.OfClient ∧ t.iBroadcast = true

/-- One side lets go of the identity. -/
def letGo (t : Token) : Side → Token
  | .access => { t with pAccessEvent := none }
  | .redis => { t with pRedisEvent := none }

end Token

/-- The state of the flow. -/
structure Flow where
  ids : Nat → Token
  /-- The identities that wait for reuse. -/
  buffer : List Nat
  deleted : List Nat
  nextId : Nat
  /-- The wait rings of the clients, their first cells, and the index of the next request. -/
  clientRing : Nat → List Nat
  clientStart : Nat → Nat
  clientNext : Nat → Nat
  /-- The wait rings of the backends, and the requests for which their entries were queued. -/
  redisRing : Nat → List Nat
  tags : Nat → List Nat
  nBackends : Nat
  /-- The request that an identity stands for. -/
  serial : Nat → Nat
  nextSerial : Nat

namespace Flow

variable (v : Flow)

/-- The identity is not in use. -/
def Idle (p : Nat) : Prop := p ∈ v.buffer ∨ p ∈ v.deleted ∨ v.nextId ≤ p

/-- In how many places of backends' rings the identity is. -/
def inFlight (p : Nat) : Nat := ∑ b ∈ Finset.range v.nBackends, (v.redisRing b).count p

/-- Writes an identity. -/
def setId (p : Nat) (t : Token) : Flow := { v with ids := Function.update v.ids p t }

/-! ## Steps -/

/-- The reply `m` reaches the identity. -/
def reply (p : Nat) (m : List UInt8) : Flow := v.setId p ((v.ids p).reply m)

/-- A server that `Broadcast` cannot reach is counted as if it had replied. -/
def skip (p : Nat) : Flow := v.setId p { v.ids p with iGotNum := (v.ids p).iGotNum + 1 }

/-- The identity gets its request block. -/
def setReq (p : Nat) : Flow := v.setId p { v.ids p with hasReq := true }

/-- The identity is queued in the backend `b`. -/
def push (b p : Nat) : Flow :=
  { v.setId p { v.ids p with pRedisEvent := some b } with
    redisRing := Function.update v.redisRing b (v.redisRing b ++ [p])
    tags := Function.update v.tags b (v.tags b ++ [v.serial p]) }

/-- The front of the ring of the backend `b` is taken out. -/
def pop (b : Nat) : Flow :=
  { v with
    redisRing := Function.update v.redisRing b (v.redisRing b).tail
    tags := Function.update v.tags b (v.tags b).tail }

/-- `ReInit` of the backend `b`. -/
def wipe (b : Nat) : Flow :=
  { v with redisRing := Function.update v.redisRing b [], tags := Function.update v.tags b [] }

/-- `Release`, when no side holds the identity any more. -/
def recycle (p : Nat) : Flow :=
  if (v.ids p).iStaticFlag then v.setId p { v.ids p with hasReq := false }
  else if v.buffer.length = maxRedisMsgIdentyPool then
    { v.setId p { v.ids p with hasReq := false } with deleted := p :: v.deleted }
  else { v.setId p MsgIdenty.zero.token with buffer := v.buffer ++ [p] }

/-- `Release` by one side. -/
def release (side : Side) (p : Nat) : Flow :=
  let t := (v.ids p).letGo side
  let v := v.setId p t
  if t.pAccessEvent = none ∧ t.pRedisEvent = none then v.recycle p else v

/-- The front of the ring of the client `c` is taken out. -/
def popClient (c : Nat) : Flow :=
  { v with
    clientRing := Function.update v.clientRing c (v.clientRing c).tail
    clientStart := Function.update v.clientStart c ((v.clientStart c + 1) % maxWaitRingLen) }

/-- The identity that `Get` hands out. -/
def nextIdenty : Nat := v.buffer.head?.getD v.nextId

/-- What `Get` hands out. -/
def fetched : Token :=
  { (if v.buffer = [] then (MsgIdenty.new false).token else v.ids v.nextIdenty) with iBroadcast := false }

/-- `Get`; the identity stands for a new request, and is written as `t`. -/
def take (t : Token) : Flow :=
  { v.setId v.nextIdenty t with
    buffer := v.buffer.tail
    nextId := if v.buffer = [] then v.nextId + 1 else v.nextId
    serial := Function.update v.serial v.nextIdenty v.nextSerial
    nextSerial := v.nextSerial + 1 }

/-- A new request of the client `c`. -/
def ask (c : Nat) : Flow :=
  { v.take { v.fetched with pAccessEvent := some (.client c), ulIndex := v.clientNext c } with
    clientRing := Function.update v.clientRing c (v.clientRing c ++ [v.nextIdenty])
    clientNext := Function.update v.clientNext c ((v.clientNext c + 1) % uint64Size) }

/-- The `SELECT` of the backend `b`. -/
def select (b : Nat) : Flow := v.take { v.fetched with pAccessEvent := some (.redis b) }

/-- `Broadcast` to `n` servers. -/
def broadcast (p n : Nat) : Flow :=
  v.setId p { v.ids p with iBroadcast := true, iNeedWaitNum := n, hasReq := true }

/-- Another backend, which has not been used before. -/
def addServer : Flow :=
  { v with nBackends := v.nBackends + 1, tags := Function.update v.tags v.nBackends [] }

/-- What may be in flight of an identity whose client leaves: one place, which the backend still
holds. -/
def Safe (p k : Nat) : Prop :=
  v.inFlight p + k ≤ 1 ∧ (v.inFlight p = 1 → (v.ids p).pRedisEvent ≠ none)

/-- An error answer to a `_RESET_` is the last of its answers. -/
def LastError (p : Nat) (m : List UInt8) : Prop := (v.ids p).IsReset → IsErr m → v.inFlight p = 0

end Flow

/-- The flow, and the identity that code has in its hands: `count` places of `p`. `isLoop` says that
the code is in the loop of `Broadcast`. -/
structure FlowState where
  v : Flow
  p : Nat
  count : Nat
  isLoop : Bool

/-- The places of `q` that code has in its hands. -/
def FlowState.held (s : FlowState) (q : Nat) : Nat := if q = s.p then s.count else 0

/-- The steps of the flow. `strict` restricts what a client may leave behind, `keep` what a backend may
lose, and `last` which servers may fail a `_RESET_`. -/
inductive FlowStep (strict keep last : Prop) : FlowState → FlowState → Prop
  | pop {v : Flow} {q b p : Nat} {l : List Nat} (h : v.redisRing b = p :: l) :
      FlowStep strict keep last ⟨v, q, 0, false⟩ ⟨v.pop b, p, 1, false⟩
  | refuse {v : Flow} {p : Nat} {m : List UInt8} (hm : last → v.LastError p m) :
      FlowStep strict keep last ⟨v, p, 1, false⟩ ⟨v.reply p m, p, 0, false⟩
  | answer {v : Flow} {p : Nat} {m : List UInt8}
      (h : (v.ids p).pAccessEvent ≠ none ∨ (v.ids p).pRedisEvent ≠ none ∨ (v.ids p).iStaticFlag = true)
      (hm : last → v.LastError p m) :
      FlowStep strict keep last ⟨v, p, 1, false⟩ ⟨(v.reply p m).release .redis p, p, 0, false⟩
  | setReq {v : Flow} {p k : Nat} {i : Bool} (q : Nat) (hq : ¬v.Idle q) :
      FlowStep strict keep last ⟨v, p, k, i⟩ ⟨v.setReq q, p, k, i⟩
  | push {v : Flow} {p k b : Nat} {i : Bool} (hp : ¬v.Idle p) (hb : b < v.nBackends)
      (hl : last → (v.ids p).IsReset → i = true ∧ (v.ids p).iGotNum = 0) :
      FlowStep strict keep last ⟨v, p, k + 1, i⟩ ⟨v.push b p, p, k, i⟩
  | pushAsking {v : Flow} {p k b : Nat} {i : Bool} (hb : b < v.nBackends) :
      FlowStep strict keep last ⟨v, p, k, i⟩ ⟨v.push b Store.askingIdenty, p, k, i⟩
  | leave {v : Flow} {q c p : Nat} {l : List Nat} (h : v.clientRing c = p :: l)
      (hp : (v.ids p).iWaitDone = true ∨ (strict → (v.ids p).iBroadcast = true → v.Safe p 0)) :
      FlowStep strict keep last ⟨v, q, 0, false⟩ ⟨(v.popClient c).release .access p, q, 0, false⟩
  | ask {v : Flow} {q c : Nat} (hlen : (v.clientRing c).length < maxWaitRingLen)
      (hcell : (v.clientStart c + (v.clientRing c).length) % maxWaitRingLen =
        v.clientNext c % maxWaitRingLen) :
      FlowStep strict keep last ⟨v, q, 0, false⟩ ⟨v.ask c, v.nextIdenty, 1, false⟩
  | select {v : Flow} {q b : Nat} :
      FlowStep strict keep last ⟨v, q, 0, false⟩ ⟨v.select b, v.nextIdenty, 1, false⟩
  | broadcast {v : Flow} {p n : Nat} (hc : (v.ids p).OfClient) (hbc : (v.ids p).iBroadcast = false)
      (hgot : (v.ids p).iGotNum = 0) (hdone : (v.ids p).iWaitDone = false) :
      FlowStep strict keep last ⟨v, p, 1, false⟩ ⟨v.broadcast p n, p, n, true⟩
  | skip {v : Flow} {p k : Nat} (hc : (v.ids p).OfClient) (hl : last → (v.ids p).pRedisEvent = none) :
      FlowStep strict keep last ⟨v, p, k + 1, true⟩ ⟨v.skip p, p, k, true⟩
  | nobody {v : Flow} {p : Nat} {m : List UInt8} (h : (v.ids p).iGotNum = (v.ids p).iNeedWaitNum) (hm : IsErr m) :
      FlowStep strict keep last ⟨v, p, 0, true⟩ ⟨v.reply p m, p, 0, false⟩
  | sent {v : Flow} {p : Nat} (h : (v.ids p).iGotNum ≠ (v.ids p).iNeedWaitNum) :
      FlowStep strict keep last ⟨v, p, 0, true⟩ ⟨v, p, 0, false⟩
  | wipe {v : Flow} {q b : Nat} (h : keep → v.redisRing b = []) :
      FlowStep strict keep last ⟨v, q, 0, false⟩ ⟨v.wipe b, q, 0, false⟩
  | addServer {v : Flow} {p k : Nat} {i : Bool} : FlowStep strict keep last ⟨v, p, k, i⟩ ⟨v.addServer, p, k, i⟩

/-- Any number of steps. -/
abbrev FlowSteps (strict keep last : Prop) : FlowState → FlowState → Prop :=
  Relation.ReflTransGen (FlowStep strict keep last)

end RedisProxy
