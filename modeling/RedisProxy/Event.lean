import RedisProxy.Lib.VecWrite

/-!
# `GR_Event`

What the client connections and the backend connections share: the epoll mask, `DoSendv` over a
non-blocking socket, and the loop by which both `Sendv` methods account for the bytes that went out.

The kernel is the environment. Its answers to the `writev` calls of one event are the `script` of
the socket; the bytes it accepted are collected in `sent`.
-/

namespace RedisProxy

/-- The codes `GR_OK`, `GR_EAGAIN` and `GR_ERROR` where a method returns nothing else. -/
inductive Ret
  | ok
  | eagain
  | error
deriving DecidableEq, Repr

/-- `GR_ERROR` of `define.h`. -/
def grError : Int := -1

/-- `GR_EAGAIN` of `define.h`. -/
def grEagain : Int := -2

/-- `MAX_REDIS_GROUP`. -/
def maxRedisGroup : Nat := 1024

/-- `GR_CONNECT_STATUS`. -/
inductive ConnectStatus
  | init
  | connecting
  | connected
  | closed
deriving DecidableEq, Repr

/-- `m_iMask`: the bits `GR_EVNET_READABLE` and `GR_EVENT_WRITABLE`. -/
structure Mask where
  readable : Bool
  writable : Bool
deriving DecidableEq, Repr

namespace Mask

/-- `GR_EVNET_NONE`. -/
def none : Mask := ⟨false, false⟩

/-- `GR_EPOLL_ADDWRITE`, which only acts on an open descriptor. -/
def addWrite (iFD : Nat) (m : Mask) : Mask := if 0 < iFD then { m with writable := true } else m

/-- `GR_EPOLL_DELWRITE`. -/
def delWrite (iFD : Nat) (m : Mask) : Mask := if 0 < iFD then { m with writable := false } else m

/-- `GR_EPOLL_ADDREAD`. -/
def addRead (iFD : Nat) (m : Mask) : Mask := if 0 < iFD then { m with readable := true } else m

/-- `AddEventRW`. -/
def addRW (iFD : Nat) (m : Mask) : Mask := if 0 < iFD then ⟨true, true⟩ else m

end Mask

/-! ## Sockets -/

/-- An `iovec`: `iovBase` is the memory from `iov_base` on. -/
structure Iovec where
  iovBase : List UInt8
  iovLen : Nat
deriving DecidableEq, Repr

namespace Iovec

/-- The bytes that the `iovec` offers. -/
def bytes (v : Iovec) : List UInt8 := v.iovBase.take v.iovLen

/-- The initial content of the arrays `m_vCiov`. -/
def null : Iovec := ⟨[], 0⟩

/-- The memory reaches as far as `iov_len` says, which is the `int` length of some message. -/
structure Valid (v : Iovec) : Prop where
  len_le : v.iovLen ≤ v.iovBase.length
  len_lt : v.iovLen < 2 ^ 31

end Iovec

/-- The `n` cells of the array `v` from `v + i` on. -/
def iovSlice (v : Nat → Iovec) (i n : Nat) : List Iovec := (List.range n).map fun j => v (i + j)

/-- One answer of the kernel to `writev`. `accept n` takes `n + 1` bytes, or all if it is offered
fewer; the other answers are the return value `0` and the values of `errno` that `DoSendv` tells
apart. -/
inductive WritevRet
  | accept (n : Nat)
  | zero
  | eintr
  | eagain
  | error
deriving DecidableEq, Repr

/-- The outgoing side of a connection. -/
structure Socket where
  /-- The answers to the coming calls of `writev`; `EAGAIN` once they are used up. -/
  script : List WritevRet
  /-- The bytes accepted so far. -/
  sent : List UInt8
deriving DecidableEq, Repr

/-- `MAX_RW_COUNT` of the kernel, the most that one `writev` transfers. -/
def maxRwCount : Nat := 0x7ffff000

/-- The loop of `DoSendv`: at most `tries` calls, one more after `EINTR`. -/
def doSendvLoop (offered : List UInt8) : Nat → Socket → Int × Socket
  | 0, sock => (grError, sock)
  | tries + 1, sock =>
    match sock.script with
    | [] => (grEagain, sock)
    | .accept n :: script =>
      let k := min (n + 1) (min offered.length maxRwCount)
      (k, { script, sent := sock.sent ++ offered.take k })
    | .zero :: script => (0, { sock with script })
    | .eintr :: script => doSendvLoop offered tries { sock with script }
    | .eagain :: script => (grEagain, { sock with script })
    | .error :: script => (grError, { sock with script })

/-- `GR_Event::DoSendv`: never more than 512 `iovec`s, and two tries. -/
def doSendv (iov : List Iovec) (sock : Socket) : Int × Socket :=
  doSendvLoop ((iov.take 512).flatMap Iovec.bytes) 2 sock

/-- An `int` holds 32 bits. -/
def int32 (x : Int) : Int := x.bmod (2 ^ 32)

/-- The loop behind `DoSendv` in `GR_AccessEvent::Sendv` and `GR_RedisEvent::Sendv`, over the cells
`iov, …, iov + nsend - 1` of `m_vCiov`. `onSent` is what the event does for each cell whose bytes
have all been taken; it is `none` if it aborts. -/
def sendvLoop {σ : Type} (onSent : σ → Option σ) :
    Nat → Nat → Int → (Nat → Iovec) → σ → Option (Ret × (Nat → Iovec) × σ)
  | 0, _, _, vCiov, s => some (.ok, vCiov, s)
  | nsend + 1, iov, iSendRet, vCiov, s =>
    let iSendRet := int32 (iSendRet - (vCiov iov).iovLen)
    if iSendRet < 0 then
      if -iSendRet = (vCiov iov).iovLen then some (.eagain, vCiov, s)
      else
        -- `iov_base + iSendRet + iov_len` skips the part that went out
        some (.eagain, Function.update vCiov iov
          { iovBase := (vCiov iov).iovBase.drop (iSendRet + (vCiov iov).iovLen).toNat
            iovLen := (-iSendRet).toNat }, s)
    else
      match onSent s with
      | none => none
      | some s => sendvLoop onSent nsend (iov + 1) iSendRet vCiov s

end RedisProxy
