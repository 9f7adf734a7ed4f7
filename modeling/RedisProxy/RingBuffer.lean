import RedisProxy.Lib.Circular

/-!
# `RingBuffer`

The bounded queue of `common/ringbuffer.cpp`. The pool is an array of nullable pointers; `pStart`
and `pEnd` are the positions of the pointers `m_pStart` and `m_pEnd` in it. An empty cell holds
`nullptr`, which is `none` here.

The wait rings of the clients and of the backends and the pool of message identities are all
`RingBuffer`s.
-/

namespace RedisProxy

open Lib

/-- `uint64` arithmetic of the source wraps at `2^64`. -/
def uint64Size : Nat := 2 ^ 64

/-- The state of a `RingBuffer`. -/
structure RingBuffer (α : Type) where
  /-- `m_iPoolLen`, the number of cells. -/
  iPoolLen : Nat
  /-- The cell of the oldest element. -/
  pStart : Nat
  /-- The cell behind the newest element. -/
  pEnd : Nat
  /-- The cells themselves. -/
  pWaitMsgPool : Nat → Option α
  /-- `m_iDataNum`, the number of elements. -/
  iDataNum : Nat

namespace RingBuffer

variable {α : Type}

/-- `RingBuffer::ReInit`. -/
def reInit (rb : RingBuffer α) : RingBuffer α :=
  { rb with pWaitMsgPool := fun _ => none, pStart := 0, pEnd := 0, iDataNum := 0 }

/-- `RingBuffer::Init`. -/
def init (iPoolLen : Nat) : RingBuffer α :=
  { iPoolLen, pStart := 0, pEnd := 0, pWaitMsgPool := fun _ => none, iDataNum := 0 }

/-- `RINGBUFFER_POOLFULL`. -/
def poolFull (rb : RingBuffer α) : Bool := rb.iDataNum == rb.iPoolLen

/-- The pointer behind `p`, back at the first cell when it reaches `m_pWaitMsgEnd`. -/
def next (rb : RingBuffer α) (p : Nat) : Nat := if p + 1 = rb.iPoolLen then 0 else p + 1

/-- `RingBuffer::AddData(pData)`; `none` is the result `false`. -/
def addData (rb : RingBuffer α) (pData : α) : Option (RingBuffer α) :=
  if rb.poolFull then none
  else some
    { rb with
      iDataNum := rb.iDataNum + 1
      pWaitMsgPool := Function.update rb.pWaitMsgPool rb.pEnd (some pData)
      pEnd := rb.next rb.pEnd }

/-- `RingBuffer::AddData(pData, ulIndex)`: the element is only accepted if `ulIndex` names the cell
behind the newest element. -/
def addDataIdx (rb : RingBuffer α) (pData : α) (ulIndex : Nat) : Option (RingBuffer α) :=
  if rb.poolFull then none
  else if rb.pEnd ≠ ulIndex % rb.iPoolLen then none
  else some
    { rb with
      iDataNum := rb.iDataNum + 1
      pWaitMsgPool := Function.update rb.pWaitMsgPool rb.pEnd (some pData)
      pEnd := rb.next rb.pEnd }

/-- `RingBuffer::PopFront` and `GR_RB_POPFRONT`. -/
def popFront (rb : RingBuffer α) : Option α × RingBuffer α :=
  if rb.iDataNum = 0 then (none, rb)
  else
    (rb.pWaitMsgPool rb.pStart,
      { rb with
        iDataNum := rb.iDataNum - 1
        pWaitMsgPool := Function.update rb.pWaitMsgPool rb.pStart none
        pStart := if rb.iPoolLen ≤ rb.pStart + 1 then 0 else rb.pStart + 1 })

/-- `GR_RB_GETFRONT`: unlike the method it reads the first cell even of an empty ring. -/
def getFront (rb : RingBuffer α) : Option α := rb.pWaitMsgPool rb.pStart

/-- `RingBuffer::GetFront`. -/
def Method.getFront (rb : RingBuffer α) : Option α := if rb.iDataNum = 0 then none else rb.pWaitMsgPool rb.pStart

/-- `RingBuffer::GetBack`. -/
def getBack (rb : RingBuffer α) : Option α :=
  if rb.iDataNum = 0 then none
  else if rb.pEnd = 0 ∨ rb.pEnd = rb.iPoolLen then rb.pWaitMsgPool (rb.iPoolLen - 1)
  else rb.pWaitMsgPool (rb.pEnd - 1)

/-- `RingBuffer::GetData` and `GR_RB_GETDATA`. -/
def getData (rb : RingBuffer α) (ulIndex : Nat) : Option α :=
  rb.pWaitMsgPool (ulIndex % rb.iPoolLen)

/-- `RingBuffer::GetPre(ulIndex)`: the subtraction is one of `uint64`. -/
def getPre (rb : RingBuffer α) (ulIndex : Nat) : Option α :=
  rb.pWaitMsgPool ((ulIndex + (uint64Size - 1)) % uint64Size % rb.iPoolLen)

/-- The elements, oldest first. -/
def toList (rb : RingBuffer α) : List α :=
  (window rb.pWaitMsgPool rb.iPoolLen rb.pStart rb.iDataNum).reduceOption

/-- The ring is consistent: `iDataNum` elements from `pStart` on, `nullptr` everywhere else. -/
structure WF (rb : RingBuffer α) : Prop where
  start_lt : rb.pStart < rb.iPoolLen
  num_le : rb.iDataNum ≤ rb.iPoolLen
  end_eq : rb.pEnd = (rb.pStart + rb.iDataNum) % rb.iPoolLen
  live : ∀ i < rb.iDataNum, (rb.pWaitMsgPool ((rb.pStart + i) % rb.iPoolLen)).isSome
  dead : ∀ i, rb.iDataNum ≤ i → i < rb.iPoolLen →
    rb.pWaitMsgPool ((rb.pStart + i) % rb.iPoolLen) = none

/-! ## Sequences of operations -/

/-- The operations. An element is not null. -/
inductive Op (α : Type) where
  | addData (pData : α)
  | addDataIdx (pData : α) (ulIndex : Nat)
  | popFront
  | getFront
  | getBack
  | getData (ulIndex : Nat)
  | reInit

/-- What an operation returns. -/
inductive Result (α : Type) where
  | bool (b : Bool)
  | pointer (p : Option α)
  | ok

/-- The result of an operation and the ring after it. -/
def perform (rb : RingBuffer α) : Op α → Result α × RingBuffer α
  | .addData pData => (.bool (rb.addData pData).isSome, (rb.addData pData).getD rb)
  | .addDataIdx pData ulIndex => (.bool (rb.addDataIdx pData ulIndex).isSome, (rb.addDataIdx pData ulIndex).getD rb)
  | .popFront => (.pointer rb.popFront.1, rb.popFront.2)
  | .getFront => (.pointer (Method.getFront rb), rb)
  | .getBack => (.pointer rb.getBack, rb)
  | .getData ulIndex => (.pointer (rb.getData ulIndex), rb)
  | .reInit => (.ok, rb.reInit)

end RingBuffer

end RedisProxy
