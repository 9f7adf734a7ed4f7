import RedisProxy.Lib.Simulation
import RedisProxy.MsgBuffer
import RedisProxy.RingBuffer

/-!
# `GR_RingMsgBufferMgr`

A cache that uses its block as a ring. The bytes between the pointers may go on at the start of the block. When
both pointers are equal the buffer is empty or full, so the numbers of the bytes that have been written and
read are kept as well. A failed `ASSERT` is `none`.
-/

namespace RedisProxy

/-- `GR_RingMsgBufferMgr` and the memory. -/
structure RingMsgBufferMgr where
  mem : Int → UInt8
  pData : Block
  szMsgStart : Int
  szMsgEnd : Int
  iLeft : Int
  ulStartIdx : Nat
  ulEndIdx : Nat

namespace RingMsgBufferMgr

/-- `Reuse`. -/
def reuse (b : RingMsgBufferMgr) : RingMsgBufferMgr :=
  { b with
    szMsgStart := b.pData.uszData
    szMsgEnd := b.pData.uszData
    iLeft := int32 b.pData.sCapacity
    ulEndIdx := 0
    ulStartIdx := 0 }

/-- `Init(pData)`. -/
def init (mem : Int → UInt8) (pData : Block) : RingMsgBufferMgr := reuse ⟨mem, pData, 0, 0, 0, 0, 0⟩

/-- `LeftCapcity`. -/
def leftCapcity (b : RingMsgBufferMgr) : Int := int32 (b.pData.sCapacity - b.ulEndIdx + b.ulStartIdx)

/-- `LeftCapcityToEnd`. -/
def leftCapcityToEnd (b : RingMsgBufferMgr) : Int :=
  if b.iLeft = 0 then 0
  else if b.szMsgStart ≤ b.szMsgEnd then int32 (b.pData.uszEnd - b.szMsgEnd)
  else int32 (b.szMsgStart - b.szMsgEnd)

/-- `MsgLenToEnd`. -/
def msgLenToEnd (b : RingMsgBufferMgr) : Option Int :=
  if b.iLeft = b.pData.sCapacity then some 0
  else if b.szMsgStart = b.szMsgEnd then
    if b.iLeft = 0 then some (int32 (b.pData.uszEnd - b.szMsgStart)) else none
  else if b.szMsgStart < b.szMsgEnd then some (int32 (b.szMsgEnd - b.szMsgStart))
  else some (int32 (b.pData.uszEnd - b.szMsgStart))

/-- `ResetIdx`. -/
def resetIdx (b : RingMsgBufferMgr) : Option RingMsgBufferMgr :=
  if b.ulStartIdx ≤ b.ulEndIdx then
    if 0xFFFFFFFF < b.ulEndIdx then
      let iTmp := int32 (b.ulEndIdx - b.ulStartIdx)
      let ulStartIdx := b.ulStartIdx % b.pData.sCapacity
      some { b with ulStartIdx, ulEndIdx := (ulStartIdx + iTmp).toNat }
    else some b
  else none

/-- `m_iLeft`, `m_ulEndIdx` and `ResetIdx` at the end of `Write`. -/
def wrote (b : RingMsgBufferMgr) (iLen : Nat) : Option RingMsgBufferMgr :=
  resetIdx { b with iLeft := b.iLeft - iLen, ulEndIdx := (b.ulEndIdx + iLen) % uint64Size }

/-- `Write(szSrc, iLen)` of the bytes `bs`. -/
def write (b : RingMsgBufferMgr) (bs : List UInt8) : Option RingMsgBufferMgr :=
  let iEndLen := b.leftCapcityToEnd
  if 0 ≤ iEndLen ∧ bs.length ≤ b.leftCapcity then
    if bs.length ≤ iEndLen then
      wrote { b with mem := writeAt b.mem b.szMsgEnd bs, szMsgEnd := b.szMsgEnd + bs.length } bs.length
    else if 0 < iEndLen then
      let mem := writeAt b.mem b.szMsgEnd (bs.take iEndLen.toNat)
      let mem := writeAt mem b.pData.uszData (bs.drop iEndLen.toNat)
      let szMsgEnd := b.pData.uszData + (bs.length - iEndLen)
      if b.pData.uszData < szMsgEnd then wrote { b with mem, szMsgEnd } bs.length else none
    else wrote { b with mem := writeAt b.mem b.pData.uszData bs, szMsgEnd := b.pData.uszData + bs.length } bs.length
  else none

/-- `Read(iLen)`. -/
def read (b : RingMsgBufferMgr) (iLen : Nat) : Option RingMsgBufferMgr :=
  if 0 < iLen then
    let szMsgStart := b.szMsgStart + iLen
    resetIdx { b with
      szMsgStart := if szMsgStart = b.pData.uszEnd then b.pData.uszData else szMsgStart
      iLeft := b.iLeft + iLen
      ulStartIdx := (b.ulStartIdx + iLen) % uint64Size }
  else none

/-- `ResetMemPool(pData)`. The end stays where it is if it is equal to the start. -/
def resetMemPool (b : RingMsgBufferMgr) (pData : Block) : Option RingMsgBufferMgr :=
  if b.pData.sCapacity ≤ pData.sCapacity then
    let (mem, szMsgEnd) :=
      if b.szMsgStart < b.szMsgEnd then
        (writeAt b.mem pData.uszData (bytesAt b.mem b.szMsgStart (b.szMsgEnd - b.szMsgStart).toNat),
          pData.uszData + (b.szMsgEnd - b.szMsgStart))
      else if b.szMsgEnd < b.szMsgStart then
        let mem := writeAt b.mem pData.uszData (bytesAt b.mem b.szMsgStart (b.pData.uszEnd - b.szMsgStart).toNat)
        (writeAt mem (pData.uszData + (b.pData.uszEnd - b.szMsgStart))
            (bytesAt mem b.pData.uszData (b.szMsgEnd - b.pData.uszData).toNat),
          pData.uszData + (b.pData.uszEnd - b.szMsgStart) + (b.szMsgEnd - b.pData.uszData))
      else (b.mem, b.szMsgEnd)
    if pData.uszData < szMsgEnd then
      some { b with
        mem, pData, szMsgEnd
        szMsgStart := pData.uszData
        iLeft := int32 (pData.sCapacity - (szMsgEnd - pData.uszData)) }
    else none
  else none

/-- `Expand(iLen)`. There is no block of a negative size. -/
def expand (b : RingMsgBufferMgr) (hint : Int) (iLen : Nat) : Option RingMsgBufferMgr :=
  let tmpLen := int32 (iLen + b.pData.sCapacity - b.leftCapcity)
  let tmpLen := if 0 ≤ tmpLen ∧ tmpLen < b.pData.sCapacity * 2 then int32 (b.pData.sCapacity * 2) else tmpLen
  if tmpLen < 0 then none else b.resetMemPool (b.pData.getData hint tmpLen.toNat)

/-! ## Sequences of operations -/

inductive Op where
  | write (bs : List UInt8)
  | read (iLen : Nat)
  | reuse
  | expand (hint : Int) (iLen : Nat)

/-- The bytes that the operation reads, and the buffer after it. A reader takes the bytes at `m_szMsgStart`. -/
def step (b : RingMsgBufferMgr) : Op → Option (List UInt8 × RingMsgBufferMgr)
  | .write bs => (b.write bs).map fun b' => ([], b')
  | .read iLen => (b.read iLen).map fun b' => (bytesAt b.mem b.szMsgStart iLen, b')
  | .reuse => some ([], b.reuse)
  | .expand hint iLen => (b.expand hint iLen).map fun b' => ([], b')

/-- At most `LeftCapcity` bytes are written, and between one and `MsgLenToEnd` bytes are read. -/
def Allowed (b : RingMsgBufferMgr) : Op → Prop
  | .write bs => bs.length ≤ b.leftCapcity
  | .read iLen => 0 < iLen ∧ iLen ≤ b.msgLenToEnd.getD 0
  | _ => True

/-- The number of bytes in the buffer. -/
def stored (b : RingMsgBufferMgr) : Nat := b.ulEndIdx - b.ulStartIdx

/-- `Expand` is called only if the buffer has bytes and the pointers differ, and if the sizes are values of `int`. -/
def Expandable (b : RingMsgBufferMgr) : Op → Prop
  | .expand _ iLen => 0 < b.stored ∧ b.szMsgStart ≠ b.szMsgEnd ∧ iLen + b.stored < 2 ^ 31 ∧ b.pData.sCapacity < 2 ^ 30
  | _ => True

instance (b : RingMsgBufferMgr) (o : Op) : Decidable (b.Allowed o) := by
  cases o <;> unfold Allowed <;> infer_instance

instance (b : RingMsgBufferMgr) (o : Op) : Decidable (b.Expandable o) := by
  cases o <;> unfold Expandable <;> infer_instance

/-! ## The queue of bytes -/

/-- The address of the byte `i` of the buffer. -/
def addr (b : RingMsgBufferMgr) (i : Nat) : Int :=
  if b.szMsgStart + i < b.pData.uszEnd then b.szMsgStart + i else b.szMsgStart + i - b.pData.sCapacity

/-- The bytes in the buffer, the oldest first. -/
def contents (b : RingMsgBufferMgr) : List UInt8 := (List.range b.stored).map fun i => b.mem (b.addr i)

/-- What the operations do to a queue of bytes. -/
def queueStep (q : List UInt8) : Op → List UInt8 × List UInt8
  | .write bs => ([], q ++ bs)
  | .read iLen => (q.take iLen, q.drop iLen)
  | .reuse => ([], [])
  | .expand _ _ => ([], q)

end RingMsgBufferMgr

end RedisProxy
