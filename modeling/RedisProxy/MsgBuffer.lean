import RedisProxy.MemPool
import RedisProxy.PackageMsg

/-!
# `GR_MsgBufferMgr`

The cache that a connection reads into: a block of the pool, and the part of it with the bytes that have been read and not
yet consumed. The bytes are moved when the block is full or given away. A connection has such a cache and a parser that
reads in it; each move of the bytes is followed by `Reset` of the parser.
-/

namespace RedisProxy

/-- `REDIS_MSG_INIT_BUFFER`. -/
def redisMsgInitBuffer : Nat := 1024

/-! ## Blocks -/

/-- `m_uszData` and `m_sCapacity` of a `GR_MemPoolData`. -/
structure Block where
  uszData : Int
  sCapacity : Nat
deriving DecidableEq, Repr

namespace Block

/-- `m_uszEnd`. -/
def uszEnd (b : Block) : Int := b.uszData + b.sCapacity

/-- The address is one of the block. -/
def has (b : Block) (a : Int) : Bool := b.uszData ≤ a && a < b.uszEnd

/-- The blocks have no byte in common. -/
def apart (b b' : Block) : Bool := b.uszEnd ≤ b'.uszData || b'.uszEnd ≤ b.uszData

/-- `GetData(sSize)` while the block `used` is in use. The new block is at `hint`, if it can be. -/
def getData (used : Block) (hint : Int) (sSize : Nat) : Block :=
  let iIndex := MemPool.classOf sSize
  let iNewSize := if iIndex < poolDataTotalType then MemPool.aSize iIndex else sSize
  if apart ⟨hint, iNewSize⟩ used then ⟨hint, iNewSize⟩ else ⟨used.uszEnd, iNewSize⟩

end Block

/-- `GR_MsgBufferMgr`. -/
structure MsgBufferMgr where
  pData : Block
  szMsgStart : Int
  szMsgEnd : Int
deriving DecidableEq, Repr

namespace MsgBufferMgr

/-- `Init(pData)`. -/
def init (pData : Block) : MsgBufferMgr := ⟨pData, pData.uszData, pData.uszData⟩

/-- The bytes of the buffer. -/
def content (b : MsgBufferMgr) (mem : Int → UInt8) : List UInt8 :=
  bytesAt mem b.szMsgStart (b.szMsgEnd - b.szMsgStart).toNat

/-- The bytes are in the block. -/
structure Within (b : MsgBufferMgr) : Prop where
  lo : b.pData.uszData ≤ b.szMsgStart
  le : b.szMsgStart ≤ b.szMsgEnd
  hi : b.szMsgEnd ≤ b.pData.uszEnd

/-- `MSGBUFFER_RESET`. -/
def reset (b : MsgBufferMgr) (mem : Int → UInt8) (pData : Block) : MsgBufferMgr × (Int → UInt8) :=
  (⟨pData, pData.uszData, pData.uszData + (b.szMsgEnd - b.szMsgStart)⟩,
    if b.szMsgStart < b.szMsgEnd then writeAt mem pData.uszData (b.content mem) else mem)

/-- `ResetMemPool(iSize)`. There is no block of a negative size. -/
def resetMemPool (b : MsgBufferMgr) (mem : Int → UInt8) (hint iSize : Int) : Option (MsgBufferMgr × (Int → UInt8)) :=
  if iSize < 0 then none else some (b.reset mem (b.pData.getData hint iSize.toNat))

/-- `Expand(iAtLeast)`. A negative number is larger than every `size_t`. -/
def expand (b : MsgBufferMgr) (mem : Int → UInt8) (hint iAtLeast : Int) : Option (MsgBufferMgr × (Int → UInt8)) :=
  b.resetMemPool mem hint
    (int32 (if iAtLeast < 0 ∨ b.pData.sCapacity * 4 < iAtLeast then iAtLeast else b.pData.sCapacity * 4))

/-- `ResetBuffer`. -/
def resetBuffer (b : MsgBufferMgr) (mem : Int → UInt8) : MsgBufferMgr × (Int → UInt8) :=
  (⟨b.pData, b.pData.uszData, b.pData.uszData + (b.szMsgEnd - b.szMsgStart)⟩, writeAt mem b.pData.uszData (b.content mem))

/-- `LeftCapcity`. -/
def leftCapcity (b : MsgBufferMgr) : Int := int32 (b.pData.sCapacity - (b.szMsgEnd - b.szMsgStart))

end MsgBufferMgr

/-! ## The reader of a connection -/

/-- `m_ReadCache` and `m_ReadMsg` of a connection, and the memory. -/
structure Reader where
  mem : Int → UInt8
  readCache : MsgBufferMgr
  readMsg : RedisMsg

/-- What `read` returns. -/
inductive ReadRet
  | eintr
  | eagain
  | failed
  | data (bs : List UInt8)
deriving DecidableEq, Repr

inductive ReadStatus
  | opened
  | closed
  /-- A failed `ASSERT` has ended the process. -/
  | aborted
deriving DecidableEq, Repr

namespace Reader

/-- `Init`, with the first block at `uszData`. -/
def init (mem : Int → UInt8) (uszData : Int) : Reader := ⟨mem, .init ⟨uszData, redisMsgInitBuffer⟩, .init uszData⟩

/-- The bytes of the cache. -/
def content (s : Reader) : List UInt8 := s.readCache.content s.mem

/-- `LeftCapcityToEnd`: the room for `read`. -/
def iLeft (s : Reader) : Int := s.readCache.pData.uszEnd - s.readCache.szMsgEnd

/-- The bytes `bs` have been read: `Write` of the cache and `Expand` of the parser. -/
def receive (s : Reader) (bs : List UInt8) : Reader where
  mem := writeAt s.mem s.readCache.szMsgEnd bs
  readCache := { s.readCache with szMsgEnd := s.readCache.szMsgEnd + bs.length }
  readMsg := s.readMsg.expand bs.length

/-- The bytes have been moved, and `Reset` follows. -/
def moved (s : Reader) (r : MsgBufferMgr × (Int → UInt8)) : Reader where
  mem := r.2
  readCache := r.1
  readMsg := s.readMsg.reset r.1.pData.uszData

/-- `StartNext`. -/
def startNext (s : Reader) (hint : Int) : Option Reader :=
  let readCache := { s.readCache with szMsgStart := s.readCache.szMsgStart + s.readMsg.this.iLen }
  (readCache.resetMemPool s.mem hint (int32 readCache.pData.sCapacity)).map
    fun r => { s with readMsg := s.readMsg.startNext }.moved r

end Reader

end RedisProxy
