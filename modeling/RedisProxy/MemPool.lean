import Mathlib

/-!
# `GR_MemPool`

The pool of memory blocks. A block is a `GR_MemPoolData` record; the blocks are known by their
addresses, which are numbers here. What a block contains plays no part in who owns it, so the
contents are not modelled.
-/

namespace RedisProxy

/-- `POOL_DATA_TOTAL_TYPE`, the number of size classes; as an index it means none of them. -/
def poolDataTotalType : Nat := 12

/-- `MAX_FREE_META_DATA`. -/
def maxFreeMetaData : Nat := 0xFFFF

/-- `GR_MemPoolData`; `hasData` says that `m_uszData` is not null. -/
structure MemPoolData where
  cStaticFlag : Bool
  hasData : Bool
  uiIndex : Nat
  sCapacity : Nat
deriving DecidableEq, Repr

/-- The state of the pool. The arrays of free blocks are used as stacks, the last entry first. -/
structure MemPool where
  blocks : Nat → MemPoolData
  freePoolList : Nat → List Nat
  freeMetaData : List Nat
  /-- The next address that `new GR_MemPoolData` returns. -/
  nextData : Nat
  /-- How often `GetData` has handed out a block, and how often `Release` has taken it back. -/
  gets : Nat → Nat
  releases : Nat → Nat

namespace MemPool

/-- `m_aSize[i]`: 512 bytes, doubled for each class. -/
def aSize (i : Nat) : Nat := 0x200 <<< i

/-- `m_iMaxTotal` of the free list of class `i`. -/
def iMaxTotal (i : Nat) : Nat := 2048 / (i + 1)

/-- The first size class that holds `sSize` bytes. -/
def classOf (sSize : Nat) : Nat :=
  ((List.range poolDataTotalType).find? fun i => decide (sSize ≤ aSize i)).getD poolDataTotalType

/-- The record for new memory: a cached one, or a new one. -/
def takeMeta (mem : MemPool) : Nat × MemPool :=
  match mem.freeMetaData with
  | pData :: freeMetaData => (pData, { mem with freeMetaData })
  | [] =>
    (mem.nextData,
      { mem with
        nextData := mem.nextData + 1
        blocks := Function.update mem.blocks mem.nextData ⟨false, false, 0, 0⟩ })

/-- The block `pData` is handed out. -/
def countGet (mem : MemPool) (pData : Nat) : MemPool :=
  { mem with gets := Function.update mem.gets pData (mem.gets pData + 1) }

/-- The block `pData` is given back. -/
def countRelease (mem : MemPool) (pData : Nat) : MemPool :=
  { mem with releases := Function.update mem.releases pData (mem.releases pData + 1) }

/-- `GR_MemPool::GetData(sSize)`. -/
def getData (mem : MemPool) (sSize : Nat) : Option (Nat × MemPool) :=
  let iIndex := classOf sSize
  let iNewSize := if iIndex < poolDataTotalType then aSize iIndex else sSize
  match if iIndex < poolDataTotalType then mem.freePoolList iIndex else [] with
  | ret :: rest =>
    if (mem.blocks ret).hasData = true ∧ (mem.blocks ret).sCapacity = iNewSize then
      some (ret, countGet { mem with freePoolList := Function.update mem.freePoolList iIndex rest } ret)
    else none
  | [] =>
    let (pData, mem) := mem.takeMeta
    let mem := { mem with
      blocks := Function.update mem.blocks pData
        { mem.blocks pData with hasData := true, uiIndex := iIndex, sCapacity := iNewSize } }
    some (pData, mem.countGet pData)

/-- `GR_MEMDATA_RELEASE`: static blocks stay, the others go back to `GR_MemPool::Release`. -/
def release (mem : MemPool) (pData : Nat) : Option MemPool :=
  let data := mem.blocks pData
  if data.cStaticFlag then some mem
  else if data.hasData = true ∧ data.sCapacity ≠ 0 ∧ data.uiIndex ≤ poolDataTotalType then
    let mem := mem.countRelease pData
    if data.uiIndex < poolDataTotalType ∧
        (mem.freePoolList data.uiIndex).length ≠ iMaxTotal data.uiIndex then
      some { mem with
        freePoolList := Function.update mem.freePoolList data.uiIndex
          (pData :: mem.freePoolList data.uiIndex) }
    else
      -- the memory is freed, the record is kept if there is room for it
      let mem := { mem with
        blocks := Function.update mem.blocks pData
          { data with hasData := false, uiIndex := poolDataTotalType, sCapacity := 0 } }
      if mem.freeMetaData.length < maxFreeMetaData then
        some { mem with freeMetaData := pData :: mem.freeMetaData }
      else some mem
  else none

/-- `FlushdbCmd()`, a static block. -/
def flushdbCmd : Nat := 0

/-- `AskingCmd()`, a static block. -/
def askingCmd : Nat := 1

/-- The pool at the start of the process, with the two static blocks that requests can carry. -/
def init : MemPool where
  blocks := fun pData => ⟨pData < 2, true, 0, aSize 0⟩
  freePoolList := fun _ => []
  freeMetaData := []
  nextData := 2
  gets := fun _ => 0
  releases := fun _ => 0

end MemPool

end RedisProxy
