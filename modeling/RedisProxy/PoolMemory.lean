import RedisProxy.Lib.Runs
import RedisProxy.MemPool

/-!
# The memory of the blocks of `GR_MemPool`

The pool with the pointers of its blocks to their memory, and sequences of `GetData` and `Release`.
-/

namespace RedisProxy

namespace MemPool

/-- The size of the memory that `GetData(sSize)` asks for. -/
def newSize (sSize : Nat) : Nat := if classOf sSize < poolDataTotalType then aSize (classOf sSize) else sSize

/-- `GetData(sSize)` finds a free block. -/
def hasFree (mem : MemPool) (sSize : Nat) : Prop :=
  classOf sSize < poolDataTotalType ∧ mem.freePoolList (classOf sSize) ≠ []

instance (mem : MemPool) (sSize : Nat) : Decidable (mem.hasFree sSize) := by
  unfold hasFree
  infer_instance

end MemPool

/-- The pool with `m_uszData` and `m_uszEnd` of each block. Null is zero. -/
structure PoolMemory where
  mem : MemPool
  uszData : Nat → Nat
  uszEnd : Nat → Nat

namespace PoolMemory

/-- `GR_MemPool::GetData(sSize)`, where `new char[]` returns `uszNew`. -/
def getData (p : PoolMemory) (sSize uszNew : Nat) : Option (Nat × PoolMemory) :=
  match p.mem.getData sSize with
  | none => none
  | some (pData, mem) =>
    if p.mem.hasFree sSize then some (pData, { p with mem })
    else some
      (pData,
        { mem
          uszData := Function.update p.uszData pData uszNew
          uszEnd := Function.update p.uszEnd pData (uszNew + MemPool.newSize sSize) })

/-- `GR_MEMDATA_RELEASE`. The pointers become null when the memory is freed. -/
def release (p : PoolMemory) (pData : Nat) : Option PoolMemory :=
  if (p.mem.blocks pData).cStaticFlag then some p
  else if p.uszEnd pData = 0 then none
  else
    match p.mem.release pData with
    | none => none
    | some mem =>
      if (mem.blocks pData).hasData then some { p with mem }
      else some
        { mem
          uszData := Function.update p.uszData pData 0
          uszEnd := Function.update p.uszEnd pData 0 }

/-- The pool at the start of the process. -/
def init : PoolMemory := ⟨MemPool.init, fun _ => 0, fun _ => 0⟩

inductive Op where
  | getData (sSize uszNew : Nat)
  | release (pData : Nat)

def step (p : PoolMemory) : Op → Option PoolMemory
  | .getData sSize uszNew => (p.getData sSize uszNew).map Prod.snd
  | .release pData => p.release pData

/-- The size is an `int`, new memory is not null, and a block is released only while it is out. -/
def Allowed (p : PoolMemory) : Op → Prop
  | .getData sSize uszNew => sSize < 2 ^ 31 ∧ uszNew ≠ 0
  | .release pData => p.mem.releases pData < p.mem.gets pData

instance (p : PoolMemory) (o : Op) : Decidable (p.Allowed o) := by
  cases o <;> unfold Allowed <;> infer_instance

end PoolMemory

end RedisProxy
