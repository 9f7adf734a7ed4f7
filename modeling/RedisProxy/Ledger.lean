import RedisProxy.Proxy
import RedisProxy.Lib.Ownership

/-!
# Who holds the memory blocks

The ledger of a proxy: its memory pool, and the block that each read cache and each identity points to.
All code that gets, hands over and releases blocks acts on the ledger only.
-/

namespace RedisProxy

/-- A read cache. -/
inductive Cache
  | client (c : Nat)
  | redis (b : Nat)
deriving DecidableEq, Repr

/-- A pointer to a block: `m_pData` of a read cache, or `pReqData` or `pData` of an identity. -/
inductive Slot
  | cache (k : Cache)
  | req (p : Nat)
  | data (p : Nat)
deriving DecidableEq, Repr

@[ext] structure Ledger where
  mem : MemPool
  holds : Slot → Option Nat

namespace Ledger

variable (l : Ledger)

/-- Writes a pointer. -/
def put (s : Slot) (x : Option Nat) : Ledger := { l with holds := Function.update l.holds s x }

def setMem (mem : MemPool) : Ledger := { l with mem }

/-- What a slot owns: static blocks have no owner, and neither does the block that the code has just
taken from the read cache `hide`. -/
def own (hide : Option Cache) (s : Slot) : Option Nat :=
  if hide.map Slot.cache = some s then none else (l.holds s).filter fun d => !(l.mem.blocks d).cStaticFlag

end Ledger

/-- The block of the read cache of a client, which is deleted with the client. -/
def ClientConn.cacheData (x : ClientConn) : Option Nat := if x.ev.iFD = 0 then none else some x.ev.pCache

namespace Proxy

/-- The block of a read cache. -/
def cacheData (w : Proxy) : Cache → Option Nat
  | .client c => (w.clients c).cacheData
  | .redis b => some (w.backends b).pCache

def ledger (w : Proxy) : Ledger where
  mem := w.st.mem
  holds
    | .cache k => w.cacheData k
    | .req p => (w.st.ids p).pReqData
    | .data p => (w.st.ids p).pData

end Proxy

/-- Everything that can point to a block: an entry of a free list, a record kept for reuse, or a slot. -/
inductive Place
  | free (iIndex n : Nat)
  | record (n : Nat)
  | slot (s : Slot)
deriving DecidableEq, Repr

/-- The block to which `place` points. -/
def Proxy.blockAt (w : Proxy) : Place → Option Nat
  | .free iIndex n => (w.st.mem.freePoolList iIndex)[n]?
  | .record n => w.st.mem.freeMetaData[n]?
  | .slot s => w.ledger.holds s

end RedisProxy
