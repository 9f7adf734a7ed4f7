import RedisProxy.ClusterRoute
import RedisProxy.CString
import RedisProxy.PackageMsg

/-!
# The answer to `CLUSTER NODES`

`ParseClusterNodes` reads the nodes of the cluster from the text in the reply and adds the masters that
own slots to the route. The text is cut into pieces in place: a null byte is written behind each piece
that is read.

The second part of the file says what such a text is: a line for each node.
-/

namespace RedisProxy

namespace Byte

def space : UInt8 := 32
def comma : UInt8 := 44
def atSign : UInt8 := 64
def bracket : UInt8 := 91

end Byte

/-! ## `GR_SplitLine` -/

/-- `GR_String`: a piece of a text. -/
structure GRString where
  szChar : Int
  iLen : Nat
deriving DecidableEq, Repr

/-- The loop of `GR_SplitLine` over the last `k` bytes, from `i` on. The piece that a separator ends is not
replaced if the separator is the last byte. -/
def splitLoop (rd : Int → UInt8) (dot : UInt8) (szSrc : Int) (iSrcLen : Nat) : Nat → Nat → GRString → List GRString
  | 0, _, tmpRet => if tmpRet.iLen ≠ 0 then [tmpRet] else []
  | k + 1, i, tmpRet =>
    if rd (szSrc + i) = dot then
      tmpRet :: splitLoop rd dot szSrc iSrcLen k (i + 1) (if i + 1 ≠ iSrcLen then ⟨szSrc + i + 1, 0⟩ else tmpRet)
    else splitLoop rd dot szSrc iSrcLen k (i + 1) { tmpRet with iLen := tmpRet.iLen + 1 }

/-- `GR_SplitLine`. -/
def splitLine (rd : Int → UInt8) (szSrc : Int) (iSrcLen : Nat) (dot : UInt8) : List GRString :=
  if iSrcLen = 0 then [] else splitLoop rd dot szSrc iSrcLen iSrcLen 0 ⟨szSrc, 0⟩

/-! ## `GetClusterInfo` -/

/-- The flags of a node. -/
inductive NodeFlag
  | myself
  | master
  | slave
  | pfail
  | fail
  | handshake
  | noaddr
  | nofailover
  | noflags
deriving DecidableEq, Repr

namespace NodeFlag

def text : NodeFlag → List UInt8
  | .myself => ascii "myself"
  | .master => ascii "master"
  | .slave => ascii "slave"
  | .pfail => ascii "fail?"
  | .fail => ascii "fail"
  | .handshake => ascii "handshake"
  | .noaddr => ascii "noaddr"
  | .nofailover => ascii "nofailover"
  | .noflags => ascii "noflags"

/-- The `CLUSTER_NODE_` constants. -/
def mask : NodeFlag → Nat
  | .myself => 16
  | .master => 1
  | .slave => 2
  | .pfail => 4
  | .fail => 8
  | .handshake => 32
  | .noaddr => 64
  | .nofailover => 512
  | .noflags => 0

/-- The flags at which `GetClusterInfo` returns. -/
def returns : NodeFlag → Bool
  | .slave | .pfail | .fail | .handshake | .noaddr | .nofailover => true
  | _ => false

def all : List NodeFlag := [.myself, .master, .slave, .pfail, .fail, .handshake, .noaddr, .nofailover, .noflags]

end NodeFlag

/-- `GR_ClusterInfo`, with the address as it stands in the text. -/
structure NodeInfo where
  szIP : Int
  usPort : Nat
  iFlags : Nat
  listSlots : List (Int × Int)

/-- How the loop over the flags ends: at a flag that ends `GetClusterInfo`, or with all flags read; `bOK`
says that none of them was unknown. -/
inductive FlagsRet
  | returned
  | read (iFlags : Nat) (bOK : Bool)
deriving DecidableEq, Repr

/-- A null byte is written where a search has found a separator. -/
def cutAt (mem : Int → UInt8) : Option Int → Int → UInt8
  | none => mem
  | some p => Function.update mem p 0

/-- The loop over the flags, for at most `n` of them, from `s` on; there is a null byte within `len` bytes. -/
def readFlags (len : Nat) : Nat → (Int → UInt8) → Int → Nat → Bool → FlagsRet × (Int → UInt8)
  | 0, mem, _, iFlags, bOK => (.read iFlags bOK, mem)
  | n + 1, mem, s, iFlags, bOK =>
    let p := strchr mem Byte.comma len s
    let mem := cutAt mem p
    match NodeFlag.all.find? fun f => strcasecmpEq mem len s f.text with
    | some f =>
      if f.returns then (.returned, mem)
      else
        match p with
        | none => (.read (iFlags ||| f.mask) bOK, mem)
        | some p => readFlags len n mem (p + 1) (iFlags ||| f.mask) bOK
    | none =>
      match p with
      | none => (.read iFlags false, mem)
      | some p => readFlags len n mem (p + 1) iFlags false

/-- One field of slots. A field that is empty fails an `ASSERT`. -/
def readSlots (mem : Int → UInt8) (f : GRString) : Option ((Int × Int) × (Int → UInt8)) :=
  let mem := Function.update mem (f.szChar + f.iLen) 0
  match splitLine mem f.szChar f.iLen Byte.sub with
  | [] => none
  | [v] =>
    let mem := Function.update mem (v.szChar + v.iLen) 0
    let iBegin := atoi mem (v.iLen + 1) v.szChar
    some ((iBegin, iBegin), mem)
  | [v, u] =>
    let mem := Function.update mem (v.szChar + v.iLen) 0
    let iBegin := atoi mem (v.iLen + 1) v.szChar
    let mem := Function.update mem (u.szChar + u.iLen) 0
    some ((iBegin, atoi mem (u.iLen + 1) u.szChar), mem)
  | v :: _ =>
    let mem := Function.update mem (v.szChar + v.iLen) 0
    let iBegin := atoi mem (v.iLen + 1) v.szChar
    some ((iBegin, iBegin), mem)

/-- The loop over the fields behind the first eight. -/
def readSlotFields : List GRString → (Int → UInt8) → Option (List (Int × Int) × (Int → UInt8))
  | [], mem => some ([], mem)
  | f :: fs, mem =>
    if mem f.szChar = Byte.bracket then readSlotFields fs mem
    else
      match readSlots mem f with
      | none => none
      | some (s, mem) =>
        match readSlotFields fs mem with
        | none => none
        | some (listSlots, mem) => some (s :: listSlots, mem)

/-- `GetClusterInfo` for the fields of a line: `iResult`, the result, and the memory after it. -/
def getClusterInfo (vNodeData : List GRString) (mem : Int → UInt8) : Option ((Bool × NodeInfo) × (Int → UInt8)) :=
  match vNodeData with
  | _ :: addr :: flags :: _ =>
    let mem := Function.update mem (addr.szChar + addr.iLen) 0
    match strrchr mem Byte.colon (addr.iLen + 1) addr.szChar with
    | none => some ((false, ⟨0, 0, 0, []⟩), mem)
    | some p =>
      let mem := Function.update mem p 0
      let port := p + 1
      let mem := cutAt mem (strchr mem Byte.atSign (addr.iLen + 1) port)
      let info : NodeInfo := ⟨addr.szChar, (atoi mem (addr.iLen + 1) port % 2 ^ 16).toNat, 0, []⟩
      let mem := Function.update mem (flags.szChar + flags.iLen) 0
      match readFlags (flags.iLen + 1) (flags.iLen + 1) mem flags.szChar 0 true with
      | (.returned, mem) => some ((true, info), mem)
      | (.read iFlags bOK, mem) =>
        match readSlotFields (vNodeData.drop 8) mem with
        | none => none
        | some (listSlots, mem) => some ((bOK, { info with iFlags, listSlots }), mem)
  | _ => none

/-! ## `ParseClusterNodes` -/

/-- The slots of a range. The loop of `AddRedisServer` starts at the first one, which must not lie in front
of the array if there is a last one behind it. -/
def slotRange (s : Int × Int) : Option (Nat × Nat) :=
  if s.2 < s.1 then some (1, 0) else if s.1 < 0 then none else some (s.1.toNat, s.2.toNat)

/-- The information for `AddRedisServer`. `inetAton` is the function of the C library, which reads an IPv4
address; what the route does with an address that cannot be read is not modelled. -/
def NodeInfo.resolve (inetAton : List UInt8 → Option UInt32) (len : Nat) (mem : Int → UInt8) (info : NodeInfo) :
    Option ClusterInfo :=
  match inetAton (cString mem len info.szIP), info.listSlots.mapM slotRange with
  | some sAddr, some listSlots =>
    if h : sAddr ≠ 0 ∨ UInt16.ofNat info.usPort ≠ 0 then some ⟨⟨sAddr, UInt16.ofNat info.usPort, h⟩, listSlots⟩ else none
  | _, _ => none

/-- One line of `ParseClusterNodes`. -/
def parseNode (inetAton : List UInt8 → Option UInt32) (line : GRString) (conn : Proxy.Connect)
    (s : (Int → UInt8) × ClusterRoute) : Option ((Int → UInt8) × ClusterRoute) :=
  let vNodeData := splitLine s.1 line.szChar line.iLen Byte.space
  if vNodeData.length < 8 then some s
  else
    match getClusterInfo vNodeData s.1 with
    | none => none
    | some ((bOK, info), mem) =>
      if bOK = false then some (mem, s.2)
      else if info.listSlots = [] then some (mem, s.2)
      else
        match info.resolve inetAton (line.iLen + 1) mem with
        | none => none
        | some info =>
          match s.2.addRedisServer info conn with
          | none => none
          | some (_, r) => some (mem, r)

/-- The loop of `ParseClusterNodes`. `conn` gives the outcome of `connect` for each line. -/
def parseNodes (inetAton : List UInt8 → Option UInt32) (conn : Nat → Proxy.Connect) :
    Nat → List GRString → (Int → UInt8) × ClusterRoute → Option ((Int → UInt8) × ClusterRoute)
  | _, [], s => some s
  | k, line :: lines, s =>
    match parseNode inetAton line (conn k) s with
    | none => none
    | some s => parseNodes inetAton conn (k + 1) lines s

/-- `ParseClusterNodes` for the text of `iLen` bytes at `szStart`, up to the check whether all slots have a
server. -/
def parseClusterNodes (inetAton : List UInt8 → Option UInt32) (conn : Nat → Proxy.Connect) (szStart : Int) (iLen : Nat)
    (s : (Int → UInt8) × ClusterRoute) : Option ((Int → UInt8) × ClusterRoute) :=
  parseNodes inetAton conn 0 (splitLine s.1 szStart iLen Byte.lf) s

/-! ## The text -/

/-- A text that can stand in a field. -/
def Printable (s : List UInt8) : Prop := ∀ c ∈ s, c ≠ 0 ∧ c ≠ Byte.lf ∧ c ≠ Byte.space

/-- A field about slots: one slot, a range, or a slot that is on its way to or from another node. -/
inductive SlotField
  | one (n : Nat)
  | range (a b : Nat)
  | migrating (t : List UInt8)

namespace SlotField

def text : SlotField → List UInt8
  | .one n => decimalText n
  | .range a b => decimalText a ++ Byte.sub :: decimalText b
  | .migrating t => Byte.bracket :: t

/-- The slots that the node owns by the field. -/
def slots : SlotField → Option (Nat × Nat)
  | .one n => some (n, n)
  | .range a b => some (a, b)
  | .migrating _ => none

def WF : SlotField → Prop
  | .one n => n < clusterSlots
  | .range a b => a ≤ b ∧ b < clusterSlots
  | .migrating t => Printable t

end SlotField

/-- A node of the cluster, as a line says it. -/
structure ClusterNode where
  id : List UInt8
  ip : List UInt8
  addr : Addr
  /-- The port of the cluster bus, which older versions do not print, and what may follow it. -/
  bus : Option (List UInt8)
  flags : List NodeFlag
  /-- The master of the node, the times of ping and pong, the epoch and the state of the link. -/
  others : List (List UInt8)
  fields : List SlotField

namespace ClusterNode

def addrText (nd : ClusterNode) : List UInt8 :=
  nd.ip ++ Byte.colon :: (decimalText nd.addr.usPort.toNat ++ match nd.bus with
    | none => []
    | some t => Byte.atSign :: t)

def flagsText : List NodeFlag → List UInt8
  | [] => []
  | f :: fs => f.text ++ fs.flatMap fun g => Byte.comma :: g.text

/-- The fields behind the name of the node. -/
def rest (nd : ClusterNode) : List (List UInt8) :=
  nd.addrText :: flagsText nd.flags :: (nd.others ++ nd.fields.map SlotField.text)

def line (nd : ClusterNode) : List UInt8 := nd.id ++ nd.rest.flatMap fun s => Byte.space :: s

/-- The answer to `CLUSTER NODES`. -/
def clusterText (nodes : List ClusterNode) : List UInt8 := nodes.flatMap fun nd => nd.line ++ [Byte.lf]

structure WF (inetAton : List UInt8 → Option UInt32) (nd : ClusterNode) : Prop where
  id_ne : nd.id ≠ []
  id : Printable nd.id
  ip : Printable nd.ip
  ip_colon : Byte.colon ∉ nd.ip
  addr : inetAton nd.ip = some nd.addr.sAddr
  bus : ∀ t, nd.bus = some t → Printable t ∧ Byte.colon ∉ t
  flags : nd.flags ≠ []
  others : nd.others.length = 5
  others_text : ∀ s ∈ nd.others, s ≠ [] ∧ Printable s
  fields : ∀ f ∈ nd.fields, f.WF

/-- The address of the node and its slots. -/
def info (nd : ClusterNode) : ClusterInfo := ⟨nd.addr, nd.fields.filterMap SlotField.slots⟩

/-- The node is out of service, or none that serves requests. -/
def isDown (nd : ClusterNode) : Bool := nd.flags.any fun f => f ∈ [NodeFlag.slave, .pfail, .fail, .handshake, .noaddr]

/-- The node is a master that serves its slots. -/
def isMaster (nd : ClusterNode) : Bool := decide (NodeFlag.master ∈ nd.flags) && !nd.isDown

end ClusterNode

end RedisProxy
