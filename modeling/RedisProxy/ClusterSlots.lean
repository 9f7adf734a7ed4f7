import RedisProxy.CString
import RedisProxy.KeyHashSlot
import RedisProxy.PackageMsg
import RedisProxy.ParserDriver
import RedisProxy.RespTree

/-!
# `GR_MsgProcess::ClusterSlots`

The answer to `CLUSTER SLOTS`: the proxy pretends to be a cluster of three nodes. The text is printed to a
block of 2048 bytes.
-/

namespace RedisProxy

open Resp

namespace ClusterSlots

def szNodeId : List UInt8 := ascii "fbec008dfd093d2f9753f7058b8642484119e1ae"
def szNodeId1 : List UInt8 := ascii "4101a328ac736cccfe65e1cfafef003e631b56b9"
def szNodeId2 : List UInt8 := ascii "698c3b1f3f7b773c5255f3ecd44cca76b46d74bc"

/-- `*3\r\n`. -/
def star3 : List UInt8 := Byte.star :: [51] ++ crlf

/-- `:%d\r\n`. -/
def intText (n : Nat) : List UInt8 := Byte.colon :: decimalText n ++ crlf

/-- `$%d\r\n%s\r\n` for the length of a text and the text. -/
def bulkText (s : List UInt8) : List UInt8 := Byte.usd :: decimalText s.length ++ crlf ++ s ++ crlf

/-- `$40\r\n%s\r\n`. -/
def idText (s : List UInt8) : List UInt8 := Byte.usd :: [52, 48] ++ crlf ++ s ++ crlf

/-- The text of a node with the slots from `first` to `last`. -/
def nodeText (first last : Nat) (szIp : List UInt8) (usPort : UInt16) (id : List UInt8) : List UInt8 :=
  star3 ++ intText first ++ intText last ++ star3 ++ bulkText szIp ++ intText usPort.toNat ++ idText id

/-- The ports of the three nodes. -/
def ports (usPort : UInt16) (bSupportClusterSlots : Bool) : UInt16 × UInt16 × UInt16 :=
  if bSupportClusterSlots then (usPort, usPort + 1, usPort + 2) else (usPort, usPort, usPort)

end ClusterSlots

open ClusterSlots

/-- `ClusterSlots(szIp, usPort)`, where the pool gives a block at `cmd`: the memory and `m_sUsedSize`. The result is
`none` if the text and the null byte behind it do not fit into the block. -/
def MsgProcess.clusterSlots (mem : Int → UInt8) (cmd : Int) (szIp : List UInt8) (usPort : UInt16) (bSupportClusterSlots : Bool) :
    Option ((Int → UInt8) × Int) :=
  let (usPort1, usPort2, usPort3) := ports usPort bSupportClusterSlots
  let text1 := star3 ++ nodeText 0 5460 szIp usPort1 szNodeId
  let text2 := nodeText 5461 10922 szIp usPort2 szNodeId1
  let text3 := nodeText 10923 10383 szIp usPort3 szNodeId2
  let s := (PackageMsg.Cmd.mk mem 0).sprintf cmd text1
  let s := s.sprintf cmd text2
  let s := s.sprintf cmd text3
  if (text1 ++ text2 ++ text3).length < 2048 then some (writeAt s.mem (cmd + s.pos) [0], s.pos) else none

/-- The ranges of slots in a reply. -/
def slotRanges : Tree → List (Nat × Nat)
  | .array ts => ts.filterMap fun
    | .array (.line _ a :: .line _ b :: _) => some (decimal a, decimal b)
    | _ => none
  | _ => []

/-- The reply is one value for the parser, and exactly one of its ranges holds the slot of the key. -/
def SlotCovered (mem : Int → UInt8) (cmd : Int) (szIp : List UInt8) (usPort : UInt16) (bSupportClusterSlots : Bool)
    (key : List UInt8) : Prop :=
  ∃ (mem' : Int → UInt8) (used : Nat) (calls : List RedisMsg.Call) (t : Tree),
    MsgProcess.clusterSlots mem cmd szIp usPort bSupportClusterSlots = some (mem', (used : Int)) ∧
    RedisMsg.feedAll mem' (RedisMsg.init cmd) [used] = some calls ∧ (∀ call ∈ calls, call.iRet = .ok) ∧
    (calls.filter RedisMsg.Call.isEnd).map (fun call => (call.msg.this.szNowPos, call.msg.this.iLen)) = [(cmd + used, (used : Int))] ∧
    readValue 4 (bytesAt mem' cmd used) = some (t, []) ∧
    ((slotRanges t).filter fun r => decide (r.1 ≤ (keyHashSlot key).toNat ∧ (keyHashSlot key).toNat ≤ r.2)).length = 1

end RedisProxy
