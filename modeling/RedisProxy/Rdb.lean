import RedisProxy.ParseByte

/-!
# `GR_Rdb`

How lengths are read from the data that a master sends. The platform has a signed `char` and is little-endian, so a
byte is extended by its sign whenever it becomes an `int`.
-/

namespace RedisProxy

/-- A `char` as an `int`. -/
def charInt (b : UInt8) : BitVec 32 := b.toBitVec.signExtend 32

/-- `GR_BYTE_TO_UINT32`. -/
def byteToUint32 (rd : Int → UInt8) (bytes : Int) : BitVec 32 :=
  charInt (rd bytes) <<< 24 ||| charInt (rd (bytes + 1)) <<< 16 ||| charInt (rd (bytes + 2)) <<< 8 |||
    charInt (rd (bytes + 3))

/-- A `char` as an `uint64`. -/
def charUint64 (b : UInt8) : BitVec 64 := b.toBitVec.signExtend 64

/-- `GR_BYTE_TO_UINT64`. -/
def byteToUint64 (rd : Int → UInt8) (bytes : Int) : BitVec 64 :=
  charUint64 (rd bytes) <<< 56 ||| charUint64 (rd (bytes + 1)) <<< 48 ||| charUint64 (rd (bytes + 2)) <<< 40 |||
    charUint64 (rd (bytes + 3)) <<< 32 ||| charUint64 (rd (bytes + 4)) <<< 24 |||
    charUint64 (rd (bytes + 5)) <<< 16 ||| charUint64 (rd (bytes + 6)) <<< 8 ||| charUint64 (rd (bytes + 7))

/-- `ntohl`. -/
def ntohl (x : BitVec 32) : BitVec 32 :=
  (x &&& 0xff#32) <<< 24 ||| (x &&& 0xff00#32) <<< 8 ||| (x >>> 8 &&& 0xff00#32) ||| x >>> 24

/-- The result of `RdbLoadLenByRef` and the variables that it sets. -/
structure RdbLen where
  ret : Ret
  lLen : BitVec 64
  iSkip : Nat
  iSencoded : Nat
deriving DecidableEq, Repr

/-- `RdbLoadLenByRef`. `lLen` is the value of the variable before the call, and `szMsgEnd` is the end of the cache. -/
def rdbLoadLenByRef (rd : Int → UInt8) (szMsgEnd szNowPos : Int) (lLen : BitVec 64) : RdbLen :=
  let ch := charInt (rd szNowPos)
  let type := (ch &&& 0xc0#32).sshiftRight 6
  if type = 3#32 then
    ⟨.ok, (ch &&& 0x3f#32).signExtend 64, 1, 1⟩
  else if type = 0#32 then
    ⟨.ok, (ch &&& 0x3f#32).signExtend 64, 1, 0⟩
  else if type = 1#32 then
    if szMsgEnd - szNowPos < 2 then ⟨.eagain, lLen, 0, 0⟩
    else ⟨.ok, ((ch &&& 0x3f#32) <<< 8 ||| charInt (rd (szNowPos + 1))).signExtend 64, 2, 0⟩
  else if ch = 0x80#32 then
    if szMsgEnd - szNowPos < 5 then ⟨.eagain, lLen, 0, 0⟩
    else ⟨.ok, (ntohl (byteToUint32 rd (szNowPos + 1))).setWidth 64, 5, 0⟩
  else if ch = 0x81#32 then
    if szMsgEnd - szNowPos < 9 then ⟨.eagain, lLen, 0, 0⟩
    else ⟨.ok, byteToUint64 rd (szNowPos + 1), 9, 0⟩
  else ⟨.error, lLen, 0, 0⟩

/-- The `k` low bytes of a number in network byte order. -/
def networkBytes (n : Nat) : Nat → List UInt8
  | 0 => []
  | k + 1 => (n / 256 ^ k).toUInt8 :: networkBytes n k

/-- A length as the comment on the `RDB_` constants writes it. -/
def rdbLength (n : Nat) : List UInt8 :=
  if n < 2 ^ 6 then [n.toUInt8]
  else if n < 2 ^ 14 then [(64 + n / 256).toUInt8, (n % 256).toUInt8]
  else if n < 2 ^ 32 then 0x80 :: networkBytes n 4
  else 0x81 :: networkBytes n 8

end RedisProxy
