import RedisProxy.ParseByte
import RedisProxy.Resp

/-!
# `GR_MsgProcess::PackageMsg`

The proxy builds the requests that it sends of its own. The length of a request is counted first, a block of that size
is taken from the pool, and the request is written to it piece by piece. The memory is a function from addresses, as it
is for the parser.
-/

namespace RedisProxy

open Resp

/-- The loop of `countDigits`. -/
def countDigitsFrom (v result : Nat) : Nat :=
  if v < 10 then result
  else if v < 100 then result + 1
  else if v < 1000 then result + 2
  else if v < 10000 then result + 3
  else countDigitsFrom (v / 10000) (result + 4)
termination_by v
decreasing_by omega

/-- `countDigits`. -/
def countDigits (v : Nat) : Nat := countDigitsFrom v 1

/-- `digits10`. -/
def digits10 (v : Nat) : Nat :=
  if v < 10 then 1
  else if v < 100 then 2
  else if v < 1000 then 3
  else if v < 1000000000000 then
    if v < 100000000 then
      if v < 1000000 then
        if v < 10000 then 4 else 5 + (if 100000 ≤ v then 1 else 0)
      else 7 + (if 10000000 ≤ v then 1 else 0)
    else if v < 10000000000 then 9 + (if 1000000000 ≤ v then 1 else 0)
    else 11 + (if 100000000000 ≤ v then 1 else 0)
  else 12 + digits10 (v / 1000000000000)
termination_by v
decreasing_by omega

/-- `GR_BULKLEN`. -/
def bulkLen (len : Nat) : Nat := 1 + countDigits len + 2 + len + 2

/-- The text of a number that is not negative, as `%d` and `%zu` print it. -/
def decimalText (n : Nat) : List UInt8 :=
  if n < 10 then [UInt8.ofNat (48 + n)] else decimalText (n / 10) ++ [UInt8.ofNat (48 + n % 10)]
termination_by n
decreasing_by omega

/-- The memory with the bytes `bs` at `p`. -/
def writeAt (mem : Int → UInt8) (p : Int) (bs : List UInt8) : Int → UInt8 :=
  fun a => if p ≤ a ∧ a < p + bs.length then bs.getD (a - p).toNat 0 else mem a

namespace PackageMsg

/-- The variable `pos` of `PackageMsg`, and the memory. -/
structure Cmd where
  mem : Int → UInt8
  pos : Int

namespace Cmd

/-- `pos += sprintf(cmd+pos, ..)` for a text; `sprintf` writes a null byte after it. -/
def sprintf (cmd : Int) (s : Cmd) (text : List UInt8) : Cmd :=
  ⟨writeAt s.mem (cmd + s.pos) (text ++ [0]), int32 (s.pos + text.length)⟩

/-- `memcpy(cmd+pos, arg, len); pos += len`. -/
def memcpy (cmd : Int) (s : Cmd) (arg : List UInt8) : Cmd :=
  ⟨writeAt s.mem (cmd + s.pos) arg, int32 (s.pos + arg.length)⟩

/-- `cmd[pos++] = ch`. -/
def put (cmd : Int) (s : Cmd) (ch : UInt8) : Cmd := ⟨writeAt s.mem (cmd + s.pos) [ch], int32 (s.pos + 1)⟩

end Cmd

/-- One round of the second loop. -/
def packageArg (cmd : Int) (s : Cmd) (arg : List UInt8) : Cmd :=
  let s := s.sprintf cmd (Byte.usd :: decimalText arg.length ++ crlf)
  let s := s.memcpy cmd arg
  let s := s.put cmd Byte.cr
  s.put cmd Byte.lf

end PackageMsg

open PackageMsg

/-- `totlen` of `PackageMsg`. -/
def totlen (argv : List (List UInt8)) : Int :=
  argv.foldl (fun totlen arg => int32 (totlen + bulkLen arg.length)) (int32 (1 + countDigits argv.length + 2))

/-- `PackageMsg(argc, argv, argvlen)`, where the pool gives a block at `cmd`: the memory and `m_sUsedSize`. The result is
`none` if the assertion fails. -/
def packageMsg (mem : Int → UInt8) (cmd : Int) (argv : List (List UInt8)) : Option ((Int → UInt8) × Int) :=
  let s := (Cmd.mk mem 0).sprintf cmd (Byte.star :: decimalText argv.length ++ crlf)
  let s := argv.foldl (packageArg cmd) s
  if s.pos = totlen argv then some (writeAt s.mem (cmd + s.pos) [0], s.pos) else none

end RedisProxy
