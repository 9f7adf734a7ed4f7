import RedisProxy.ParseByte
import RedisProxy.Resp

/-!
# Texts in C

The functions of the C library that the proxy calls for texts that end with a null byte. Memory is a
function from addresses to bytes. A search gets a number of bytes after which it gives up; the callers
know of a null byte within that number.
-/

namespace RedisProxy

/-- The bytes of a text. -/
def ascii (s : String) : List UInt8 := s.toList.map fun c => c.toNat.toUInt8

/-- `strchr`, in at most `n` bytes. -/
def strchr (rd : Int → UInt8) (ch : UInt8) : Nat → Int → Option Int
  | 0, _ => none
  | n + 1, p => if rd p = ch then some p else if rd p = 0 then none else strchr rd ch n (p + 1)

/-- `strncmp(p, text, ..) == 0` for the length of the text. -/
def strncmpEq (rd : Int → UInt8) (p : Int) (text : List UInt8) : Bool := bytesAt rd p text.length == text

/-- The digits of `strtoll`. -/
def strtollDigits (rd : Int → UInt8) : Nat → Int → Nat → Nat
  | 0, _, v => v
  | n + 1, p, v => if Byte.isDigit (rd p) then strtollDigits rd n (p + 1) (v * 10 + Resp.digitNat (rd p)) else v

/-- `strtoll`, in at most `n` bytes, of a text that does not start with a blank. -/
def strtoll (rd : Int → UInt8) (n : Nat) (p : Int) : Int :=
  if rd p = Byte.sub then max (-2 ^ 63) (-(strtollDigits rd n (p + 1) 0 : Int))
  else min (2 ^ 63 - 1) (strtollDigits rd n (if rd p = Byte.plus then p + 1 else p) 0 : Int)

/-- `atoi`: the value of `strtol`, cut to an `int`. -/
def atoi (rd : Int → UInt8) (n : Nat) (p : Int) : Int := int32 (strtoll rd n p)

/-- `strrchr`, in at most `n` bytes; `last` is the last place found so far. -/
def strrchrFrom (rd : Int → UInt8) (ch : UInt8) : Nat → Int → Option Int → Option Int
  | 0, _, last => last
  | n + 1, p, last => if rd p = 0 then last else strrchrFrom rd ch n (p + 1) (if rd p = ch then some p else last)

def strrchr (rd : Int → UInt8) (ch : UInt8) (n : Nat) (p : Int) : Option Int := strrchrFrom rd ch n p none

/-- The text at `p`, up to its null byte and of at most `n` bytes. -/
def cString (rd : Int → UInt8) : Nat → Int → List UInt8
  | 0, _ => []
  | n + 1, p => if rd p = 0 then [] else rd p :: cString rd n (p + 1)

/-- `strcasecmp(p, text) == 0` for a text in small letters. -/
def strcasecmpEq (rd : Int → UInt8) (n : Nat) (p : Int) (text : List UInt8) : Bool :=
  (cString rd n p).map Resp.lowerCase == text

end RedisProxy
