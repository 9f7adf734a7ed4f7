import RedisProxy.Resp

/-!
# Replies as a client reads them

A reader for RESP that returns what it has read as a tree, for replies whose contents matter.
-/

namespace RedisProxy.Resp

/-- A value: a line with its first byte, a bulk string or an array. -/
inductive Tree
  | line (b : UInt8) (s : List UInt8)
  | bulk (s : List UInt8)
  | array (ts : List Tree)

/-- Splits at the first `CRLF`. -/
def splitCrlf : List UInt8 → Option (List UInt8 × List UInt8)
  | a :: b :: bs =>
    if a = Byte.cr ∧ b = Byte.lf then some ([], bs) else (splitCrlf (b :: bs)).map fun p => (a :: p.1, p.2)
  | _ => none

/-- Reads `k` values. -/
def readMany (reader : List UInt8 → Option (Tree × List UInt8)) : Nat → List UInt8 → Option (List Tree × List UInt8)
  | 0, bs => some ([], bs)
  | k + 1, bs =>
    match reader bs with
    | none => none
    | some (t, bs) => (readMany reader k bs).map fun p => (t :: p.1, p.2)

/-- Reads one value with arrays of depth less than `n`; the result is the value and the bytes behind it. -/
def readValue : Nat → List UInt8 → Option (Tree × List UInt8)
  | 0, _ => none
  | _ + 1, [] => none
  | n + 1, b :: bs =>
    match splitCrlf bs with
    | none => none
    | some (s, bs) =>
      if b = Byte.usd then
        if bs.take (decimal s + 2) = bs.take (decimal s) ++ crlf then
          some (.bulk (bs.take (decimal s)), bs.drop (decimal s + 2))
        else none
      else if b = Byte.star then (readMany (readValue n) (decimal s) bs).map fun p => (.array p.1, p.2)
      else some (.line b s, bs)

/-- The bytes `v` are read as `t`, whatever follows them. -/
def Reads (n : Nat) (v : List UInt8) (t : Tree) : Prop := ∀ bs, readValue n (v ++ bs) = some (t, bs)

end RedisProxy.Resp
