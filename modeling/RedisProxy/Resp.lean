import RedisProxy.RedisMsg

/-!
# The protocol

The values of RESP, as the strings of bytes that they are sent as. This says what the parser is for; it
is not taken from the parser.
-/

namespace RedisProxy.Resp

/-- `CRLF`. -/
def crlf : List UInt8 := [Byte.cr, Byte.lf]

/-- The number that a digit stands for. -/
def digitNat (ch : UInt8) : Nat := ch.toNat - 48

/-- The number that a string of digits stands for, read from the left. -/
def decimal (ds : List UInt8) : Nat := ds.foldl (fun n d => n * 10 + digitNat d) 0

/-- A decimal number. -/
def Digits (ds : List UInt8) : Prop := ds ≠ [] ∧ ∀ d ∈ ds, Byte.isDigit d = true

/-- A decimal number without leading zeros. -/
def Canonical (ds : List UInt8) : Prop := Digits ds ∧ (ds.head? = some 48 → ds = [48])

/-- The text of a simple string or an error. -/
def Text (s : List UInt8) : Prop := ∀ c ∈ s, c ≠ Byte.cr ∧ c ≠ Byte.lf

/-- The text of an integer. -/
def Integer (s : List UInt8) : Prop :=
  Digits s ∨ ∃ sign ds, s = sign :: ds ∧ (sign = Byte.plus ∨ sign = Byte.sub) ∧ Digits ds

/-- The strings that are one value. `D` says which decimal numbers may stand for lengths and counts. -/
inductive Value (D : List UInt8 → Prop) : List UInt8 → Prop
  | simple {s : List UInt8} (h : Text s) : Value D (Byte.plus :: s ++ crlf)
  | error {s : List UInt8} (h : Text s) : Value D (Byte.sub :: s ++ crlf)
  | integer {s : List UInt8} (h : Integer s) : Value D (Byte.colon :: s ++ crlf)
  | bulk {ds s : List UInt8} (h : D ds) (hlen : decimal ds = s.length) :
      Value D (Byte.usd :: ds ++ crlf ++ s ++ crlf)
  | nilBulk : Value D (Byte.usd :: Byte.sub :: Byte.one :: crlf)
  | array {ds : List UInt8} {vs : List (List UInt8)} (h : D ds) (hlen : decimal ds = vs.length)
      (hvs : ∀ v ∈ vs, Value D v) : Value D (Byte.star :: ds ++ crlf ++ vs.flatten)
  | nilArray : Value D (Byte.star :: Byte.sub :: Byte.one :: crlf)

/-- The bytes `s` are the bulk string `a`. -/
def Bulk (D : List UInt8 → Prop) (a s : List UInt8) : Prop :=
  ∃ ds, D ds ∧ decimal ds = a.length ∧ s = Byte.usd :: ds ++ crlf ++ a ++ crlf

/-- The bytes `v` are the request with the arguments `as`: an array of bulk strings. -/
def Request (D : List UInt8 → Prop) (as : List (List UInt8)) (v : List UInt8) : Prop :=
  ∃ ds ss, D ds ∧ decimal ds = as.length ∧ List.Forall₂ (Bulk D) as ss ∧ v = Byte.star :: ds ++ crlf ++ ss.flatten

/-- An ASCII letter as a small one. -/
def lowerCase (ch : UInt8) : UInt8 := if 65 ≤ ch ∧ ch ≤ 90 then ch + 32 else ch

/-- The text of a command, whatever its case. -/
def isCommand (a cmd : List UInt8) : Bool := a.map lowerCase == cmd

def eval : List UInt8 := [101, 118, 97, 108]
def evalsha : List UInt8 := [101, 118, 97, 108, 115, 104, 97]

/-- The argument that is the key of a request, counted from 1. -/
def keyArg (as : List (List UInt8)) : Nat :=
  if as.head?.any fun a => isCommand a eval || isCommand a evalsha then 4 else 2

/-- A line that starts with `P`, as `PING` is sent without RESP. -/
def Inline (s : List UInt8) : Prop := ∃ t, s = Byte.pingB :: t ++ crlf ∧ Byte.cr ∉ t

/-- A message: a value, or a line that starts with `P`. -/
def Message (D : List UInt8 → Prop) (s : List UInt8) : Prop := Value D s ∨ Inline s

end RedisProxy.Resp
