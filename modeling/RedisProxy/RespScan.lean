import RedisProxy.ParseByte
import RedisProxy.Resp

/-!
# A reader of RESP

What the parser keeps of a message that it has read in part: the state, the lines that each open array
still needs, innermost first, and the bytes that a bulk string still needs. The numbers have no bounds
here, so `need` and `arg` are the counts and lengths that the bytes declare.
-/

namespace RedisProxy

/-- What is known of the text of a line. The parser does not look at it. -/
inductive LineKind
  /-- A line that starts with `P`. -/
  | inline
  /-- A simple string or an error. -/
  | text
  /-- A number of which nothing has been read. -/
  | numStart
  /-- The sign of an integer has been read. -/
  | numSign
  /-- At least one digit has been read. -/
  | numDigits
deriving DecidableEq, Repr

/-- The state of the reader. -/
structure Scan where
  state : MsgState
  need : Nat
  arg : Nat
  outer : List Nat
  kind : LineKind
  len : Nat
deriving DecidableEq, Repr

namespace Scan

/-- Before a message. -/
def init : Scan := ⟨.start, 0, 0, [], .text, 0⟩

/-- A line is complete: what is needed then, or nothing if the message is complete. -/
def closeLine : Nat → List Nat → Option (Nat × List Nat)
  | need, [] => if need = 1 then none else some (need - 1, [])
  | need, n :: outer => if need = 1 then closeLine n outer else some (need - 1, n :: outer)

/-- The reader after a line. -/
def endLine (c : Scan) (need : Nat) (outer : List Nat) : Option ParseRet × Scan :=
  match closeLine need outer with
  | none => (some .ok, { c with state := .msgEnd })
  | some (need, outer) => (none, { c with state := .readingLine, need, outer })

/-- The reader after an empty array. -/
def endArray (c : Scan) : Option ParseRet × Scan :=
  match c.outer with
  | [] => (some .ok, { c with state := .msgEnd })
  | n :: outer => c.endLine n outer

/-- What is known of a number after the byte `ch`. -/
def nextKind (ch : UInt8) : LineKind → LineKind
  | .inline => .inline
  | .text => .text
  | .numStart => if Byte.isDigit ch then .numDigits else .numSign
  | .numSign => .numDigits
  | .numDigits => .numDigits

/-- One byte, when the length has been counted. -/
def read (ch : UInt8) (c : Scan) : Option ParseRet × Scan :=
  match c.state with
  | .start =>
    if ch = Byte.plus then (none, { c with state := .str, need := 1, kind := .text })
    else if ch = Byte.sub then (none, { c with state := .str, need := 1, kind := .text })
    else if ch = Byte.colon then (none, { c with state := .str, need := 1, kind := .numStart })
    else if ch = Byte.pingB then (none, { c with state := .str, need := 1, kind := .inline })
    else if ch = Byte.usd then (none, { c with state := .usdNum, need := 1, arg := 0, kind := .numStart })
    else if ch = Byte.star then (none, { c with state := .narg, need := 0 })
    else if ch = 0 then (some .startNull, { c with len := 0 })
    else (some .error, c)
  | .narg =>
    if Byte.isDigit ch then
      let need := c.need * 10 + Resp.digitNat ch
      (none, { c with need, state := if need = 0 then .nargZero else .narg })
    else if ch = Byte.cr then (none, { c with state := .nargCrlf })
    else if ch = Byte.sub then (none, { c with state := .nargNagOne })
    else (some .error, c)
  | .nargZero => if ch = Byte.cr then (none, { c with state := .nargCrlf }) else (some .error, c)
  | .nargNagOne => if ch = Byte.one then (none, { c with state := .nargZero }) else (some .error, c)
  | .nargCrlf =>
    if ch = Byte.lf then
      if c.need = 0 then c.endArray else (none, { c with state := .readingLine })
    else (some .error, c)
  | .readingLine =>
    if ch = Byte.plus then (none, { c with state := .str, kind := .text })
    else if ch = Byte.sub then (none, { c with state := .str, kind := .text })
    else if ch = Byte.colon then (none, { c with state := .str, kind := .numStart })
    else if ch = Byte.usd then (none, { c with state := .usdNum, arg := 0, kind := .numStart })
    else if ch = Byte.star then
      (none, { c with state := .narg, need := 0, arg := 0, outer := c.need :: c.outer })
    else (some .error, c)
  | .str =>
    if ch = Byte.cr then (none, { c with state := .strCrlf }) else (none, { c with kind := nextKind ch c.kind })
  | .strCrlf => if ch = Byte.lf then c.endLine c.need c.outer else (some .error, c)
  | .usdNum =>
    if Byte.isDigit ch then (none, { c with arg := c.arg * 10 + Resp.digitNat ch, kind := .numDigits })
    else if ch = Byte.cr then (none, { c with state := .usdNumCrlf })
    else if ch = Byte.sub then
      if c.arg = 0 then (none, { c with state := .usdEmpty }) else (some .error, c)
    else (some .error, c)
  | .usdNumCrlf => if ch = Byte.lf then (none, { c with state := .usdStr }) else (none, c)
  | .usdStr =>
    if c.arg = 0 then
      if ch = Byte.cr then (none, { c with state := .strCrlf }) else (some .error, c)
    else (none, { c with arg := c.arg - 1 })
  | .usdEmpty => if ch = Byte.one then (none, { c with state := .usdEmptyOne }) else (some .error, c)
  | .usdEmptyOne => if ch = Byte.cr then (none, { c with state := .strCrlf }) else (some .error, c)
  | .usdZero => if ch = Byte.cr then (none, { c with state := .strCrlf }) else (some .error, c)
  | .inNextLayer | .msgEnd => (some .error, c)

/-- One byte. -/
def step (ch : UInt8) (c : Scan) : Option ParseRet × Scan := read ch { c with len := c.len + 1 }

/-- The number that the byte continues stays in the range of an `int`, and so does the length. -/
def Fit (ch : UInt8) (c : Scan) : Prop :=
  c.len + 1 < 2 ^ 31 ∧
    (c.state = .usdNum → Byte.isDigit ch = true → c.arg * 10 + Resp.digitNat ch < 2 ^ 31) ∧
    (c.state = .narg → Byte.isDigit ch = true → c.need * 10 + Resp.digitNat ch < 2 ^ 31)

instance (ch : UInt8) (c : Scan) : Decidable (Fit ch c) := inferInstanceAs (Decidable (_ ∧ _))

/-- The byte is skipped: a line feed is missing after the length of a bulk string. -/
def Skips (ch : UInt8) (c : Scan) : Prop := c.state = .usdNumCrlf ∧ ch ≠ Byte.lf

instance (ch : UInt8) (c : Scan) : Decidable (Skips ch c) := inferInstanceAs (Decidable (_ ∧ _))

/-- The bytes that the parser takes where RESP does not allow them. -/
def Lax (ch : UInt8) (c : Scan) : Prop :=
  match c.state with
  | .narg => (ch = Byte.cr ∧ c.need = 0) ∨ (ch = Byte.sub ∧ c.need ≠ 0)
  | .str =>
    match c.kind with
    | .inline => False
    | .text => ch = Byte.lf
    | .numStart => ¬ (Byte.isDigit ch = true ∨ ch = Byte.plus ∨ ch = Byte.sub)
    | .numSign => ¬ Byte.isDigit ch = true
    | .numDigits => ¬ (Byte.isDigit ch = true ∨ ch = Byte.cr)
  | .usdNum => (ch = Byte.cr ∧ c.kind ≠ .numDigits) ∨ (ch = Byte.sub ∧ c.kind = .numDigits)
  | .usdNumCrlf => ch ≠ Byte.lf
  | _ => False

instance (ch : UInt8) (c : Scan) : Decidable (Lax ch c) := by
  unfold Lax
  split <;> (try split) <;> infer_instance

end Scan

/-- The lines that the enclosing arrays need, innermost first. -/
def Layer.needs (m : Layer) : List Layer → List Int
  | [] => []
  | l :: next => if m.nowState = .inNextLayer then l.needs next ++ [m.iNeedArgNum] else []

namespace Scan

/-- What holds in every state of the reader. -/
structure Fine (c : Scan) : Prop where
  need : Layer.inLine c.state = true → 0 < c.need
  max : c.need < 2 ^ 31
  outer : ∀ n ∈ c.outer, 0 < n ∧ n < 2 ^ 31
  start : c.state = .start → c.len = 0

/-- The reader counts the bytes of a bulk string. -/
def inBulk : MsgState → Bool
  | .usdNum | .usdNumCrlf | .usdStr => true
  | _ => false

end Scan

/-- The parser is in the state `c` of the reader. -/
structure Follows (m : Layer) (next : List Layer) (c : Scan) : Prop where
  fine : c.Fine
  state : (m.active next).nowState = c.state
  need : c.state ≠ .start → (m.active next).iNeedArgNum = c.need
  arg : Scan.inBulk c.state = true → (m.active next).iArgLen = c.arg
  outer : m.needs next = c.outer.map (fun (n : Nat) => (n : Int))
  len : m.size next = c.len

end RedisProxy
