import RedisProxy.ParseByte

/-!
# `GR_Hash::Jenkins`

The hash reads a key in words of 32 bits, in words of 16 bits or byte by byte, depending on the address at which the key
lies. The machine is little-endian. Memory is a function from addresses to bytes.
-/

namespace RedisProxy

/-- The variables `a`, `b` and `c`. -/
structure Jenkins where
  a : UInt32
  b : UInt32
  c : UInt32
deriving DecidableEq, Repr

namespace Jenkins

def rot (x k : UInt32) : UInt32 := x <<< k ||| x >>> (32 - k)

/-- The macro `mix`. -/
def mix (s : Jenkins) : Jenkins :=
  let ⟨a, b, c⟩ := s
  let a := a - c; let a := a ^^^ rot c 4; let c := c + b
  let b := b - a; let b := b ^^^ rot a 6; let a := a + c
  let c := c - b; let c := c ^^^ rot b 8; let b := b + a
  let a := a - c; let a := a ^^^ rot c 16; let c := c + b
  let b := b - a; let b := b ^^^ rot a 19; let a := a + c
  let c := c - b; let c := c ^^^ rot b 4; let b := b + a
  ⟨a, b, c⟩

/-- The macro `final`. -/
def final (s : Jenkins) : Jenkins :=
  let ⟨a, b, c⟩ := s
  let c := c ^^^ b; let c := c - rot b 14
  let a := a ^^^ c; let a := a - rot c 11
  let b := b ^^^ a; let b := b - rot a 25
  let c := c ^^^ b; let c := c - rot b 16
  let a := a ^^^ c; let a := a - rot c 4
  let b := b ^^^ a; let b := b - rot a 14
  let c := c ^^^ b; let c := c - rot b 24
  ⟨a, b, c⟩

/-- A read through a pointer to `uint8`. -/
def load8 (rd : Int → UInt8) (k : Int) : UInt32 := (rd k).toUInt32

/-- A read through a pointer to `uint16`. -/
def load16 (rd : Int → UInt8) (k : Int) : UInt32 := UInt32.ofNat ((rd k).toNat + (rd (k + 1)).toNat * 2 ^ 8)

/-- A read through a pointer to `uint32`. -/
def load32 (rd : Int → UInt8) (k : Int) : UInt32 :=
  UInt32.ofNat ((rd k).toNat + (rd (k + 1)).toNat * 2 ^ 8 + (rd (k + 2)).toNat * 2 ^ 16 + (rd (k + 3)).toNat * 2 ^ 24)

/-- The loop `while (iKeyLen > 12)`: where it stops, the rest of the length, and the variables. `add x k` is how four
bytes at `k` are added to one of the variables. -/
def blocks (add : UInt32 → Int → UInt32) (k : Int) (iKeyLen : Nat) (s : Jenkins) : Int × Nat × Jenkins :=
  if 12 < iKeyLen then
    blocks add (k + 12) (iKeyLen - 12) (mix ⟨add s.a k, add s.b (k + 4), add s.c (k + 8)⟩)
  else (k, iKeyLen, s)
termination_by iKeyLen
decreasing_by omega

section Paths

variable (rd : Int → UInt8)

/-- Four bytes, as the path for an address that is a multiple of 4 adds them. -/
def add32 (x : UInt32) (k : Int) : UInt32 := x + load32 rd k

/-- Four bytes, as the path for an even address adds them. -/
def add16 (x : UInt32) (k : Int) : UInt32 := x + (load16 rd k + load16 rd (k + 2) <<< 16)

/-- Four bytes, as the path for an odd address adds them. -/
def add8 (x : UInt32) (k : Int) : UInt32 :=
  let x := x + load8 rd k
  let x := x + load8 rd (k + 1) <<< 8
  let x := x + load8 rd (k + 2) <<< 16
  x + load8 rd (k + 3) <<< 24

/-- The switch for an address that is a multiple of 4; `none` stands for `return c`. -/
def tail32 (k : Int) (iKeyLen : Nat) (s : Jenkins) : Option Jenkins :=
  let ⟨a, b, c⟩ := s
  match iKeyLen with
  | 12 => some ⟨a + load32 rd k, b + load32 rd (k + 4), c + load32 rd (k + 8)⟩
  | 11 => some ⟨a + load32 rd k, b + load32 rd (k + 4), c + (load32 rd (k + 8) &&& 0xffffff)⟩
  | 10 => some ⟨a + load32 rd k, b + load32 rd (k + 4), c + (load32 rd (k + 8) &&& 0xffff)⟩
  | 9 => some ⟨a + load32 rd k, b + load32 rd (k + 4), c + (load32 rd (k + 8) &&& 0xff)⟩
  | 8 => some ⟨a + load32 rd k, b + load32 rd (k + 4), c⟩
  | 7 => some ⟨a + load32 rd k, b + (load32 rd (k + 4) &&& 0xffffff), c⟩
  | 6 => some ⟨a + load32 rd k, b + (load32 rd (k + 4) &&& 0xffff), c⟩
  | 5 => some ⟨a + load32 rd k, b + (load32 rd (k + 4) &&& 0xff), c⟩
  | 4 => some ⟨a + load32 rd k, b, c⟩
  | 3 => some ⟨a + (load32 rd k &&& 0xffffff), b, c⟩
  | 2 => some ⟨a + (load32 rd k &&& 0xffff), b, c⟩
  | 1 => some ⟨a + (load32 rd k &&& 0xff), b, c⟩
  | _ => none

/-- The switch for an even address. The cases 11, 9, 7, 5 and 3 fall through to the next one. -/
def tail16 (k : Int) (iKeyLen : Nat) (s : Jenkins) : Option Jenkins :=
  let ⟨a, b, c⟩ := s
  match iKeyLen with
  | 12 => some ⟨add16 rd a k, add16 rd b (k + 4), add16 rd c (k + 8)⟩
  | 11 => some ⟨add16 rd a k, add16 rd b (k + 4), c + load8 rd (k + 10) <<< 16 + load16 rd (k + 8)⟩
  | 10 => some ⟨add16 rd a k, add16 rd b (k + 4), c + load16 rd (k + 8)⟩
  | 9 => some ⟨add16 rd a k, add16 rd b (k + 4), c + load8 rd (k + 8)⟩
  | 8 => some ⟨add16 rd a k, add16 rd b (k + 4), c⟩
  | 7 => some ⟨add16 rd a k, b + load8 rd (k + 6) <<< 16 + load16 rd (k + 4), c⟩
  | 6 => some ⟨add16 rd a k, b + load16 rd (k + 4), c⟩
  | 5 => some ⟨add16 rd a k, b + load8 rd (k + 4), c⟩
  | 4 => some ⟨add16 rd a k, b, c⟩
  | 3 => some ⟨a + load8 rd (k + 2) <<< 16 + load16 rd k, b, c⟩
  | 2 => some ⟨a + load16 rd k, b, c⟩
  | 1 => some ⟨a + load8 rd k, b, c⟩
  | _ => none

/-- The switch for an odd address, in which every case falls through: the statements from the case on. -/
def tail8 (k : Int) (iKeyLen : Nat) (s : Jenkins) : Option Jenkins :=
  let ⟨a, b, c⟩ := s
  if iKeyLen = 0 ∨ 12 < iKeyLen then none
  else
    let c := if 12 ≤ iKeyLen then c + load8 rd (k + 11) <<< 24 else c
    let c := if 11 ≤ iKeyLen then c + load8 rd (k + 10) <<< 16 else c
    let c := if 10 ≤ iKeyLen then c + load8 rd (k + 9) <<< 8 else c
    let c := if 9 ≤ iKeyLen then c + load8 rd (k + 8) else c
    let b := if 8 ≤ iKeyLen then b + load8 rd (k + 7) <<< 24 else b
    let b := if 7 ≤ iKeyLen then b + load8 rd (k + 6) <<< 16 else b
    let b := if 6 ≤ iKeyLen then b + load8 rd (k + 5) <<< 8 else b
    let b := if 5 ≤ iKeyLen then b + load8 rd (k + 4) else b
    let a := if 4 ≤ iKeyLen then a + load8 rd (k + 3) <<< 24 else a
    let a := if 3 ≤ iKeyLen then a + load8 rd (k + 2) <<< 16 else a
    let a := if 2 ≤ iKeyLen then a + load8 rd (k + 1) <<< 8 else a
    let a := if 1 ≤ iKeyLen then a + load8 rd k else a
    some ⟨a, b, c⟩

/-- The internal state at the start. -/
def start (iKeyLen : Nat) : Jenkins :=
  let x := 0xdeadbeef + UInt32.ofNat iKeyLen + 13
  ⟨x, x, x⟩

/-- One path: the loop, the switch and `final`. -/
def path (add : UInt32 → Int → UInt32) (tail : Int → Nat → Jenkins → Option Jenkins) (szKey : Int) (iKeyLen : Nat) : UInt32 :=
  let (k, rest, s) := blocks add szKey iKeyLen (start iKeyLen)
  match tail k rest s with
  | some s => s.final.c
  | none => s.c

def path32 : Int → Nat → UInt32 := path (add32 rd) (tail32 rd)

def path16 : Int → Nat → UInt32 := path (add16 rd) (tail16 rd)

def path8 : Int → Nat → UInt32 := path (add8 rd) (tail8 rd)

end Paths

end Jenkins

/-- `GR_Hash::Jenkins` of the `iKeyLen` bytes at `szKey`. -/
def jenkins (rd : Int → UInt8) (szKey : Int) (iKeyLen : Nat) : UInt32 :=
  if szKey % 4 = 0 then Jenkins.path32 rd szKey iKeyLen
  else if szKey % 2 = 0 then Jenkins.path16 rd szKey iKeyLen
  else Jenkins.path8 rd szKey iKeyLen

end RedisProxy
