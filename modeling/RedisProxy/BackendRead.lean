import RedisProxy.ClientRead

/-!
# `GR_RedisEvent::Read`

How the replies of one server are read. `ProcessMsg` takes a reply from the front of the cache and the oldest request from
the wait ring; the block of the reply is given to that request, or back to the pool if the reply is a redirection. A reply
that the parser refuses, a null byte before a reply and a reply without a request end the process.

As for the clients, each call of `read` is a step and so is each move of the bytes. A redirected request may be sent to the
same server again: how many entries the handling of a reply adds to the wait ring is part of the step.
-/

namespace RedisProxy

/-- One connection to a server, as far as reading goes. -/
structure BackendRead extends Reader where
  /-- The number of entries of `m_pWaitRing`. -/
  ring : Nat
  status : ReadStatus
  phase : ReadPhase
  /-- The `m_sUsedSize` bytes of each reply. -/
  replies : List (List UInt8)
  /-- What `read` has returned since the connection was made. -/
  received : List UInt8

namespace BackendRead

/-- `Init`, with the first block at `uszData`. -/
def init (mem : Int → UInt8) (uszData : Int) : BackendRead where
  toReader := .init mem uszData
  ring := 0
  status := .opened
  phase := .idle
  replies := []
  received := []

/-- The part of `ProcessMsg` from the end of a reply to `StartNext`. The request is popped from the wait ring, and `iAdded`
entries are added to it. -/
def take (s : BackendRead) (iAdded : Nat) : BackendRead :=
  { s with
    ring := s.ring - 1 + iAdded
    replies := s.replies ++ [bytesAt s.mem s.readCache.pData.uszData s.readMsg.this.iLen.toNat] }

/-- `ProcessMsg`, in at most `n` rounds of its loop; `hints` are for the blocks that `StartNext` gets. -/
def processMsg : Nat → List Int → List Nat → BackendRead → Option BackendRead
  | 0, _, _, _ => none
  | n + 1, hints, added, s =>
    match s.readMsg.parseRsp s.mem with
    | none => none
    | some (.ok, readMsg) =>
      if readMsg.this.nowState = .msgEnd then
        if s.ring = 0 then some { s with readMsg, status := .aborted }
        else do
          let s := take { s with readMsg } (added.headD 0)
          let reader ← s.toReader.startNext (hints.headD 0)
          processMsg n hints.tail added.tail { s with toReader := reader }
      else some { s with readMsg }
    | some (_, readMsg) => some { s with readMsg, status := .aborted }

/-- The bytes `bs` have been read. -/
def receive (s : BackendRead) (bs : List UInt8) : BackendRead :=
  { s with toReader := s.toReader.receive bs, received := s.received ++ bs }

/-- `Close`: each request of the wait ring gets an error. -/
def close (s : BackendRead) : BackendRead := { s with ring := 0, phase := .idle, status := .closed }

/-- One round of the loop of `Read`, up to the moving of the bytes. -/
def recv (s : BackendRead) (iMaxMsgRead : Int) (hints : List Int) (added : List Nat) : ReadRet → Option BackendRead
  | .eintr => some s
  | .eagain => some { s with phase := .idle }
  | .failed => some s.close
  | .data bs =>
    let bs := bs.take s.iLeft.toNat
    if bs = [] then some s.close
    else do
      let s' ← processMsg (s.receive bs).readMsg.calls hints added (s.receive bs)
      if s'.status = .aborted ∨ bs.length < s.iLeft then return { s' with phase := .idle }
      else return { s' with phase := .moving (iMaxMsgRead - (s'.replies.length - s.replies.length)) }

/-- The rest of the loop of `Read`: the block is full. -/
def move (s : BackendRead) (iMaxMsgRead hint : Int) : Option BackendRead := do
  let sCapacity := s.readCache.pData.sCapacity
  let iAtLeast := int32 (s.readMsg.this.iMaxLen + 256)
  let left := s.readCache.leftCapcity
  let r ←
    if iAtLeast < 0 ∨ sCapacity < iAtLeast then s.readCache.expand s.mem hint iAtLeast
    else if 0 ≤ left ∧ left < ((sCapacity / 2 : Nat) : Int) then s.readCache.expand s.mem hint 0
    else some (s.readCache.resetBuffer s.mem)
  return { s with toReader := s.toReader.moved r, phase := if 0 < iMaxMsgRead then .reading iMaxMsgRead else .idle }

/-- `ReInit`, when the server is connected again: the cache and the parser are those of an empty block. -/
def reInit (s : BackendRead) : BackendRead where
  mem := s.mem
  readCache := .init s.readCache.pData
  readMsg := .init s.readCache.pData.uszData
  ring := 0
  status := .opened
  phase := .idle
  replies := []
  received := []

/-- The steps: `Read` is called, a call of `read` in it, the bytes are moved, other code of the process runs and writes to
memory, `k` requests are sent to the server, and the server is connected again. -/
inductive Label
  | enter
  | recv (ret : ReadRet) (hints : List Int) (added : List Nat)
  | move (hint : Int)
  | others (mem : Int → UInt8)
  | sent (k : Nat)
  | reInit

/-- A step. Other code only runs while `Read` does not, and does not write to the block of the cache. -/
def step (s : BackendRead) : Label → Option BackendRead
  | .enter => if s.status = .opened ∧ s.phase = .idle then some { s with phase := .reading 1000 } else some s
  | .recv ret hints added =>
    match s.phase with
    | .reading iMaxMsgRead => s.recv iMaxMsgRead hints added ret
    | _ => some s
  | .move hint =>
    match s.phase with
    | .moving iMaxMsgRead => s.move iMaxMsgRead hint
    | _ => some s
  | .others mem =>
    if s.phase = .idle then some { s with mem := fun a => if s.readCache.pData.has a then s.mem a else mem a } else some s
  | .sent k => if s.status = .opened ∧ s.phase = .idle then some { s with ring := s.ring + k } else some s
  | .reInit => if s.status = .closed then some s.reInit else some s

/-! ## Conditions on the steps -/

/-- `Read` moves the bytes with `Expand`. -/
def expands (s : BackendRead) : Prop :=
  let sCapacity := s.readCache.pData.sCapacity
  let iAtLeast := int32 (s.readMsg.this.iMaxLen + 256)
  let left := s.readCache.leftCapcity
  (iAtLeast < 0 ∨ sCapacity < iAtLeast) ∨ (0 ≤ left ∧ left < ((sCapacity / 2 : Nat) : Int))

instance (s : BackendRead) : Decidable s.expands := inferInstanceAs (Decidable (_ ∨ _))

/-- The numbers that the server has sent are in range, and a block that is expanded has less than 2 ^ 29 bytes. -/
def Orderly (s : BackendRead) : Label → Prop
  | .recv (.data bs) _ _ => Scan.Ranged (s.received ++ bs.take s.iLeft.toNat)
  | .move _ => s.expands → s.readCache.pData.sCapacity < 2 ^ 29
  | _ => True

instance (s : BackendRead) (l : Label) : Decidable (s.Orderly l) := by
  unfold Orderly
  split <;> infer_instance

/-- The parser finds no mistake in what the server has sent and no null byte before a reply, and each reply has a request
in the wait ring. -/
def Answers (s : BackendRead) : Label → Prop
  | .recv (.data bs) _ _ =>
    let bs := bs.take s.iLeft.toNat
    Scan.Clear (s.received ++ bs) ∧ Scan.Faultless (s.received ++ bs) ∧
      Scan.messages (s.content ++ bs) Scan.init ≤ s.ring
  | _ => True

instance (s : BackendRead) (l : Label) : Decidable (s.Answers l) := by
  unfold Answers
  split <;> infer_instance

end BackendRead

end RedisProxy
