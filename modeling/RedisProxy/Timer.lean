import RedisProxy.Lib.DList
import RedisProxy.Lib.Runs

/-!
# `GR_Timer`

The timers that are in use and the free ones of a pool are two lists of `GR_TimerMeta`, which are linked by pointers within
the metas. When the pool is empty, `AddTimer` takes a new meta, which `DelTimer` deletes. `Loop` goes through the list of
the used timers and calls the callbacks of those that are due; a callback may add timers, finish timers and change the time
at which they are due.

A meta has an address: those of the pool are the numbers below `poolSize`, and each new meta gets the next number. The
fields `serial` and `once` of a meta and the `log` are only there for statements: every timer that is added gets a number
of its own, and the log says which timers were finished and which callbacks were called.
-/

namespace RedisProxy

open Lib

/-- `GR_TIMER_POOL_SIZE`. -/
def timerPoolSize : Nat := 0x3FFF

/-- `GR_EVENT_TT`. -/
def eventTT : Nat := 1000

/-- An `uint64`. -/
def uint64 (n : Nat) : Nat := n % 2 ^ 64

/-- `GR_TimerMeta`. `pCB` is the callback with its data. -/
structure TimerMeta (D : Type) where
  bReuse : Bool := false
  bPoolMeta : Bool := false
  bInUse : Bool := false
  ulMS : Nat := 0
  ulNextMS : Nat := 0
  pCB : Option D := none
  pPreMeta : Option Nat := none
  pNextMeta : Option Nat := none
  serial : Nat := 0
  once : Bool := false
deriving DecidableEq, Repr

/-- What happened to a timer: it was finished, or its callback was called. The second says whether the timer was one that
does not repeat, whether it was in use, when it was due and what the time was. -/
inductive TimerEvent
  | finished (serial : Nat)
  | fired (serial : Nat) (once bInUse : Bool) (ulNextMS ulNow : Nat)
deriving DecidableEq, Repr

/-- `GR_Timer`. -/
structure Timers (D : Type) where
  metas : Nat → TimerMeta D
  /-- The metas that exist. -/
  live : Nat → Bool
  pFreeMeta : Option Nat
  pUsingMeta : Option Nat
  /-- The address of the next new meta. -/
  newMeta : Nat
  nextSerial : Nat
  log : List TimerEvent

namespace Timers

variable {D : Type}

/-- `GR_Timer::GR_Timer`. -/
def init (D : Type) (poolSize : Nat) : Timers D where
  metas p :=
    { bPoolMeta := decide (p < poolSize)
      pPreMeta := if 0 < p ∧ p < poolSize then some (p - 1) else none
      pNextMeta := if p + 1 < poolSize then some (p + 1) else none }
  live p := decide (p < poolSize)
  pFreeMeta := some 0
  pUsingMeta := none
  newMeta := poolSize
  nextSerial := 0
  log := []

def setMeta (t : Timers D) (p : Nat) (f : TimerMeta D → TimerMeta D) : Timers D :=
  { t with metas := Function.update t.metas p (f (t.metas p)) }

/-- An assignment through a pointer, unless it is null. -/
def setMetaIf (t : Timers D) : Option Nat → (TimerMeta D → TimerMeta D) → Timers D
  | none, _ => t
  | some p, f => t.setMeta p f

/-- The meta that `AddTimer` takes: the first free one, or a new one. -/
def takeMeta (t : Timers D) : Nat × Timers D :=
  match t.pFreeMeta with
  | none =>
    (t.newMeta, { t with metas := Function.update t.metas t.newMeta {}, live := Function.update t.live t.newMeta true,
                         newMeta := t.newMeta + 1 })
  | some pMeta =>
    let t := { t with pFreeMeta := (t.metas pMeta).pNextMeta }
    (pMeta, t.setMetaIf t.pFreeMeta fun m => { m with pPreMeta := none })

/-- `GR_TimerMeta::Use`. -/
def use (t : Timers D) (pMeta : Nat) (pCB : D) (ulNow ulMS : Nat) (bReuse : Bool) : Timers D :=
  let t := t.setMeta pMeta fun m =>
    { m with pCB := some pCB, ulMS, ulNextMS := uint64 (ulNow + ulMS), bReuse, bInUse := true, serial := t.nextSerial,
             once := !bReuse }
  { t with nextSerial := t.nextSerial + 1 }

/-- A meta becomes the first one of the used list. -/
def linkUsing (t : Timers D) (pMeta : Nat) : Timers D :=
  let t := t.setMeta pMeta fun m => { m with pNextMeta := t.pUsingMeta, pPreMeta := none }
  let t := t.setMetaIf t.pUsingMeta fun m => { m with pPreMeta := some pMeta }
  { t with pUsingMeta := some pMeta }

/-- `AddTimer`; `ulNow` is the time that `CURRENT_MS` returns. -/
def addTimer (t : Timers D) (pCB : D) (ulNow ulMS : Nat) (bReuse : Bool) : Nat × Timers D :=
  let (pMeta, t) := t.takeMeta
  (pMeta, (t.use pMeta pCB ulNow ulMS bReuse).linkUsing pMeta)

/-- The first half of `DelTimer`: the meta leaves the used list. -/
def unlink (t : Timers D) (pMeta : Nat) : Timers D :=
  let t := t.setMeta pMeta fun m => { m with bInUse := false }
  let t := t.setMetaIf (t.metas pMeta).pPreMeta fun m => { m with pNextMeta := (t.metas pMeta).pNextMeta }
  let t := t.setMetaIf (t.metas pMeta).pNextMeta fun m => { m with pPreMeta := (t.metas pMeta).pPreMeta }
  if t.pUsingMeta = some pMeta then { t with pUsingMeta := (t.metas pMeta).pNextMeta } else t

/-- The second half of `DelTimer`: a meta of the pool becomes the first free one, another one is deleted. The link of the
meta to the next one is only set if there is a free meta. -/
def recycle (t : Timers D) (pMeta : Nat) : Timers D :=
  if (t.metas pMeta).bPoolMeta then
    let t := t.setMeta pMeta fun m => { m with pPreMeta := none }
    let t := if t.pFreeMeta = none then t else t.setMeta pMeta fun m => { m with pNextMeta := t.pFreeMeta }
    let t := t.setMetaIf t.pFreeMeta fun m => { m with pPreMeta := some pMeta }
    { t with pFreeMeta := some pMeta }
  else { t with live := Function.update t.live pMeta false }

/-- `DelTimer`. -/
def delTimer (t : Timers D) (pMeta : Nat) : Timers D := (t.unlink pMeta).recycle pMeta

/-- `GR_TimerMeta::Finish`. -/
def finish (t : Timers D) (pMeta : Nat) : Timers D :=
  let t := t.setMeta pMeta fun m => { m with bReuse := false, bInUse := false }
  { t with log := t.log ++ [.finished (t.metas pMeta).serial] }

/-- `SetTriggerMS`. -/
def setTriggerMS (t : Timers D) (pMeta ulMS : Nat) : Timers D := t.setMeta pMeta fun m => { m with ulNextMS := ulMS }

/-- `AddTriggerMS`. -/
def addTriggerMS (t : Timers D) (pMeta ulMS : Nat) : Timers D :=
  t.setMeta pMeta fun m => { m with ulNextMS := uint64 (m.ulNextMS + ulMS) }

end Timers

/-- What the program and its callbacks do with the timers. -/
inductive TimerAction (D : Type)
  | addTimer (pCB : D) (ulNow ulMS : Nat) (bReuse : Bool)
  | finish (pMeta : Nat)
  | setTriggerMS (pMeta ulMS : Nat)
  | addTriggerMS (pMeta ulMS : Nat)
deriving DecidableEq, Repr

namespace Timers

variable {D : Type}

/-- One action. There is no result for a meta that does not exist. -/
def act (t : Timers D) : TimerAction D → Option (Timers D)
  | .addTimer pCB ulNow ulMS bReuse => some (t.addTimer pCB ulNow ulMS bReuse).2
  | .finish pMeta => if t.live pMeta then some (t.finish pMeta) else none
  | .setTriggerMS pMeta ulMS => if t.live pMeta then some (t.setTriggerMS pMeta ulMS) else none
  | .addTriggerMS pMeta ulMS => if t.live pMeta then some (t.addTriggerMS pMeta ulMS) else none

/-- The actions of a callback. -/
def acts (t : Timers D) (actions : List (TimerAction D)) : Option (Timers D) := actions.foldlM act t

end Timers

/-- The variables of `Loop`. -/
structure TimerLoop where
  ulNow : Nat
  ulMix : Nat
  iTotal : Nat
  pMeta : Option Nat
deriving DecidableEq, Repr

/-- A `GR_Timer` with the call of `Loop` that runs, if there is one. -/
structure TimerRun (D : Type) extends Timers D where
  loop : Option TimerLoop

/-- What happens next: an action outside of `Loop`, a call of `Loop`, or a round of its loop; if the round calls a callback,
`actions` is what the callback does. -/
inductive TimerLabel (D : Type)
  | act (action : TimerAction D)
  | loop (ulNow : Nat)
  | round (actions : List (TimerAction D))
deriving DecidableEq, Repr

namespace TimerRun

variable {D : Type}

/-- A round for a meta that is no longer in use. -/
def drop (t : Timers D) (l : TimerLoop) (pMeta : Nat) : TimerRun D :=
  { t.delTimer pMeta with loop := some { l with pMeta := (t.metas pMeta).pNextMeta } }

/-- A round for a meta that is not due. -/
def skip (t : Timers D) (l : TimerLoop) (pMeta : Nat) : TimerRun D :=
  let m := t.metas pMeta
  { t with loop := some { l with ulMix := if m.ulNextMS < l.ulMix then m.ulNextMS else l.ulMix, pMeta := m.pNextMeta } }

/-- The call of a callback is noted. -/
def fire (t : Timers D) (l : TimerLoop) (pMeta : Nat) : Timers D :=
  let m := t.metas pMeta
  { t with log := t.log ++ [TimerEvent.fired m.serial m.once m.bInUse m.ulNextMS l.ulNow] }

/-- The rest of a round after the callback of the meta. -/
def fired (t : Timers D) (l : TimerLoop) (pMeta : Nat) : TimerRun D :=
  let m := t.metas pMeta
  if m.bReuse then
    let ulNextMS := uint64 (l.ulNow + m.ulMS)
    { t.setTriggerMS pMeta ulNextMS with
      loop := some { l with ulMix := if ulNextMS < l.ulMix then ulNextMS else l.ulMix, iTotal := l.iTotal + 1,
                            pMeta := m.pNextMeta } }
  else { t.delTimer pMeta with loop := some { l with iTotal := l.iTotal + 1, pMeta := m.pNextMeta } }

/-- One round of the loop of `Loop` with the meta `pMeta`. A meta in use has a callback, or `ASSERT` fails. -/
def round (t : Timers D) (l : TimerLoop) (pMeta : Nat) (actions : List (TimerAction D)) : Option (TimerRun D) :=
  let m := t.metas pMeta
  if !m.bInUse then some (drop t l pMeta)
  else if m.ulNextMS ≤ l.ulNow then
    if m.pCB.isNone then none else ((fire t l pMeta).acts actions).map fun t => fired t l pMeta
  else some (skip t l pMeta)

/-- The loop of `Loop` goes on with this meta. -/
def current (l : TimerLoop) : Option Nat := if l.iTotal < 10 then l.pMeta else none

/-- One step. A round in which the loop does not go on is the return from `Loop`. -/
def step (s : TimerRun D) : TimerLabel D → Option (TimerRun D)
  | .act action =>
    match s.loop with
    | none => (s.toTimers.act action).map fun t => { t with loop := none }
    | some _ => none
  | .loop ulNow =>
    match s.loop with
    | none => some { s with loop := some ⟨ulNow, uint64 (ulNow + eventTT), 0, s.pUsingMeta⟩ }
    | some _ => none
  | .round actions =>
    match s.loop with
    | none => none
    | some l =>
      match current l with
      | none => some { s with loop := none }
      | some pMeta => round s.toTimers l pMeta actions

/-- No timer has been added yet. -/
def init (D : Type) (poolSize : Nat) : TimerRun D := { Timers.init D poolSize with loop := none }

end TimerRun

end RedisProxy
