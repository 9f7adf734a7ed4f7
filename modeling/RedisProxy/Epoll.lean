import RedisProxy.Event
import RedisProxy.Lib.Runs

/-!
# `GR_Epoll`: the registrations

`AddEvent` and `DelEvent`, and the macros with the same text, choose the operation of `epoll_ctl` from
the mask alone, and their callers ignore its result.
-/

namespace RedisProxy

/-- `m_iMask | iMask`. -/
def Mask.join (a b : Mask) : Mask := ⟨a.readable || b.readable, a.writable || b.writable⟩

/-- `m_iMask & (~iMask)`. -/
def Mask.without (a b : Mask) : Mask := ⟨a.readable && !b.readable, a.writable && !b.writable⟩

/-- `epoll_event`: the bits `EPOLLIN` and `EPOLLOUT`, and the event in `data.ptr`. -/
structure EpollData where
  epollin : Bool
  epollout : Bool
  ptr : Nat

/-- The operations of `epoll_ctl`. -/
inductive CtlOp
  | add | mod | del

/-- `m_iFD` and `m_iMask` of a `GR_Event`. -/
structure EpollEvent where
  iFD : Nat := 0
  iMask : Mask := .none

/-- The events by their address, and the interest list by descriptor. -/
structure Epoll where
  events : Nat → EpollEvent
  interest : Nat → Option EpollData

namespace Epoll

def init : Epoll := ⟨fun _ => {}, fun _ => none⟩

/-- `epoll_ctl`: a descriptor is added once, and only then modified or deleted. -/
def epollCtl (s : Epoll) (op : CtlOp) (fd : Nat) (ee : EpollData) : Epoll × Ret :=
  match op, s.interest fd with
  | .add, none | .mod, some _ => ({ s with interest := Function.update s.interest fd (some ee) }, .ok)
  | .del, some _ => ({ s with interest := Function.update s.interest fd none }, .ok)
  | _, _ => (s, .error)

def setEvent (s : Epoll) (c : Nat) (ev : EpollEvent) : Epoll :=
  { s with events := Function.update s.events c ev }

/-- `GR_Epoll::AddEvent`. A write interest asks for `EPOLLIN` as well. -/
def addEvent (s : Epoll) (c : Nat) (iMask : Mask) : Epoll × Ret :=
  let ev := s.events c
  if ev.iFD = 0 then (s, .ok)
  else
    let m := ev.iMask.join iMask
    (s.setEvent c { ev with iMask := m }).epollCtl (if ev.iMask = .none then .add else .mod) ev.iFD
      ⟨m.readable || m.writable, m.writable, c⟩

/-- `GR_Epoll::DelEvent`. -/
def delEvent (s : Epoll) (c : Nat) (iMask : Mask) : Epoll :=
  let ev := s.events c
  if ev.iFD = 0 then s
  else
    let m := ev.iMask.without iMask
    ((s.setEvent c { ev with iMask := m }).epollCtl (if m ≠ .none then .mod else .del) ev.iFD
      ⟨m.readable, m.writable, c⟩).1

/-- `GR_Event::Close`; the kernel drops a closed descriptor from the interest list. -/
def close (s : Epoll) (c : Nat) : Epoll :=
  let fd := (s.events c).iFD
  if fd = 0 then s
  else
    let s := s.delEvent c ⟨true, true⟩
    let s := { s with interest := Function.update s.interest fd none }
    s.setEvent c { s.events c with iFD := 0 }

/-- `accept` and `connect` give an event its descriptor. -/
inductive Label
  | connect (c fd : Nat)
  | add (c : Nat) (iMask : Mask)
  | del (c : Nat) (iMask : Mask)
  | close (c : Nat)

def step (s : Epoll) : Label → Option Epoll
  | .connect c fd => some (s.setEvent c { s.events c with iFD := fd })
  | .add c iMask => some (s.addEvent c iMask).1
  | .del c iMask => some (s.delEvent c iMask)
  | .close c => some (s.close c)

/-- The kernel gives a descriptor that is not open, to an event that has none (`ConnectToRedis` does
not check that); `AddEvent` is called with some interest. -/
def Proper (s : Epoll) : Label → Prop
  | .connect c fd => (s.events c).iFD = 0 ∧ fd ≠ 0 ∧ ∀ x, (s.events x).iFD ≠ fd
  | .add _ iMask => iMask ≠ .none
  | _ => True

end Epoll

end RedisProxy
