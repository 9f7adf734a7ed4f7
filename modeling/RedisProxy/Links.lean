import RedisProxy.Proxy

/-!
# The connections to the backends

An abstract model of the backends and their reconnect timers alone: what a step of the proxy can do to
them, whatever clients, identities and memory do. The proxy is shown to follow it.
-/

namespace RedisProxy

/-- The backends and their timers. -/
structure Links where
  backends : Nat → Backend
  nBackends : Nat
  timers : List Timer

/-- The links of a proxy. -/
def Proxy.links (w : Proxy) : Links := ⟨w.backends, w.nBackends, w.timers⟩

/-- The status of a connection that takes requests. -/
def ConnectStatus.Live (s : ConnectStatus) : Prop := s = .connecting ∨ s = .connected

namespace Links

variable (l : Links)

def set (b : Nat) (x : Backend) : Links := { l with backends := Function.update l.backends b x }

end Links

namespace Backend

/-- The command `m` waits in the backend. -/
def push (x : Backend) (ev : RedisEvent) (isSelect : Bool) (m : Msg) (tag : Nat) : Backend :=
  { x with ev, cmds := x.cmds ++ [⟨isSelect, m.bytes⟩], tags := x.tags ++ [tag] }

/-- `ConnectResult` finds that the connection is established. -/
def online (x : Backend) : RedisEvent :=
  { x.ev with status := .connected, ulMaxTryConnect := 0, mask := x.ev.mask.addRead x.ev.iFD }

/-- `Close` leaves a backend without descriptor and without requests. -/
structure Closed (x y : Backend) : Prop where
  fd : y.ev.iFD = 0
  status : y.ev.status = .closed
  ring : y.ev.waitRing.toList = []
  cmds : y.cmds = x.cmds
  sock : y.sock = x.sock
  past : y.past = x.past
  reInits : y.reInits = x.reInits
  times : y.lConnectSuccessTimes = x.lConnectSuccessTimes ∨ y.lConnectSuccessTimes = 0

/-- The event with which `ReConnect` tries again. -/
def again (x : Backend) (ulNextTry : Nat) : RedisEvent :=
  { x.ev with ulMaxTryConnect := x.ev.ulMaxTryConnect + 1, ulNextTry }.reInit

/-- `ReConnect` runs `ReInit`. -/
def wipe (x : Backend) (ulNextTry : Nat) : Backend :=
  { x with ev := x.again ulNextTry, tags := [], reInits := x.reInits ++ [x.ev.status] }

/-- A new epoch, with the event `ev`. -/
def renew (x : Backend) (ev : RedisEvent) : Backend :=
  { x with ev, sock := ⟨[], []⟩, cmds := [], past := x.past ++ [⟨x.cmds, x.sock.sent⟩] }

/-- A backend that has just been added. -/
structure Fresh (x : Backend) : Prop where
  ring : x.ev.waitRing.toList = []
  readIdx : x.ev.lCiovReadIdx = 0
  writeIdx : x.ev.lCiovWriteIdx = 0
  cmds : x.cmds = []
  sent : x.sock.sent = []
  past : ∀ e ∈ x.past, e = ⟨[], []⟩
  reInits : x.reInits = []
  times : x.lConnectSuccessTimes = 0
  status : x.ev.status ≠ .connected

end Backend

/-- The connections that `ConnectToRedis` opens: in progress, or established at once. -/
inductive Opens (ev : RedisEvent) : RedisEvent → Prop
  | inProgress (n : Nat) : Opens ev (ev.connectInProgress (n + 1))
  | connected (n : Nat) : Opens ev { ev with iFD := n + 1, mask := ev.mask.addRW (n + 1) }

/-- `ReConnect` of the backend `b`, by the timer `pMeta` or without one. `only` says that a timer which
opens a connection to a plain server is the only one of its backend. -/
inductive ReConnects (mode : RouteMode) (only : Prop) (l : Links) (b : Nat) (pMeta : Option Nat) : Links → Prop
  /-- It is too early. -/
  | later {ts : List Timer} (ht : ∀ t ∈ ts, t.server = b) (hlen : ts.length ≤ if pMeta = none then 1 else 0) :
      ReConnects mode only l b pMeta { l with timers := ts ++ l.timers }
  /-- There is no socket. -/
  | retry {ulNextTry : Nat} {ts : List Timer} (ht : ∀ t ∈ ts, t.server = b)
      (hlen : ts.length ≤ if pMeta = none then 1 else 0) :
      ReConnects mode only l b pMeta { l.set b ((l.backends b).wipe ulNextTry) with timers := ts ++ l.timers }
  | opens {ulNextTry : Nat} {ev : RedisEvent} (hev : Opens ((l.backends b).again ulNextTry) ev)
      (hone : only → mode = .twem → pMeta ≠ none → ∀ t ∈ l.timers, t.server = b → pMeta = some t.idx) :
      ReConnects mode only l b pMeta { l.set b (((l.backends b).wipe ulNextTry).renew ev) with
        timers := l.timers.filter fun t => pMeta ≠ some t.idx }
  /-- The connection is refused at once. -/
  | refused {ulNextTry : Nat} {ts : List Timer} {y : Backend}
      (hy : Backend.Closed (((l.backends b).wipe ulNextTry).renew y.ev) y) (ht : ∀ t ∈ ts, t.server = b)
      (hlen : mode = .tiny → ts.length ≤ if pMeta = none then 1 else 0) :
      ReConnects mode only l b pMeta { l.set b y with timers := ts ++ l.timers }

/-- The steps of the links. `calm` says that no request is queued while a tiny backend connects. -/
inductive LinkStep (cfg : Config) (calm only : Prop) (l : Links) : Links → Prop
  /-- A request is queued. -/
  | push {b p tag : Nat} {m : Msg} {isSelect : Bool} {ev : RedisEvent} (hst : (l.backends b).ev.status.Live)
      (hcalm : calm → cfg.mode = .tiny → (l.backends b).ev.status = .connected)
      (hq : (l.backends b).ev.sendMsg m p = some (.queued ev)) :
      LinkStep cfg calm only l (l.set b ((l.backends b).push ev isSelect m tag))
  | online {b : Nat} (hst : (l.backends b).ev.status = .connecting)
      (ht : ¬(cfg.mode = .tiny ∧ (l.backends b).lConnectSuccessTimes = 0)) :
      LinkStep cfg calm only l (l.set b { l.backends b with ev := (l.backends b).online })
  /-- A tiny backend is connected and sends `SELECT`. -/
  | select {b p tag : Nat} {ev : RedisEvent} (hst : (l.backends b).ev.status = .connecting)
      (hq : (l.backends b).online.sendMsg (selectCmd (cfg.iDB b)) p = some (.queued ev)) :
      LinkStep cfg calm only l (l.set b ((l.backends b).push ev true (selectCmd (cfg.iDB b)) tag))
  /-- A reply, after which a tiny backend may have selected its database. -/
  | pop {b p n : Nat} {ev : RedisEvent} {tags : List Nat} (hp : (l.backends b).ev.popIdenty = some (p, ev))
      (hn : n = (l.backends b).lConnectSuccessTimes ∨ n = 1) :
      LinkStep cfg calm only l (l.set b { l.backends b with ev, tags, lConnectSuccessTimes := n })
  | write {b : Nat} {script : List WritevRet} {iRet : Ret} {ev : RedisEvent} {sock : Socket}
      (hfd : (l.backends b).ev.iFD ≠ 0)
      (hw : (l.backends b).ev.writeQueue { (l.backends b).sock with script } = some (iRet, ev, sock)) :
      LinkStep cfg calm only l (l.set b { l.backends b with ev, sock })
  | cache {b pCache : Nat} : LinkStep cfg calm only l (l.set b { l.backends b with pCache })
  | close {b : Nat} {y : Backend} (hfd : (l.backends b).ev.iFD ≠ 0) (hy : Backend.Closed (l.backends b) y) :
      LinkStep cfg calm only l (l.set b y)
  /-- `Close` with a reconnection. -/
  | restart {b : Nat} {y : Backend} {l' : Links} (hfd : (l.backends b).ev.iFD ≠ 0)
      (hy : Backend.Closed (l.backends b) y) (hmode : cfg.mode ≠ .cluster)
      (htimes : cfg.mode = .tiny → y.lConnectSuccessTimes = 0)
      (hr : ReConnects cfg.mode only (l.set b y) b none l') : LinkStep cfg calm only l l'
  /-- `GR_RedisEventReconnectCB`. -/
  | timer {t : Timer} {l' : Links} (ht : t ∈ l.timers)
      (hr : ReConnects cfg.mode only l t.server (some t.idx) l') : LinkStep cfg calm only l l'
  /-- The triggers of timers change. -/
  | retime {f : Timer → Timer} (hf : ∀ t, (f t).idx = t.idx ∧ (f t).server = t.server) :
      LinkStep cfg calm only l { l with timers := l.timers.map f }
  | add {x : Backend} (hx : x.Fresh) :
      LinkStep cfg calm only l { l.set l.nBackends x with nBackends := l.nBackends + 1 }

/-- Any number of steps. -/
abbrev LinkSteps (cfg : Config) (calm only : Prop) : Links → Links → Prop :=
  Relation.ReflTransGen (LinkStep cfg calm only)

end RedisProxy
