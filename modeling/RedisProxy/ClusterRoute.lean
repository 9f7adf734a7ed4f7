import RedisProxy.Proxy

/-!
# The servers of `GR_ClusterRoute`

The route knows its servers from three sides: the array `m_vServers`, the map `m_mapServers` from their
addresses, and the array `m_vRedisSlot` from the slots of the cluster. Servers and events are known by
their addresses in memory, which are numbers here. `none` stands for a process that has ended, or that
has used an object after its deletion.
-/

namespace RedisProxy

/-- `CLUSTER_SLOTS`. -/
def clusterSlots : Nat := 16384

/-- The IPv4 address `s_addr` and the port of a server. -/
structure Addr where
  sAddr : UInt32
  usPort : UInt16
  valid : sAddr ≠ 0 ∨ usPort ≠ 0
deriving DecidableEq

/-- `AddrToLong`. -/
def addrToLong (addr : Addr) : UInt64 := addr.sAddr.toUInt64 <<< 32 ||| addr.usPort.toUInt64

/-- `GR_RedisServer`; `addr` is `strHostname` and `iPort`. -/
structure RedisServer where
  addr : Addr
  ulIdenty : UInt64
  ulIdx : Nat
  iInPool : Bool
  pEvent : Option Nat
deriving DecidableEq

/-- The part of a `GR_RedisEvent` that the route looks at; `addr` is `m_szAddr` and `m_uiPort`. -/
structure ServerEvent where
  pServer : Nat
  addr : Addr
  iFD : Nat
  status : ConnectStatus
deriving DecidableEq

/-- `ConnectOK`. -/
def ServerEvent.connectOK (ev : ServerEvent) : Bool := ev.status == .connecting || ev.status == .connected

/-- `GR_ClusterInfo`: an address, and the first and the last slot of each of its ranges. -/
structure ClusterInfo where
  addr : Addr
  listSlots : List (Nat × Nat)

/-- The slots of a server. -/
def ClusterInfo.slots (info : ClusterInfo) : List Nat :=
  info.listSlots.flatMap fun s => List.range' s.1 (s.2 + 1 - s.1)

/-- The route, with its servers and their events. -/
structure ClusterRoute where
  iSrvNum : Nat
  vServers : Nat → Option Nat
  /-- `m_mapServers`; an address without an entry has the value null, as for `operator[]`. -/
  mapServers : UInt64 → Option Nat
  vRedisSlot : Nat → Option Nat
  servers : Nat → RedisServer
  events : Nat → ServerEvent
  /-- The next addresses that `new` returns. -/
  nextServer : Nat
  nextEvent : Nat
  /-- The servers and events that have been deleted. -/
  deletedServers : List Nat
  deletedEvents : List Nat

namespace ClusterRoute

/-- The route after `Init`. -/
def init : ClusterRoute where
  iSrvNum := 0
  vServers := fun _ => none
  mapServers := fun _ => none
  vRedisSlot := fun _ => none
  servers := fun _ => ⟨⟨0, 1, by decide⟩, 0, 0, false, none⟩
  events := fun _ => ⟨0, ⟨0, 1, by decide⟩, 0, .init⟩
  nextServer := 0
  nextEvent := 0
  deletedServers := []
  deletedEvents := []

/-- Reads the server `p`. -/
def server (r : ClusterRoute) (p : Nat) : Option RedisServer :=
  if p ∈ r.deletedServers then none else some (r.servers p)

def setServer (r : ClusterRoute) (p : Nat) (s : RedisServer) : ClusterRoute :=
  { r with servers := Function.update r.servers p s }

def setEvent (r : ClusterRoute) (e : Nat) (ev : ServerEvent) : ClusterRoute :=
  { r with events := Function.update r.events e ev }

/-- `pEvent != nullptr && pEvent->ConnectOK()` of a server. -/
def connectOK (r : ClusterRoute) (s : RedisServer) : Bool :=
  match s.pEvent with
  | none => false
  | some e => (r.events e).connectOK

/-- The same for a pointer to a server, which may be null. -/
def reachable (r : ClusterRoute) : Option Nat → Option Bool
  | none => some false
  | some p => (r.server p).map r.connectOK

/-! ## `DelRedis` -/

/-- The loop of `GR_Route::DelRedis` over `m_vServers`: the index of the server to delete. -/
def findServer (r : ClusterRoute) (ulValue : UInt64) (ulIdx : Nat) : List Nat → Option (Option Nat)
  | [] => some none
  | i :: l =>
    match r.vServers i with
    | none => findServer r ulValue ulIdx l
    | some p => do
      let s ← r.server p
      if s.ulIdenty = 0 then findServer r ulValue ulIdx l
      else if s.ulIdenty = ulValue ∧ ulIdx = i then some (some i)
      else findServer r ulValue ulIdx l

/-- `pEvent->Close(true); delete pEvent; pEvent = nullptr` in the methods of a server. -/
def dropEvent (close : ClusterRoute → Nat → Option ClusterRoute) (r : ClusterRoute) (p : Nat) : Option ClusterRoute :=
  match (r.servers p).pEvent with
  | none => some r
  | some e => do
    let r ← close r e
    let s ← r.server p
    return { r.setServer p { s with pEvent := none } with deletedEvents := s.pEvent.toList ++ r.deletedEvents }

/-- `delete` of the server `p`. -/
def deleteServer (close : ClusterRoute → Nat → Option ClusterRoute) (r : ClusterRoute) (p : Nat) : Option ClusterRoute := do
  let r ← r.dropEvent close p
  return { r with deletedServers := p :: r.deletedServers }

/-- The end of `GR_Route::DelRedis`: the last server takes the place `index`. Its `ulIdx` is left as
it is. -/
def moveLast (r : ClusterRoute) (index : Nat) : ClusterRoute :=
  let r := { r with iSrvNum := r.iSrvNum - 1 }
  if index = maxRedisGroup - 1 ∨ index = r.iSrvNum then r
  else
    let r := { r with vServers := Function.update r.vServers index (r.vServers r.iSrvNum) }
    { r with vServers := Function.update r.vServers r.iSrvNum none }

/-- The part of `GR_Route::DelRedis` that is about the map. The test for null follows the write. -/
def unlink (r : ClusterRoute) (ulValue : UInt64) (ulIdx : Nat) : Option ClusterRoute := do
  let p ← r.mapServers ulValue
  let s ← r.server p
  let r := r.setServer p { s with pEvent := none }
  return if s.ulIdx = ulIdx then { r with mapServers := Function.update r.mapServers ulValue none } else r

/-- The server at `index` is deleted. -/
def deleteAt (close : ClusterRoute → Nat → Option ClusterRoute) (r : ClusterRoute) (index : Nat) : Option ClusterRoute := do
  let p ← r.vServers index
  let r ← r.deleteServer close p
  return { r with vServers := Function.update r.vServers index none }.moveLast index

/-- `GR_Route::DelRedis`. -/
def delRedisRoute (close : ClusterRoute → Nat → Option ClusterRoute) (r : ClusterRoute) (e : Nat) : Option ClusterRoute := do
  let ulValue := addrToLong (r.events e).addr
  let pServer ← r.server (r.events e).pServer
  if pServer.iInPool = false ∨ r.iSrvNum ≤ pServer.ulIdx then return r
  else
    let r ← r.unlink ulValue pServer.ulIdx
    match ← r.findServer ulValue pServer.ulIdx (List.range r.iSrvNum) with
    | none => return r
    | some index => r.deleteAt close index

/-- `GR_ClusterRoute::DelRedis`. -/
def delRedis (close : ClusterRoute → Nat → Option ClusterRoute) (r : ClusterRoute) (e : Nat) : Option ClusterRoute :=
  let pServer := (r.events e).pServer
  delRedisRoute close { r with vRedisSlot := fun i => if r.vRedisSlot i = some pServer then none else r.vRedisSlot i } e

/-- `GR_RedisEvent::Close`, as far as the route is concerned. The destructor of a server that is listed
twice closes another event, so there are nested calls; each of them closes an event that was open. -/
def close : Nat → ClusterRoute → Nat → Option ClusterRoute
  | 0, _, _ => none
  | n + 1, r, e =>
    if e ∈ r.deletedEvents then none
    else if (r.events e).iFD = 0 then some r
    else do
      let r := r.setEvent e { r.events e with iFD := 0, status := .closed }
      let r ← r.delRedis (close n) e
      -- `Close` goes on to read the event
      if e ∈ r.deletedEvents then none else some r

/-- `Close` of the event `e`. -/
def closeEvent (r : ClusterRoute) (e : Nat) : Option ClusterRoute := close (r.nextEvent + 1) r e

/-! ## `AddRedis` -/

/-- `GR_Route::AddRedis(szIP, usPort, iResult)`. -/
def addRedis (r : ClusterRoute) (addr : Addr) : Option (Option Nat × ClusterRoute) := do
  let ulIdenty := addrToLong addr
  let bOK ← r.reachable (r.mapServers ulIdenty)
  if bOK then return (r.mapServers ulIdenty, r)
  else if r.iSrvNum + 1 = maxRedisGroup then return (none, r)
  else
    let pServer := r.nextServer
    return (some pServer,
      { r.setServer pServer ⟨addr, ulIdenty, r.iSrvNum, true, none⟩ with
        nextServer := r.nextServer + 1
        mapServers := Function.update r.mapServers ulIdenty (some pServer)
        vServers := Function.update r.vServers r.iSrvNum (some pServer)
        iSrvNum := r.iSrvNum + 1 })

/-- `GR_RedisServer::Connect`; the result says whether it is `GR_OK`. -/
def connect (r : ClusterRoute) (p : Nat) (conn : Proxy.Connect) : Option (Bool × ClusterRoute) := do
  let r ← r.dropEvent closeEvent p
  let s ← r.server p
  let e := r.nextEvent
  let ev : ServerEvent := ⟨p, s.addr, 0, .init⟩
  let r := { r.setServer p { s with pEvent := some e } with nextEvent := r.nextEvent + 1 }
  match conn with
  | .socketError => return (false, r.setEvent e ev)
  | .inProgress n => return (true, r.setEvent e { ev with iFD := n + 1, status := .connecting })
  | .connected n => return (true, r.setEvent e { ev with iFD := n + 1 })
  | .refused n =>
    -- `ConnectFailed` closes the event
    let r ← (r.setEvent e { ev with iFD := n + 1 }).closeEvent e
    return (false, r)

/-- `AddRedisServer` for one slot; a slot that does not exist ends the process. -/
def setSlot (pServer : Nat) (r : ClusterRoute) (iStart : Nat) : Option ClusterRoute := do
  if clusterSlots ≤ iStart then none
  else
    let bOK ← r.reachable (r.vRedisSlot iStart)
    if bOK then return r else return { r with vRedisSlot := Function.update r.vRedisSlot iStart (some pServer) }

/-- `AddRedisServer` connects a server that is not connected. -/
def connectServer (r : ClusterRoute) (pServer : Nat) (conn : Proxy.Connect) : Option (Bool × ClusterRoute) := do
  let s ← r.server pServer
  if r.connectOK s then return (true, r) else r.connect pServer conn

/-- `GR_ClusterRoute::AddRedisServer`; the result says whether it is `GR_OK`. -/
def addRedisServer (r : ClusterRoute) (info : ClusterInfo) (conn : Proxy.Connect) : Option (Bool × ClusterRoute) := do
  let (q, r) ← r.addRedis info.addr
  match q with
  | none => return (false, r)
  | some pServer =>
    let (bOK, r) ← r.connectServer pServer conn
    if bOK then
      let r ← info.slots.foldlM (setSlot pServer) r
      return (true, r)
    else return (false, r)

/-! ## Runs -/

/-- What can happen to the servers of the route. -/
inductive Label
  /-- `AddRedisServer`, for the answer to `CLUSTER NODES` or for a redirection. -/
  | addRedisServer (info : ClusterInfo) (conn : Proxy.Connect)
  /-- A connection is established. -/
  | connectResult (e : Nat)
  /-- A connection is lost. -/
  | close (e : Nat)
  /-- A reply after a redirection tells that the slot belongs to the server of the event. -/
  | slotChanged (iSlot e : Nat)

/-- The event exists and has a descriptor, so that epoll or a timer can call it. -/
def isOpen (r : ClusterRoute) (e : Nat) : Bool :=
  decide (e < r.nextEvent) && decide (e ∉ r.deletedEvents) && decide ((r.events e).iFD ≠ 0)

/-- One step. -/
def step (r : ClusterRoute) : Label → Option ClusterRoute
  | .addRedisServer info conn => (r.addRedisServer info conn).map (·.2)
  | .connectResult e =>
    if r.isOpen e ∧ (r.events e).status = .connecting then some (r.setEvent e { r.events e with status := .connected })
    else some r
  | .close e => if r.isOpen e then r.closeEvent e else some r
  | .slotChanged iSlot e =>
    if r.isOpen e ∧ iSlot < clusterSlots then
      some { r with vRedisSlot := Function.update r.vRedisSlot iSlot (some (r.events e).pServer) }
    else some r

end ClusterRoute

end RedisProxy
