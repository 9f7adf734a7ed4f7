import RedisProxy.Proofs.ClusterNodesProofs

/-!
# The table after `CLUSTER NODES`

Each line of the text is one call of `AddRedisServer` at most. As long as the connections succeed and
there is room in the array, a call puts the server of the address into the tables and leaves the other
servers as they are.
-/

namespace RedisProxy

open List Option Function

namespace ClusterRoute

section Serve

variable {r : ClusterRoute} {p : Nat} {addr : Addr} {conn : Proxy.Connect}

/-- `connect` gives a descriptor. -/
def Succeeds : Proxy.Connect → Prop
  | .inProgress _ | .connected _ => True
  | .socketError | .refused _ => False

/-- The server `p` of the address is in the tables, and the other servers are as they were. -/
structure Served (r : ClusterRoute) (addr : Addr) (p : Nat) (r' : ClusterRoute) : Prop where
  sound : r'.Sound
  listed : r'.Listed p
  addr_eq : (r'.servers p).addr = addr
  num : r'.iSrvNum ≤ r.iSrvNum + 1
  kept : ∀ q, r.Listed q → r'.Listed q ∧ (r'.servers q).addr = (r.servers q).addr
  fresh : ∀ a, a ≠ addr → r.Fresh a → r'.Fresh a

/-- `Connect` of a server without event, if it succeeds. -/
theorem connect_eq (h : r.Sound) (hp : r.Listed p) (hnone : (r.servers p).pEvent = none) (hconn : Succeeds conn) :
    ∃ ev, r.connect p conn = some (true, r.attached p ev) ∧ ev.pServer = p ∧ ev.addr = (r.servers p).addr ∧
      (ev.connectOK = true → ev.iFD ≠ 0) := by
  have hdrop : r.dropEvent ClusterRoute.closeEvent p = some r := by
    unfold dropEvent
    rw [hnone]
  unfold ClusterRoute.connect
  simp only [hdrop, h.server hp, bind_eq_bind, bind_some]
  cases conn with
  | socketError => exact absurd hconn id
  | inProgress n => exact ⟨_, rfl, rfl, rfl, by simp⟩
  | connected n => exact ⟨_, rfl, rfl, rfl, by simp⟩
  | refused n => exact absurd hconn id

/-- The other addresses do not notice a new server. -/
theorem fresh_attached (h : r.Sound) {a : Addr} (ha : a ≠ addr) (hf : r.Fresh a) (ev : ServerEvent) :
    ((r.added addr).attached r.nextServer ev).Fresh a := by
  intro q hq
  have hkey : addrToLong a ≠ addrToLong addr := fun hk => ha (addrToLong_injective hk)
  have hq' : r.mapServers (addrToLong a) = some q := by
    have hmap : update r.mapServers (addrToLong addr) (some r.nextServer) (addrToLong a) = some q := hq
    rwa [update_of_ne hkey] at hmap
  have hl : r.Listed q := ((h.mapped _ q).mp hq').1
  have hne : q ≠ r.nextServer := by
    rintro rfl
    exact h.not_listed hl
  have hsrv : ((r.added addr).attached r.nextServer ev).servers q = r.servers q :=
    (update_of_ne hne ..).trans (update_of_ne hne ..)
  have hok := hf q hq'
  rw [hsrv]
  unfold ClusterRoute.connectOK at hok ⊢
  cases he : (r.servers q).pEvent with
  | none => rw [he] at hok; exact hok
  | some e =>
    rw [he] at hok
    have hlt := (h.event q e hl he).1
    have hev : ((r.added addr).attached r.nextServer ev).events e = r.events e :=
      update_of_ne (Nat.ne_of_lt hlt) ..
    dsimp only at hok ⊢
    rw [hev]
    exact hok

/-- A new server that is connected. -/
theorem Served.attached (h : r.Sound) (hm : r.mapServers (addrToLong addr) = none) {ev : ServerEvent}
    (hs : ev.pServer = r.nextServer) (ha : ev.addr = addr) (hok : ev.connectOK = true → ev.iFD ≠ 0) :
    Served r addr r.nextServer ((r.added addr).attached r.nextServer ev) := by
  have hnew := h.added hm
  have hl : (r.added addr).Listed r.nextServer := added_listed.mpr (.inl rfl)
  have hself : (r.added addr).servers r.nextServer = ⟨addr, addrToLong addr, r.iSrvNum, true, none⟩ :=
    update_self ..
  refine ⟨hnew.attached hl (by rw [hself]) hs (by rw [ha, hself]) hok, hl, ?_, le_rfl, fun q hq => ⟨?_, ?_⟩, ?_⟩
  · show (update (r.added addr).servers r.nextServer _ r.nextServer).addr = addr
    rw [update_self, hself]
  · have hq' : (r.added addr).Listed q := added_listed.mpr (.inr hq)
    exact hq'
  · have hne : q ≠ r.nextServer := by
      rintro rfl
      exact h.not_listed hq
    exact congrArg RedisServer.addr ((update_of_ne hne ..).trans (update_of_ne hne ..))
  · exact fun a hne hf => fresh_attached h hne hf ev

/-- The first part of `AddRedisServer`: there is a server for the address, and it has a connection. -/
theorem serve_addr (h : r.Sound) (hf : r.Fresh addr) (hroom : r.iSrvNum + 1 < maxRedisGroup) (hconn : Succeeds conn) :
    ∃ p r₁ r₂, r.addRedis addr = some (some p, r₁) ∧ r₁.connectServer p conn = some (true, r₂) ∧
      Served r addr p r₂ ∧ r₂.vRedisSlot = r.vRedisSlot := by
  cases hm : r.mapServers (addrToLong addr) with
  | none =>
    have hadd : r.addRedis addr = some (some r.nextServer, r.added addr) := by
      refine bind_eq_some_iff.mpr ⟨false, ?_, ?_⟩
      · rw [hm]
        rfl
      · rw [if_neg (by simp), if_neg (by omega)]
        rfl
    have hnew := h.added hm
    have hl : (r.added addr).Listed r.nextServer := added_listed.mpr (.inl rfl)
    have hself : (r.added addr).servers r.nextServer = ⟨addr, addrToLong addr, r.iSrvNum, true, none⟩ :=
      update_self ..
    obtain ⟨ev, hev, hs, ha, hok⟩ := connect_eq hnew hl (by rw [hself]) hconn
    rw [hself] at ha
    refine ⟨r.nextServer, _, _, hadd, ?_, Served.attached h hm hs ha hok, rfl⟩
    refine bind_eq_some_iff.mpr ⟨_, hnew.server hl, ?_⟩
    rw [if_neg (by simp [connectOK, hself])]
    exact hev
  | some p =>
    obtain ⟨hl, hid⟩ := (h.mapped _ p).mp hm
    have hok := hf p hm
    have hreach : r.reachable (some p) = some true := by
      show (r.server p).map r.connectOK = _
      rw [h.server hl, map_some, hok]
    refine ⟨p, r, r, ?_, ?_, ⟨h, hl, ?_, Nat.le_succ _, fun q hq => ⟨hq, rfl⟩, fun a _ hfa => hfa⟩, rfl⟩
    · refine bind_eq_some_iff.mpr ⟨true, ?_, ?_⟩
      · rw [hm]
        exact hreach
      · rw [if_pos rfl, hm]
        rfl
    · refine bind_eq_some_iff.mpr ⟨_, h.server hl, ?_⟩
      rw [if_pos hok]
      rfl
    · rw [(h.alive p hl).2.2.2] at hid
      exact addrToLong_injective hid

/-- A slot that has no server, or this one, gets this one. -/
theorem setSlot_eq (h : r.Sound) (hp : r.Listed p) {i : Nat} (hi : i < clusterSlots)
    (hs : r.vRedisSlot i = none ∨ r.vRedisSlot i = some p) :
    setSlot p r i = some { r with vRedisSlot := Function.update r.vRedisSlot i (some p) } := by
  unfold setSlot
  rw [if_neg (by omega)]
  rcases hs with hs | hs
  · rw [hs]
    rfl
  · have hreach : r.reachable (some p) = some (r.connectOK (r.servers p)) := by
      show (r.server p).map r.connectOK = _
      rw [h.server hp, map_some]
    rw [hs, hreach]
    change (if r.connectOK (r.servers p) = true then _ else _) = _
    split_ifs
    · rw [← hs, update_eq_self]
      rfl
    · rfl

/-- The loop over the slots. -/
theorem setSlots_eq {l : List Nat} (hp : r.Listed p) (h : r.Sound) (hl : ∀ i ∈ l, i < clusterSlots)
    (hs : ∀ i ∈ l, r.vRedisSlot i = none ∨ r.vRedisSlot i = some p) :
    l.foldlM (setSlot p) r = some { r with vRedisSlot := fun i => if i ∈ l then some p else r.vRedisSlot i } := by
  induction l generalizing r with
  | nil => simp
  | cons i l ih =>
    rw [foldlM_cons, setSlot_eq h hp (hl i (mem_cons_self ..)) (hs i (mem_cons_self ..))]
    have hrest : ∀ j ∈ l, update r.vRedisSlot i (some p) j = none ∨
        update r.vRedisSlot i (some p) j = some p := by
      intro j hj
      by_cases hji : j = i
      · rw [hji, update_self]
        exact .inr rfl
      · rw [update_of_ne hji]
        exact hs j (mem_cons_of_mem _ hj)
    change foldlM (setSlot p) _ l = _
    rw [ih (r := { r with vRedisSlot := update r.vRedisSlot i (some p) }) hp (h.setSlot hp)
      (fun j hj => hl j (mem_cons_of_mem _ hj)) hrest]
    congr 2
    funext j
    by_cases hji : j = i
    · simp [hji]
    · simp [hji]

/-- `AddRedisServer` for slots that have no server. -/
theorem addRedisServer_eq (h : r.Sound) (info : ClusterInfo) (hf : r.Fresh info.addr) (hroom : r.iSrvNum + 1 < maxRedisGroup)
    (hconn : Succeeds conn) (hs : ∀ i ∈ info.slots, i < clusterSlots ∧ r.vRedisSlot i = none) :
    ∃ p r', r.addRedisServer info conn = some (true, r') ∧ Served r info.addr p r' ∧
      ∀ i, r'.vRedisSlot i = if i ∈ info.slots then some p else r.vRedisSlot i := by
  obtain ⟨p, r₁, r₂, hadd, hcon, hserved, hslots⟩ := serve_addr h hf hroom hconn
  have hfold := setSlots_eq hserved.listed hserved.sound (fun i hi => (hs i hi).1) fun i hi => by
    rw [hslots]
    exact .inl (hs i hi).2
  refine ⟨p, { r₂ with vRedisSlot := fun i => if i ∈ info.slots then some p else r₂.vRedisSlot i }, ?_,
    ⟨?_, hserved.listed, hserved.addr_eq, hserved.num, hserved.kept, hserved.fresh⟩, fun i => ?_⟩
  · refine bind_eq_some_iff.mpr ⟨_, hadd, bind_eq_some_iff.mpr ⟨_, hcon, ?_⟩⟩
    exact bind_eq_some_iff.mpr ⟨_, hfold, rfl⟩
  · apply hserved.sound.setSlots
    intro i q hq
    split_ifs at hq
    · rw [← some.inj hq]
      exact hserved.listed
    · exact hserved.sound.slots i q hq
  · rw [← hslots]

/-- The address to which the requests for a slot go. -/
def slotAddr (r : ClusterRoute) (s : Nat) : Option Addr := (r.vRedisSlot s).map fun p => (r.servers p).addr

theorem Served.slotAddr {r' : ClusterRoute} (h : r.Sound) (hserved : Served r addr p r') {slots : List Nat}
    (hs : ∀ i, r'.vRedisSlot i = if i ∈ slots then some p else r.vRedisSlot i) (i : Nat) :
    r'.slotAddr i = if i ∈ slots then some addr else r.slotAddr i := by
  unfold ClusterRoute.slotAddr
  rw [hs]
  split_ifs with hi
  · rw [map_some, hserved.addr_eq]
  · cases hq : r.vRedisSlot i with
    | none => rfl
    | some q => rw [map_some, map_some, (hserved.kept q (h.slots i q hq)).2]

end Serve

end ClusterRoute

/-! ## The nodes -/

section Nodes

open ClusterRoute

variable {inetAton : List UInt8 → Option UInt32} {conn : Nat → Proxy.Connect} {nd : ClusterNode} {nodes : List ClusterNode}
  {r : ClusterRoute}

/-- A master that owns slots. -/
def ClusterNode.owns (nd : ClusterNode) : Bool := nd.isMaster && decide (nd.info.listSlots ≠ [])

/-- The address of the master that advertises the slot `s`. -/
def ClusterNode.owner (nodes : List ClusterNode) (s : Nat) : Option Addr :=
  (nodes.find? fun nd => nd.isMaster && decide (s ∈ nd.info.slots)).map ClusterNode.addr

/-- The flags of a line about slots: it is about a master, and nothing keeps the master from failing over. -/
def ClusterNode.PlainFlags (nd : ClusterNode) : Prop :=
  nd.info.listSlots ≠ [] → nd.isDown = false → NodeFlag.master ∈ nd.flags ∧ NodeFlag.nofailover ∉ nd.flags

theorem NodeFlag.returns_eq (f : NodeFlag) :
    f.returns = (decide (f ∈ [NodeFlag.slave, .pfail, .fail, .handshake, .noaddr]) || decide (f = .nofailover)) := by
  cases f <;> decide

/-- The lines that `GetClusterInfo` reads to the end are those of the masters. -/
theorem returns_eq (hp : nd.PlainFlags) (hslots : nd.info.listSlots ≠ []) :
    nd.flags.any NodeFlag.returns = !nd.isMaster := by
  unfold ClusterNode.isMaster
  cases hdown : nd.isDown with
  | true =>
    obtain ⟨f, hf, hret⟩ := any_eq_true.mp hdown
    have hany : nd.flags.any NodeFlag.returns = true := by
      refine any_eq_true.mpr ⟨f, hf, ?_⟩
      rw [f.returns_eq, hret, Bool.true_or]
    rw [hany]
    simp
  | false =>
    obtain ⟨hmaster, hno⟩ := hp hslots hdown
    have hany : nd.flags.any NodeFlag.returns = false := by
      refine any_eq_false.mpr fun f hf => ?_
      have hf' := any_eq_false.mp hdown f hf
      rw [f.returns_eq, Bool.or_eq_true, not_or]
      refine ⟨hf', ?_⟩
      rw [decide_eq_true_eq]
      rintro rfl
      exact hno hf
    rw [hany]
    simp [hmaster]

/-- A line is a call of `AddRedisServer` if it is about a master that owns slots. -/
theorem nodeStep_owns (hp : nd.PlainFlags) (c : Proxy.Connect) (r : ClusterRoute) :
    nodeStep nd c r = if nd.owns then (r.addRedisServer nd.info c).map (·.2) else some r := by
  unfold nodeStep ClusterNode.owns
  by_cases hslots : nd.info.listSlots = []
  · simp [hslots]
  · rw [returns_eq hp hslots]
    cases nd.isMaster <;> simp [hslots]

/-- Every slot of a node exists. -/
theorem ClusterNode.WF.slots (h : nd.WF inetAton) : ∀ i ∈ nd.info.slots, i < clusterSlots := by
  intro i hi
  obtain ⟨s, hs, hi⟩ := mem_flatMap.mp hi
  obtain ⟨f, hf, hfs⟩ := mem_filterMap.mp hs
  have hle := (h.fields f hf).le hfs
  have hlt := (mem_range'_1.mp hi).2
  omega

theorem owner_cons (nd : ClusterNode) (nodes : List ClusterNode) (i : Nat) :
    ClusterNode.owner (nd :: nodes) i = if nd.owns = true ∧ i ∈ nd.info.slots then some nd.addr else ClusterNode.owner nodes i := by
  have hiff : (nd.isMaster && decide (i ∈ nd.info.slots)) = true ↔ nd.owns = true ∧ i ∈ nd.info.slots := by
    unfold ClusterNode.owns
    rw [Bool.and_eq_true, Bool.and_eq_true, decide_eq_true_eq, decide_eq_true_eq]
    constructor
    · rintro ⟨hm, hi⟩
      refine ⟨⟨hm, fun hnil => ?_⟩, hi⟩
      rw [ClusterInfo.slots, hnil] at hi
      exact absurd hi not_mem_nil
    · rintro ⟨⟨hm, -⟩, hi⟩
      exact ⟨hm, hi⟩
  unfold ClusterNode.owner
  rw [find?_cons]
  split_ifs with h
  · rw [hiff.mpr h]
    rfl
  · rw [Bool.eq_false_iff.mpr (mt hiff.mp h)]

/-- A slot that the masters `nodes` do not own. -/
theorem owner_none {i : Nat} (h : ∀ nd ∈ nodes, nd.owns = true → i ∉ nd.info.slots) : ClusterNode.owner nodes i = none := by
  induction nodes with
  | nil => rfl
  | cons nd nodes ih =>
    rw [owner_cons, if_neg fun hi => h nd (mem_cons_self ..) hi.1 hi.2]
    exact ih fun m hm => h m (mem_cons_of_mem _ hm)

/-- The masters among `nodes` are in the tables, and the servers that were there still are. -/
structure Placed (nodes : List ClusterNode) (r r' : ClusterRoute) : Prop where
  sound : r'.Sound
  kept : ∀ q, r.Listed q → r'.Listed q ∧ (r'.servers q).addr = (r.servers q).addr
  slotAddr : ∀ i, r'.slotAddr i = (ClusterNode.owner nodes i).or (r.slotAddr i)
  listed : ∀ nd ∈ nodes, nd.owns = true → ∃ p, r'.Listed p ∧ (r'.servers p).addr = nd.addr

/-- The lines one after the other. -/
theorem nodeSteps_placed (hwf : ∀ nd ∈ nodes, nd.WF inetAton) (hp : ∀ nd ∈ nodes, nd.PlainFlags)
    (haddr : (nodes.map ClusterNode.addr).Nodup)
    (hdisj : nodes.Pairwise fun a b => a.owns = true → b.owns = true → ∀ i ∈ a.info.slots, i ∉ b.info.slots)
    (hconn : ∀ k, Succeeds (conn k)) (h : r.Sound) (hfresh : ∀ nd ∈ nodes, r.Fresh nd.addr)
    (hroom : r.iSrvNum + nodes.countP ClusterNode.owns < maxRedisGroup)
    (hfree : ∀ nd ∈ nodes, nd.owns = true → ∀ i ∈ nd.info.slots, r.vRedisSlot i = none) (k : Nat) :
    ∃ r', nodeSteps conn k nodes r = some r' ∧ Placed nodes r r' := by
  induction nodes generalizing r k with
  | nil => exact ⟨r, rfl, h, fun q hq => ⟨hq, rfl⟩, fun _ => rfl, nofun⟩
  | cons nd nodes ih =>
    obtain ⟨hwf₁, hwf⟩ := forall_mem_cons.mp hwf
    obtain ⟨hp₁, hp⟩ := forall_mem_cons.mp hp
    obtain ⟨hfresh₁, hfresh⟩ := forall_mem_cons.mp hfresh
    obtain ⟨hfree₁, hfree⟩ := forall_mem_cons.mp hfree
    rw [map_cons, nodup_cons] at haddr
    rw [pairwise_cons] at hdisj
    rw [countP_cons] at hroom
    rw [nodeSteps, nodeStep_owns hp₁]
    by_cases howns : nd.owns = true
    · rw [if_pos howns] at hroom ⊢
      obtain ⟨p, r₁, hadd, hserved, hslots⟩ := addRedisServer_eq h nd.info hfresh₁ (by omega) (hconn k)
        fun i hi => ⟨hwf₁.slots i hi, hfree₁ howns i hi⟩
      have hfresh' : ∀ m ∈ nodes, r₁.Fresh m.addr := by
        intro m hm
        refine hserved.fresh m.addr (fun heq => haddr.1 ?_) (hfresh m hm)
        have heq' : m.addr = nd.addr := heq
        rw [← heq']
        exact mem_map_of_mem hm
      have hfree' : ∀ m ∈ nodes, m.owns = true → ∀ i ∈ m.info.slots, r₁.vRedisSlot i = none := by
        intro m hm hmo i hi
        rw [hslots, if_neg fun hi' => hdisj.1 m hm howns hmo i hi' hi]
        exact hfree m hm hmo i hi
      have hnum := hserved.num
      obtain ⟨r', hr', hplaced⟩ := ih hwf hp haddr.2 hdisj.2 hserved.sound hfresh' (by omega) hfree' (k + 1)
      refine ⟨r', ?_, hplaced.sound, fun q hq => ?_, fun i => ?_, ?_⟩
      · rw [hadd]
        exact hr'
      · obtain ⟨hq₁, ha₁⟩ := hserved.kept q hq
        obtain ⟨hq', ha'⟩ := hplaced.kept q hq₁
        exact ⟨hq', ha'.trans ha₁⟩
      · rw [hplaced.slotAddr, hserved.slotAddr h hslots, owner_cons]
        by_cases hi : i ∈ nd.info.slots
        · rw [if_pos hi, if_pos ⟨howns, hi⟩, owner_none fun m hm hmo => hdisj.1 m hm howns hmo i hi]
          rfl
        · rw [if_neg hi, if_neg fun hand => hi hand.2]
      · refine forall_mem_cons.mpr ⟨fun _ => ?_, hplaced.listed⟩
        obtain ⟨hl, ha⟩ := hplaced.kept p hserved.listed
        exact ⟨p, hl, ha.trans hserved.addr_eq⟩
    · rw [if_neg howns] at hroom ⊢
      obtain ⟨r', hr', hplaced⟩ := ih hwf hp haddr.2 hdisj.2 h hfresh hroom hfree (k + 1)
      refine ⟨r', hr', hplaced.sound, hplaced.kept, fun i => ?_, ?_⟩
      · rw [hplaced.slotAddr, owner_cons, if_neg fun hand => howns hand.1]
      · exact forall_mem_cons.mpr ⟨fun ho => absurd ho howns, hplaced.listed⟩

/-- A server stands at one place of the array. -/
theorem index_unique (h : r.Sound) {p : Nat} (hp : r.Listed p) :
    ∃! i, i < r.iSrvNum ∧ ∃ q, r.vServers i = some q ∧ (r.servers q).addr = (r.servers p).addr := by
  obtain ⟨i, hi, hip⟩ := hp
  refine ⟨i, ⟨hi, p, hip, rfl⟩, ?_⟩
  rintro j ⟨hj, q, hjq, haddr⟩
  exact h.consistent.distinct j hj i hi q p hjq hip haddr

/-- After `ParseClusterNodes` each slot has the server of the master that advertises it, and each master
that owns slots is in the array once. -/
theorem nodes_in_table {mem : Int → UInt8} {szStart : Int} (hwf : ∀ nd ∈ nodes, nd.WF inetAton)
    (haddr : (nodes.map ClusterNode.addr).Nodup)
    (hdisj : nodes.Pairwise fun a b => a.isMaster = true → b.isMaster = true → ∀ i ∈ a.info.slots, i ∉ b.info.slots)
    (htext : Holds mem szStart (ClusterNode.clusterText nodes)) (hconn : ∀ k, Succeeds (conn k))
    (hempty : ∀ i, r.vRedisSlot i = none) (hp : ∀ nd ∈ nodes, nd.PlainFlags)
    (hroom : r.iSrvNum + nodes.countP ClusterNode.owns < maxRedisGroup) (h : r.Sound)
    (hfresh : ∀ nd ∈ nodes, r.Fresh nd.addr) :
    ∃ mem' r', parseClusterNodes inetAton conn szStart (ClusterNode.clusterText nodes).length (mem, r) = some (mem', r') ∧
      (∀ i, (r'.vRedisSlot i).map (fun p => (r'.servers p).addr) = ClusterNode.owner nodes i) ∧
      ∀ nd ∈ nodes, nd.owns = true →
        ∃! i, i < r'.iSrvNum ∧ ∃ p, r'.vServers i = some p ∧ (r'.servers p).addr = nd.addr := by
  have howns : ∀ {n : ClusterNode}, n.owns = true → n.isMaster = true := fun hn => (Bool.and_eq_true_iff.mp hn).1
  obtain ⟨mem', hparse⟩ := parseClusterNodes_eq conn hwf htext r
  obtain ⟨r', hsteps, hplaced⟩ := nodeSteps_placed hwf hp haddr
    (hdisj.imp fun hab ha hb => hab (howns ha) (howns hb)) hconn h hfresh hroom (fun _ _ _ i _ => hempty i) 0
  refine ⟨mem', r', ?_, fun i => ?_, fun nd hnd ho => ?_⟩
  · rw [hparse, hsteps]
    rfl
  · have hnone : r.slotAddr i = none := by rw [slotAddr, hempty, map_none]
    have hslot := hplaced.slotAddr i
    rw [hnone, or_none] at hslot
    exact hslot
  · obtain ⟨p, hl, ha⟩ := hplaced.listed nd hnd ho
    rw [← ha]
    exact index_unique hplaced.sound hl

/-- A cluster of one node with the slots from 0 to 5. -/
def loneNode (flags : List NodeFlag) : ClusterNode where
  id := ascii "e7d1eecce10fd6bb5eb35b9f99a514335d9ba9ca"
  ip := ascii "10.0.0.1"
  addr := ⟨0x0100000a, 7000, by decide⟩
  bus := some (ascii "17000")
  flags := flags
  others := [ascii "-", ascii "0", ascii "0", ascii "1", ascii "connected"]
  fields := [.range 0 5]

/-- `inet_aton` for the address of that node. -/
def loneAton (s : List UInt8) : Option UInt32 := if s = ascii "10.0.0.1" then some 0x0100000a else none

/-- The memory that holds the answer. -/
def loneText (flags : List NodeFlag) : Int → UInt8 := writeAt (fun _ => 0) 0 (ClusterNode.clusterText [loneNode flags])

theorem loneText_holds (flags : List NodeFlag) : Holds (loneText flags) 0 (ClusterNode.clusterText [loneNode flags]) :=
  bytesAt_writeAt ..

theorem loneNode_wf {flags : List NodeFlag} (h : flags ≠ []) : (loneNode flags).WF loneAton where
  id_ne := by dsimp only [loneNode]; decide
  id := by dsimp only [loneNode, Printable]; decide +kernel
  ip := by dsimp only [loneNode, Printable]; decide +kernel
  ip_colon := by dsimp only [loneNode]; decide
  addr := if_pos rfl
  bus := by
    rintro t ⟨⟩
    unfold Printable
    decide +kernel
  flags := h
  others := rfl
  others_text := by dsimp only [loneNode, Printable]; decide +kernel
  fields := by
    intro f hf
    rw [mem_singleton.mp hf]
    exact ⟨by decide, by decide⟩

theorem nodes_in_table_lone :
    ∃ mem' r', parseClusterNodes loneAton (fun _ => .inProgress 5) 0 (ClusterNode.clusterText [loneNode [.myself, .master]]).length
        (loneText [.myself, .master], ClusterRoute.init) = some (mem', r') ∧
      (∀ i, (r'.vRedisSlot i).map (fun p => (r'.servers p).addr) = ClusterNode.owner [loneNode [.myself, .master]] i) ∧
      ∀ nd ∈ [loneNode [.myself, .master]], nd.owns = true →
        ∃! i, i < r'.iSrvNum ∧ ∃ p, r'.vServers i = some p ∧ (r'.servers p).addr = nd.addr := by
  refine nodes_in_table ?_ (by simp) (pairwise_singleton _ _) (loneText_holds _) (fun _ => trivial) (fun _ => rfl) ?_
    (by decide) ClusterRoute.init_sound ?_
  · exact forall_mem_singleton.mpr (loneNode_wf (by simp))
  · exact forall_mem_singleton.mpr fun _ _ => by decide
  · exact forall_mem_singleton.mpr fun p hp => absurd hp (by simp [ClusterRoute.init])

/-- The slots of a master that must not fail over get no server. -/
theorem nofailover_not_in_table :
    ∃ mem', parseClusterNodes loneAton (fun _ => .inProgress 5) 0 (ClusterNode.clusterText [loneNode [.master, .nofailover]]).length
        (loneText [.master, .nofailover], ClusterRoute.init) = some (mem', ClusterRoute.init) ∧
      ClusterRoute.init.vRedisSlot 3 = none ∧
      ClusterNode.owner [loneNode [.master, .nofailover]] 3 = some (loneNode [.master, .nofailover]).addr := by
  obtain ⟨mem', hparse⟩ := parseClusterNodes_eq (fun _ => .inProgress 5)
    (forall_mem_singleton.mpr (loneNode_wf (by simp))) (loneText_holds [.master, .nofailover]) ClusterRoute.init
  refine ⟨mem', ?_, rfl, by decide⟩
  rw [hparse]
  rfl

end Nodes

end RedisProxy
