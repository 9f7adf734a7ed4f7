import RedisProxy.ClusterRoute

/-!
# Proofs: the servers of `GR_ClusterRoute`

The array of servers, the map from addresses and the array of slots agree as long as servers leave from
the end of the array, and a server is added again only after it has left.
-/

namespace RedisProxy

theorem addrToLong_toNat (addr : Addr) :
    (addrToLong addr).toNat = addr.sAddr.toNat * 2 ^ 32 + addr.usPort.toNat := by
  have hs := addr.sAddr.toNat_lt
  have hp := addr.usPort.toNat_lt
  unfold addrToLong
  rw [UInt64.toNat_or, UInt64.toNat_shiftLeft, UInt32.toNat_toUInt64, UInt16.toNat_toUInt64]
  have h32 : (32 : UInt64).toNat % 64 = 32 := rfl
  have hlt : addr.sAddr.toNat <<< 32 < 2 ^ 64 := by
    rw [Nat.shiftLeft_eq]
    omega
  rw [h32, Nat.mod_eq_of_lt hlt, ← Nat.shiftLeft_add_eq_or_of_lt (by omega), Nat.shiftLeft_eq]

theorem addrToLong_injective {a b : Addr} (h : addrToLong a = addrToLong b) : a = b := by
  have hnat := congrArg UInt64.toNat h
  rw [addrToLong_toNat, addrToLong_toNat] at hnat
  have ha := a.usPort.toNat_lt
  have hb := b.usPort.toNat_lt
  have hs : a.sAddr = b.sAddr := UInt32.toNat_inj.mp (by omega)
  have hp : a.usPort = b.usPort := UInt16.toNat_inj.mp (by omega)
  cases a
  cases b
  simp_all

theorem addrToLong_ne_zero (addr : Addr) : addrToLong addr ≠ 0 := by
  intro h
  have hnat := addrToLong_toNat addr
  rw [h] at hnat
  have hzero : addr.sAddr.toNat = 0 ∧ addr.usPort.toNat = 0 := by
    have : (0 : UInt64).toNat = 0 := rfl
    omega
  rcases addr.valid with hs | hp
  · exact hs (UInt32.toNat_inj.mp hzero.1)
  · exact hp (UInt16.toNat_inj.mp hzero.2)

namespace ClusterRoute

open Lib List Option Function

/-- The server `p` is in the array. -/
def Listed (r : ClusterRoute) (p : Nat) : Prop := ∃ i < r.iSrvNum, r.vServers i = some p

/-- The array, the map and the slots agree about the servers. -/
structure Consistent (r : ClusterRoute) : Prop where
  indexed : ∀ i < r.iSrvNum, ∃ p, r.vServers i = some p ∧ (r.servers p).ulIdx = i
  distinct : ∀ i < r.iSrvNum, ∀ j < r.iSrvNum, ∀ p q, r.vServers i = some p → r.vServers j = some q →
    (r.servers p).addr = (r.servers q).addr → i = j
  mapped : ∀ addr p, r.mapServers (addrToLong addr) = some p ↔ r.Listed p ∧ (r.servers p).addr = addr
  keys : ∀ k p, r.mapServers k = some p → k = addrToLong (r.servers p).addr
  slots : ∀ i p, r.vRedisSlot i = some p → r.Listed p

/-- The server `p` is in none of the three. -/
structure Gone (r : ClusterRoute) (p : Nat) : Prop where
  vServers : ¬r.Listed p
  mapServers : ∀ k, r.mapServers k ≠ some p
  vRedisSlot : ∀ i, r.vRedisSlot i ≠ some p

/-! ## The invariant -/

/-- The servers in the array are alive and know their places, the map leads from their addresses to them,
and the events that are open are theirs. -/
structure Sound (r : ClusterRoute) : Prop where
  indexed : ∀ i < r.iSrvNum, ∃ p, r.vServers i = some p ∧ (r.servers p).ulIdx = i
  alive : ∀ p, r.Listed p → p < r.nextServer ∧ p ∉ r.deletedServers ∧ (r.servers p).iInPool = true ∧
    (r.servers p).ulIdenty = addrToLong (r.servers p).addr
  mapped : ∀ k p, r.mapServers k = some p ↔ r.Listed p ∧ (r.servers p).ulIdenty = k
  slots : ∀ i p, r.vRedisSlot i = some p → r.Listed p
  event : ∀ p e, r.Listed p → (r.servers p).pEvent = some e →
    e < r.nextEvent ∧ (r.events e).pServer = p ∧ (r.events e).addr = (r.servers p).addr
  opened : ∀ e < r.nextEvent, (r.events e).iFD ≠ 0 →
    r.Listed (r.events e).pServer ∧ (r.servers (r.events e).pServer).pEvent = some e
  status : ∀ e, (r.events e).connectOK = true → (r.events e).iFD ≠ 0
  kept : r.deletedEvents = []
  deleted : ∀ p ∈ r.deletedServers, p < r.nextServer

namespace Sound

variable {r : ClusterRoute} {p : Nat}

/-- A server is at its index. -/
theorem index (h : r.Sound) (hp : r.Listed p) : (r.servers p).ulIdx < r.iSrvNum ∧ r.vServers (r.servers p).ulIdx = some p := by
  obtain ⟨i, hi, hip⟩ := hp
  obtain ⟨q, hq, hidx⟩ := h.indexed i hi
  obtain rfl : q = p := some.inj (hq.symm.trans hip)
  rw [hidx]
  exact ⟨hi, hip⟩

theorem server (h : r.Sound) (hp : r.Listed p) : r.server p = some (r.servers p) := if_neg (h.alive p hp).2.1

/-- The map leads to every server. -/
theorem mapServers (h : r.Sound) (hp : r.Listed p) : r.mapServers (addrToLong (r.servers p).addr) = some p :=
  (h.mapped _ p).mpr ⟨hp, (h.alive p hp).2.2.2⟩

theorem consistent (h : r.Sound) : r.Consistent := by
  refine ⟨h.indexed, fun i hi j hj p q hp hq haddr => ?_, fun addr p => ?_, fun k p hk => ?_, h.slots⟩
  · have hmp := h.mapServers ⟨i, hi, hp⟩
    have hmq := h.mapServers ⟨j, hj, hq⟩
    rw [haddr, hmq] at hmp
    cases hmp
    obtain ⟨p', hp', hi'⟩ := h.indexed i hi
    obtain ⟨q', hq', hj'⟩ := h.indexed j hj
    obtain rfl := some.inj (hp'.symm.trans hp)
    obtain rfl := some.inj (hq'.symm.trans hq)
    omega
  · rw [h.mapped]
    constructor
    · rintro ⟨hp, hk⟩
      rw [(h.alive p hp).2.2.2] at hk
      exact ⟨hp, addrToLong_injective hk⟩
    · rintro ⟨hp, rfl⟩
      exact ⟨hp, (h.alive p hp).2.2.2⟩
  · obtain ⟨hp, hk⟩ := (h.mapped k p).mp hk
    rw [← hk, (h.alive p hp).2.2.2]

end Sound

/-! ## Deletion -/

/-- The route without the server `p`, up to its entry in the array. -/
def unlinked (r : ClusterRoute) (p : Nat) : ClusterRoute :=
  { r with
    vRedisSlot := fun i => if r.vRedisSlot i = some p then none else r.vRedisSlot i
    servers := Function.update r.servers p { r.servers p with pEvent := none }
    mapServers := Function.update r.mapServers (addrToLong (r.servers p).addr) none }

/-- The route without the server `p`. -/
def removed (r : ClusterRoute) (p : Nat) : ClusterRoute :=
  let u := r.unlinked p
  { u with
    deletedServers := p :: u.deletedServers
    vServers := Function.update u.vServers (r.servers p).ulIdx none }.moveLast (r.servers p).ulIdx

section Delete

variable {r : ClusterRoute} {p : Nat}

/-- The loop finds the server at its index. -/
theorem findServer_eq {ulValue : UInt64} {ulIdx : Nat} {l : List Nat}
    (hl : ∀ i ∈ l, ∃ q s, r.vServers i = some q ∧ r.server q = some s ∧ s.ulIdenty ≠ 0 ∧ (i = ulIdx → s.ulIdenty = ulValue))
    (hmem : ulIdx ∈ l) : r.findServer ulValue ulIdx l = some (some ulIdx) := by
  induction l with
  | nil => exact nomatch hmem
  | cons i l ih =>
    obtain ⟨q, s, hq, hs, hne, heq⟩ := hl i (mem_cons_self ..)
    unfold findServer
    rw [hq]
    simp only [hs, bind_eq_bind, bind_some, if_neg hne]
    by_cases hi : i = ulIdx
    · rw [if_pos ⟨heq hi, hi.symm⟩, hi]
    · rw [if_neg fun hand => hi hand.2.symm]
      exact ih (fun j hj => hl j (mem_cons_of_mem _ hj)) ((mem_cons.mp hmem).resolve_left fun h => hi h.symm)

theorem unlinked_ulIdenty (q : Nat) : ((r.unlinked p).servers q).ulIdenty = (r.servers q).ulIdenty := by
  show (update r.servers p _ q).ulIdenty = _
  rw [update_apply]
  split_ifs with hqp
  · rw [hqp]
  · rfl

/-- The loop finds the server. -/
theorem findServer_unlinked (h : r.Sound) (hp : r.Listed p) :
    (r.unlinked p).findServer (addrToLong (r.servers p).addr) (r.servers p).ulIdx (List.range (r.unlinked p).iSrvNum) =
      some (some (r.servers p).ulIdx) := by
  obtain ⟨hidx, hent⟩ := h.index hp
  apply findServer_eq
  · intro i hi
    have hi : i < r.iSrvNum := mem_range.mp hi
    obtain ⟨q, hq, -⟩ := h.indexed i hi
    obtain ⟨-, hdel, -, hid⟩ := h.alive q ⟨i, hi, hq⟩
    refine ⟨q, (r.unlinked p).servers q, hq, if_neg hdel, ?_⟩
    rw [unlinked_ulIdenty, hid]
    refine ⟨addrToLong_ne_zero _, fun hip => ?_⟩
    rw [hip, hent] at hq
    rw [some.inj hq]
  · exact mem_range.mpr hidx

theorem deleteAt_unlinked (h : r.Sound) (hp : r.Listed p) (close : ClusterRoute → Nat → Option ClusterRoute) :
    (r.unlinked p).deleteAt close (r.servers p).ulIdx = some (r.removed p) := by
  have hnone : ((r.unlinked p).servers p).pEvent = none := by simp [unlinked]
  have hdrop : (r.unlinked p).dropEvent close p = some (r.unlinked p) := by
    unfold dropEvent
    rw [hnone]
  refine bind_eq_some_iff.mpr ⟨p, (h.index hp).2, ?_⟩
  refine bind_eq_some_iff.mpr ⟨_, bind_eq_some_iff.mpr ⟨_, hdrop, rfl⟩, rfl⟩

/-- `DelRedis` of an event whose server is in the array. -/
theorem delRedis_eq (h : r.Sound) (hp : r.Listed p) {e : Nat} (he : (r.events e).pServer = p)
    (haddr : (r.events e).addr = (r.servers p).addr) (close : ClusterRoute → Nat → Option ClusterRoute) :
    r.delRedis close e = some (r.removed p) := by
  obtain ⟨hidx, -⟩ := h.index hp
  obtain ⟨-, hdel, hpool, -⟩ := h.alive p hp
  unfold delRedis delRedisRoute
  simp only [he, haddr]
  refine bind_eq_some_iff.mpr ⟨r.servers p, if_neg hdel, ?_⟩
  rw [if_neg (by simp [hpool, hidx])]
  refine bind_eq_some_iff.mpr ⟨r.unlinked p, ?_, ?_⟩
  · refine bind_eq_some_iff.mpr ⟨p, h.mapServers hp, ?_⟩
    refine bind_eq_some_iff.mpr ⟨r.servers p, if_neg hdel, ?_⟩
    exact congrArg some (if_pos rfl)
  · refine bind_eq_some_iff.mpr ⟨_, findServer_unlinked h hp, ?_⟩
    exact deleteAt_unlinked h hp close

/-- What `removed` does apart from the array. -/
theorem removed_frame :
    (r.removed p).iSrvNum = r.iSrvNum - 1 ∧ (r.removed p).servers = (r.unlinked p).servers ∧
      (r.removed p).mapServers = (r.unlinked p).mapServers ∧ (r.removed p).vRedisSlot = (r.unlinked p).vRedisSlot ∧
      (r.removed p).deletedServers = p :: r.deletedServers := by
  unfold removed moveLast
  dsimp only
  split_ifs <;> exact ⟨rfl, rfl, rfl, rfl, rfl⟩

/-- The events and the counters stay. -/
theorem removed_events :
    (r.removed p).events = r.events ∧ (r.removed p).nextServer = r.nextServer ∧ (r.removed p).nextEvent = r.nextEvent ∧
      (r.removed p).deletedEvents = r.deletedEvents := by
  unfold removed moveLast
  dsimp only
  split_ifs <;> exact ⟨rfl, rfl, rfl, rfl⟩

theorem removed_vServers :
    (r.removed p).vServers =
      if (r.servers p).ulIdx = maxRedisGroup - 1 ∨ (r.servers p).ulIdx = r.iSrvNum - 1 then
        Function.update r.vServers (r.servers p).ulIdx none
      else
        let v := update r.vServers (r.servers p).ulIdx none
        update (update v (r.servers p).ulIdx (v (r.iSrvNum - 1))) (r.iSrvNum - 1) none := by
  unfold removed moveLast
  dsimp only [unlinked]
  split_ifs <;> rfl

/-- The entries that are left are entries of other indices. -/
theorem removed_entry {j : Nat} (hj : j < r.iSrvNum - 1) :
    (r.removed p).vServers j = none ∨
      ∃ k < r.iSrvNum, k ≠ (r.servers p).ulIdx ∧ (r.removed p).vServers j = r.vServers k := by
  rw [removed_vServers]
  split_ifs with hlast
  · by_cases hji : j = (r.servers p).ulIdx
    · left
      rw [hji, update_self]
    · right
      exact ⟨j, by omega, hji, update_of_ne hji ..⟩
  · right
    have hne : r.iSrvNum - 1 ≠ (r.servers p).ulIdx := fun heq => hlast (.inr heq.symm)
    rw [update_of_ne (by omega)]
    by_cases hji : j = (r.servers p).ulIdx
    · -- the last server has taken the place
      refine ⟨r.iSrvNum - 1, by omega, hne, ?_⟩
      rw [hji, update_self, update_of_ne hne]
    · exact ⟨j, by omega, hji, by rw [update_of_ne hji, update_of_ne hji]⟩

theorem removed_listed (h : r.Sound) (hp : r.Listed p) {q : Nat} (hq : (r.removed p).Listed q) : r.Listed q ∧ q ≠ p := by
  obtain ⟨j, hj, hjq⟩ := hq
  rw [removed_frame.1] at hj
  rcases removed_entry hj with hnone | ⟨k, hk, hki, heq⟩
  · rw [hnone] at hjq
    cases hjq
  · rw [heq] at hjq
    refine ⟨⟨k, hk, hjq⟩, ?_⟩
    rintro rfl
    obtain ⟨q', hq', hidx⟩ := h.indexed k hk
    obtain rfl := some.inj (hq'.symm.trans hjq)
    exact hki hidx.symm

/-- A server that is deleted is gone, wherever it was. -/
theorem removed_gone (h : r.Sound) (hp : r.Listed p) : (r.removed p).Gone p := by
  obtain ⟨-, -, hmap, hslot, -⟩ := removed_frame (p := p)
  refine ⟨fun hl => (removed_listed h hp hl).2 rfl, fun k => ?_, fun i => ?_⟩
  · rw [hmap]
    show update r.mapServers (addrToLong (r.servers p).addr) none k ≠ some p
    by_cases hk : k = addrToLong (r.servers p).addr
    · rw [hk, update_self]
      simp
    · rw [update_of_ne hk]
      intro hkp
      obtain ⟨-, hid⟩ := (h.mapped k p).mp hkp
      exact hk (hid.symm.trans (h.alive p hp).2.2.2)
  · rw [hslot]
    show (if r.vRedisSlot i = some p then none else r.vRedisSlot i) ≠ some p
    split_ifs with hi
    · simp
    · exact hi

/-- A server that is the last one leaves the others as they are. -/
theorem Sound.removed (h : r.Sound) (hp : r.Listed p) (hlast : (r.servers p).ulIdx + 1 = r.iSrvNum)
    (hclosed : ∀ e, (r.servers p).pEvent = some e → (r.events e).iFD = 0) : (r.removed p).Sound := by
  obtain ⟨hnum, hserv, hmap, hslot, hdel⟩ := removed_frame (p := p)
  obtain ⟨hev, hnext, hnev, hdelev⟩ := removed_events (r := r) (p := p)
  have hold : ∀ {q}, (r.removed p).Listed q → r.Listed q ∧ q ≠ p := removed_listed h hp
  have hentry : ∀ j < r.iSrvNum - 1, (r.removed p).vServers j = r.vServers j := by
    intro j hj
    rw [removed_vServers, if_pos (.inr (by omega)), update_of_ne (by omega)]
  have hsrv : ∀ q, q ≠ p → (r.removed p).servers q = r.servers q := by
    intro q hq
    rw [hserv]
    exact update_of_ne hq ..
  have hnew : ∀ {q}, r.Listed q → q ≠ p → (r.removed p).Listed q := by
    intro q hq hqp
    obtain ⟨hi, hiq⟩ := h.index hq
    obtain ⟨-, hip⟩ := h.index hp
    have hne : (r.servers q).ulIdx ≠ (r.servers p).ulIdx := by
      intro heq
      rw [heq, hip] at hiq
      exact hqp (some.inj hiq).symm
    exact ⟨_, by omega, (hentry _ (by omega)).trans hiq⟩
  constructor
  · intro i hi
    rw [hnum] at hi
    obtain ⟨q, hq, hqi⟩ := h.indexed i (by omega)
    have hqp : q ≠ p := by
      rintro rfl
      omega
    exact ⟨q, (hentry i hi).trans hq, by rw [hsrv q hqp]; exact hqi⟩
  · intro q hq
    obtain ⟨hq, hqp⟩ := hold hq
    obtain ⟨hlt, hnd, hpool, hid⟩ := h.alive q hq
    rw [hsrv q hqp, hnext, hdel]
    exact ⟨hlt, by simp [hqp, hnd], hpool, hid⟩
  · intro k q
    rw [hmap]
    show update r.mapServers (addrToLong (r.servers p).addr) none k = some q ↔ _
    constructor
    · intro hk
      by_cases hka : k = addrToLong (r.servers p).addr
      · rw [hka, update_self] at hk
        cases hk
      · rw [update_of_ne hka] at hk
        obtain ⟨hq, hid⟩ := (h.mapped k q).mp hk
        have hqp : q ≠ p := by
          rintro rfl
          exact hka (hid.symm.trans (h.alive q hq).2.2.2)
        exact ⟨hnew hq hqp, by rw [hsrv q hqp]; exact hid⟩
    · rintro ⟨hq, hid⟩
      obtain ⟨hq, hqp⟩ := hold hq
      rw [hsrv q hqp] at hid
      have hkq := (h.mapped k q).mpr ⟨hq, hid⟩
      have hka : k ≠ addrToLong (r.servers p).addr := by
        rintro rfl
        rw [h.mapServers hp] at hkq
        exact hqp (some.inj hkq).symm
      rw [update_of_ne hka]
      exact hkq
  · intro i q
    rw [hslot]
    show (if r.vRedisSlot i = some p then none else r.vRedisSlot i) = some q → _
    split_ifs with hi
    · simp
    · intro hq
      exact hnew (h.slots i q hq) fun hqp => hi (by rw [hq, hqp])
  · intro q e hq he
    obtain ⟨hq, hqp⟩ := hold hq
    rw [hsrv q hqp] at he ⊢
    rw [hev, hnev]
    exact h.event q e hq he
  · intro e he hfd
    rw [hnev] at he
    rw [hev] at hfd ⊢
    obtain ⟨hq, hqe⟩ := h.opened e he hfd
    have hqp : (r.events e).pServer ≠ p := by
      intro heq
      rw [heq] at hqe
      exact hfd (hclosed e hqe)
    exact ⟨hnew hq hqp, by rw [hsrv _ hqp]; exact hqe⟩
  · rw [hev]
    exact h.status
  · rw [hdelev]
    exact h.kept
  · intro q hq
    rw [hdel] at hq
    rw [hnext]
    rcases mem_cons.mp hq with rfl | hq
    · exact (h.alive q hp).1
    · exact h.deleted q hq

/-- Writing to an event that belongs to the same server. -/
theorem Sound.setEvent (h : r.Sound) {e : Nat} {ev : ServerEvent} (hs : ev.pServer = (r.events e).pServer)
    (ha : ev.addr = (r.events e).addr) (hfd : ev.iFD ≠ 0 → (r.events e).iFD ≠ 0)
    (hok : ev.connectOK = true → ev.iFD ≠ 0) : (r.setEvent e ev).Sound := by
  have hev : ∀ x, (r.setEvent e ev).events x = if x = e then ev else r.events x := fun x => update_apply ..
  have hserv : ∀ x, ((r.setEvent e ev).events x).pServer = (r.events x).pServer := by
    intro x
    rw [hev]
    split_ifs with hx
    · rw [hs, hx]
    · rfl
  refine ⟨h.indexed, h.alive, h.mapped, h.slots, fun p x hp hx => ?_, fun x hx hfx => ?_, fun x => ?_, h.kept, h.deleted⟩
  · obtain ⟨hlt, hps, hpa⟩ := h.event p x hp hx
    refine ⟨hlt, (hserv x).trans hps, ?_⟩
    rw [hev]
    split_ifs with hxe
    · rw [ha, ← hxe]
      exact hpa
    · exact hpa
  · rw [hserv]
    apply h.opened x hx
    rw [hev] at hfx
    split_ifs at hfx with hxe
    · rw [hxe]
      exact hfd hfx
    · exact hfx
  · rw [hev]
    split_ifs with hxe
    · exact hok
    · exact h.status x

theorem isOpen_iff (h : r.Sound) {e : Nat} : r.isOpen e = true ↔ e < r.nextEvent ∧ (r.events e).iFD ≠ 0 := by
  unfold isOpen
  rw [h.kept]
  simp

/-- The route after the event `e` is closed. -/
def closed (r : ClusterRoute) (e : Nat) : ClusterRoute := r.setEvent e { r.events e with iFD := 0, status := .closed }

theorem Sound.closed (h : r.Sound) (e : Nat) : (r.closed e).Sound :=
  h.setEvent rfl rfl (fun hne => absurd rfl hne) (fun hok => absurd hok (by simp [ServerEvent.connectOK]))

/-- `Close` of an open event deletes its server. -/
theorem closeEvent_eq (h : r.Sound) {e : Nat} (he : r.isOpen e = true) :
    r.closeEvent e = some ((r.closed e).removed (r.events e).pServer) := by
  obtain ⟨hlt, hfd⟩ := (isOpen_iff h).mp he
  obtain ⟨hp, hpe⟩ := h.opened e hlt hfd
  obtain ⟨-, -, haddr⟩ := h.event _ e hp hpe
  have hself : (r.closed e).events e = { r.events e with iFD := 0, status := .closed } := update_self ..
  have hdel := delRedis_eq (h.closed e) hp (by rw [hself]) (by rw [hself]; exact haddr) (close r.nextEvent)
  unfold closeEvent close
  rw [if_neg (by rw [h.kept]; simp), if_neg hfd]
  refine bind_eq_some_iff.mpr ⟨_, hdel, ?_⟩
  rw [if_neg]
  rw [removed_events.2.2.2]
  show e ∉ r.deletedEvents
  rw [h.kept]
  simp

/-- `Close` of an event whose server is the last one. -/
theorem Sound.closeEvent (h : r.Sound) {e : Nat} (he : r.isOpen e = true)
    (hlast : (r.servers (r.events e).pServer).ulIdx + 1 = r.iSrvNum) {r' : ClusterRoute} (hs : r.closeEvent e = some r') :
    r'.Sound := by
  obtain ⟨hlt, hfd⟩ := (isOpen_iff h).mp he
  obtain ⟨hp, hpe⟩ := h.opened e hlt hfd
  rw [closeEvent_eq h he] at hs
  cases hs
  refine (h.closed e).removed hp hlast fun x hx => ?_
  obtain rfl : e = x := some.inj (hpe.symm.trans hx)
  show (update r.events e _ e).iFD = 0
  rw [update_self]

end Delete

/-! ## Addition -/

section Add

variable {r r' : ClusterRoute} {p : Nat}

/-- An address that is added again has no server, or one that is connected. -/
def Fresh (r : ClusterRoute) (addr : Addr) : Prop :=
  ∀ p ∈ r.mapServers (addrToLong addr), r.connectOK (r.servers p) = true

/-- The route with a new server. -/
def added (r : ClusterRoute) (addr : Addr) : ClusterRoute :=
  { r.setServer r.nextServer ⟨addr, addrToLong addr, r.iSrvNum, true, none⟩ with
    nextServer := r.nextServer + 1
    mapServers := Function.update r.mapServers (addrToLong addr) (some r.nextServer)
    vServers := Function.update r.vServers r.iSrvNum (some r.nextServer)
    iSrvNum := r.iSrvNum + 1 }

/-- `AddRedis` finds a connected server, or there is no room, or there is a new server. -/
theorem addRedis_cases (h : r.Sound) {addr : Addr} (hf : r.Fresh addr) {q : Option Nat}
    (hs : r.addRedis addr = some (q, r')) :
    (∃ p, q = some p ∧ r' = r ∧ r.Listed p ∧ r.connectOK (r.servers p) = true) ∨ (q = none ∧ r' = r) ∨
      (q = some r.nextServer ∧ r' = r.added addr ∧ r.mapServers (addrToLong addr) = none) := by
  obtain ⟨bOK, hok, hs⟩ := bind_eq_some_iff.mp hs
  cases hm : r.mapServers (addrToLong addr) with
  | none =>
    rw [hm] at hok
    cases hok
    rw [if_neg (by simp)] at hs
    right
    split_ifs at hs with hfull
    · cases hs
      exact .inl ⟨rfl, rfl⟩
    · cases hs
      exact .inr ⟨rfl, rfl, rfl⟩
  | some p =>
    have hp := ((h.mapped _ p).mp hm).1
    have hconn := hf p hm
    have hreach : r.reachable (some p) = some true := by
      show (r.server p).map r.connectOK = _
      rw [h.server hp, map_some, hconn]
    rw [hm, hreach] at hok
    cases hok
    cases hs
    exact .inl ⟨p, hm, rfl, hp, hconn⟩

theorem Sound.not_listed (h : r.Sound) : ¬r.Listed r.nextServer := fun hl => absurd (h.alive _ hl).1 (Nat.lt_irrefl _)

theorem added_listed {addr : Addr} {q : Nat} :
    (r.added addr).Listed q ↔ q = r.nextServer ∨ r.Listed q := by
  constructor
  · rintro ⟨i, hi, hq⟩
    have hq : update r.vServers r.iSrvNum (some r.nextServer) i = some q := hq
    by_cases hin : i = r.iSrvNum
    · rw [hin, update_self] at hq
      exact .inl (some.inj hq).symm
    · rw [update_of_ne hin] at hq
      have hi : i < r.iSrvNum + 1 := hi
      exact .inr ⟨i, by omega, hq⟩
  · rintro (rfl | ⟨i, hi, hq⟩)
    · exact ⟨r.iSrvNum, Nat.lt_succ_self _, update_self ..⟩
    · exact ⟨i, Nat.lt_succ_of_lt hi, (update_of_ne (by omega) ..).trans hq⟩

theorem Sound.added (h : r.Sound) {addr : Addr} (hm : r.mapServers (addrToLong addr) = none) : (r.added addr).Sound := by
  have hself : (r.added addr).servers r.nextServer = ⟨addr, addrToLong addr, r.iSrvNum, true, none⟩ :=
    update_self ..
  have hother : ∀ {q}, r.Listed q → (r.added addr).servers q = r.servers q := by
    intro q hq
    apply update_of_ne
    rintro rfl
    exact h.not_listed hq
  constructor
  · intro i hi
    have hi : i < r.iSrvNum + 1 := hi
    by_cases hin : i = r.iSrvNum
    · exact ⟨r.nextServer, by rw [hin]; exact update_self .., by rw [hself, hin]⟩
    · obtain ⟨q, hq, hqi⟩ := h.indexed i (by omega)
      exact ⟨q, (update_of_ne hin ..).trans hq, by rw [hother ⟨i, by omega, hq⟩]; exact hqi⟩
  · intro q hq
    rcases added_listed.mp hq with rfl | hq
    · rw [hself]
      exact ⟨Nat.lt_succ_self _, fun hd => absurd (h.deleted _ hd) (Nat.lt_irrefl _), rfl, rfl⟩
    · obtain ⟨hlt, hrest⟩ := h.alive q hq
      rw [hother hq]
      exact ⟨Nat.lt_succ_of_lt hlt, hrest⟩
  · intro k q
    rw [added_listed]
    show update r.mapServers (addrToLong addr) (some r.nextServer) k = some q ↔ _
    by_cases hk : k = addrToLong addr
    · rw [hk, update_self]
      constructor
      · rintro hq
        cases hq
        exact ⟨.inl rfl, by rw [hself]⟩
      · rintro ⟨rfl | hq, hid⟩
        · rfl
        · rw [hother hq] at hid
          have := (h.mapped _ q).mpr ⟨hq, hid⟩
          rw [hm] at this
          cases this
    · rw [update_of_ne hk, h.mapped]
      constructor
      · rintro ⟨hq, hid⟩
        exact ⟨.inr hq, by rw [hother hq]; exact hid⟩
      · rintro ⟨rfl | hq, hid⟩
        · rw [hself] at hid
          exact absurd hid.symm hk
        · exact ⟨hq, by rw [← hother hq]; exact hid⟩
  · intro i q hq
    exact added_listed.mpr (.inr (h.slots i q hq))
  · intro q e hq he
    rcases added_listed.mp hq with rfl | hq
    · rw [hself] at he
      cases he
    · rw [hother hq] at he ⊢
      exact h.event q e hq he
  · intro e he hfd
    obtain ⟨hq, hqe⟩ := h.opened e he hfd
    exact ⟨added_listed.mpr (.inr hq), (congrArg RedisServer.pEvent (hother hq)).trans hqe⟩
  · exact h.status
  · exact h.kept
  · exact fun q hq => Nat.lt_succ_of_lt (h.deleted q hq)

/-- The route after the server `p` has got the event `ev`. -/
def attached (r : ClusterRoute) (p : Nat) (ev : ServerEvent) : ClusterRoute :=
  ({ r.setServer p { r.servers p with pEvent := some r.nextEvent } with nextEvent := r.nextEvent + 1 } : ClusterRoute).setEvent
    r.nextEvent ev

theorem Sound.attached (h : r.Sound) (hp : r.Listed p) (hnone : (r.servers p).pEvent = none) {ev : ServerEvent}
    (hs : ev.pServer = p) (ha : ev.addr = (r.servers p).addr) (hok : ev.connectOK = true → ev.iFD ≠ 0) :
    (r.attached p ev).Sound := by
  have hself : (r.attached p ev).servers p = { r.servers p with pEvent := some r.nextEvent } := update_self ..
  have hother : ∀ q, q ≠ p → (r.attached p ev).servers q = r.servers q := fun q hq => update_of_ne hq ..
  have hfields : ∀ q, ((r.attached p ev).servers q).ulIdx = (r.servers q).ulIdx ∧
      ((r.attached p ev).servers q).iInPool = (r.servers q).iInPool ∧
      ((r.attached p ev).servers q).ulIdenty = (r.servers q).ulIdenty ∧
      ((r.attached p ev).servers q).addr = (r.servers q).addr := by
    intro q
    by_cases hq : q = p
    · rw [hq, hself]
      exact ⟨rfl, rfl, rfl, rfl⟩
    · rw [hother q hq]
      exact ⟨rfl, rfl, rfl, rfl⟩
  have hnew : (r.attached p ev).events r.nextEvent = ev := update_self ..
  have hold : ∀ e, e ≠ r.nextEvent → (r.attached p ev).events e = r.events e := fun e he => update_of_ne he ..
  constructor
  · intro i hi
    obtain ⟨q, hq, hqi⟩ := h.indexed i hi
    exact ⟨q, hq, (hfields q).1.trans hqi⟩
  · intro q hq
    obtain ⟨-, hpool, hid, haddr⟩ := hfields q
    rw [hpool, hid, haddr]
    exact h.alive q hq
  · intro k q
    rw [(hfields q).2.2.1]
    exact h.mapped k q
  · exact h.slots
  · intro q e hq he
    rw [(hfields q).2.2.2]
    by_cases hqp : q = p
    · subst hqp
      rw [hself] at he
      cases he
      rw [hnew]
      exact ⟨Nat.lt_succ_self _, hs, ha⟩
    · rw [hother q hqp] at he
      obtain ⟨hlt, hrest⟩ := h.event q e hq he
      rw [hold e (Nat.ne_of_lt hlt)]
      exact ⟨Nat.lt_succ_of_lt hlt, hrest⟩
  · intro e he hfd
    by_cases hen : e = r.nextEvent
    · rw [hen, hnew, hs, hself]
      exact ⟨hp, rfl⟩
    · rw [hold e hen] at hfd ⊢
      have he : e < r.nextEvent + 1 := he
      obtain ⟨hq, hqe⟩ := h.opened e (by omega) hfd
      have hqp : (r.events e).pServer ≠ p := by
        intro heq
        rw [heq, hnone] at hqe
        exact absurd hqe (by simp)
      rw [hother _ hqp]
      exact ⟨hq, hqe⟩
  · intro e
    by_cases hen : e = r.nextEvent
    · rw [hen, hnew]
      exact hok
    · rw [hold e hen]
      exact h.status e
  · exact h.kept
  · exact h.deleted

/-- `Connect` of a new server, which is the last one. -/
theorem Sound.connect (h : r.Sound) (hp : r.Listed p) (hnone : (r.servers p).pEvent = none)
    (hlast : (r.servers p).ulIdx + 1 = r.iSrvNum) {conn : Proxy.Connect} {bOK : Bool}
    (hs : r.connect p conn = some (bOK, r')) : r'.Sound ∧ (bOK = true → r'.Listed p) := by
  have hdrop : r.dropEvent ClusterRoute.closeEvent p = some r := by
    unfold dropEvent
    rw [hnone]
  unfold ClusterRoute.connect at hs
  simp only [hdrop, h.server hp, bind_eq_bind, bind_some] at hs
  -- the event that `Connect` makes, with the descriptor and the status that it gets
  have hatt : ∀ iFD status, (ServerEvent.connectOK ⟨p, (r.servers p).addr, iFD, status⟩ = true → iFD ≠ 0) →
      (r.attached p ⟨p, (r.servers p).addr, iFD, status⟩).Sound := fun _ _ hok => h.attached hp hnone rfl rfl hok
  cases conn with
  | socketError =>
    cases hs
    exact ⟨hatt 0 .init (by simp [ServerEvent.connectOK]), fun hb => nomatch hb⟩
  | inProgress n =>
    cases hs
    exact ⟨hatt (n + 1) .connecting (by simp), fun _ => hp⟩
  | connected n =>
    cases hs
    exact ⟨hatt (n + 1) .init (by simp), fun _ => hp⟩
  | refused n =>
    obtain ⟨r₁, h₁, hs⟩ := bind_eq_some_iff.mp hs
    cases hs
    have hsound := hatt (n + 1) .init (by simp)
    set r₂ := r.attached p ⟨p, (r.servers p).addr, n + 1, .init⟩
    have hnew : r₂.events r.nextEvent = ⟨p, (r.servers p).addr, n + 1, .init⟩ := update_self ..
    have hserv : r₂.servers p = { r.servers p with pEvent := some r.nextEvent } := update_self ..
    have hopen : r₂.isOpen r.nextEvent = true := by
      rw [isOpen_iff hsound, hnew]
      exact ⟨Nat.lt_succ_self _, by simp⟩
    refine ⟨hsound.closeEvent hopen ?_ h₁, fun hb => nomatch hb⟩
    rw [hnew, hserv]
    exact hlast

/-- The slots may point to any server in the array. -/
theorem Sound.setSlots (h : r.Sound) {slots : Nat → Option Nat} (hs : ∀ i p, slots i = some p → r.Listed p) :
    ({ r with vRedisSlot := slots } : ClusterRoute).Sound :=
  ⟨h.indexed, h.alive, h.mapped, hs, h.event, h.opened, h.status, h.kept, h.deleted⟩

theorem Sound.setSlot (h : r.Sound) (hp : r.Listed p) {i : Nat} :
    ({ r with vRedisSlot := Function.update r.vRedisSlot i (some p) } : ClusterRoute).Sound := by
  apply h.setSlots
  intro j q hq
  by_cases hji : j = i
  · rw [hji, update_self] at hq
    rw [← some.inj hq]
    exact hp
  · rw [update_of_ne hji] at hq
    exact h.slots j q hq

/-- The loop of `AddRedisServer` over the slots. -/
theorem foldlM_setSlot {l : List Nat} :
    ∀ {r : ClusterRoute}, r.Sound → r.Listed p → l.foldlM (setSlot p) r = some r' → r'.Sound := by
  induction l with
  | nil =>
    intro r h _ hs
    rw [← some.inj hs]
    exact h
  | cons i l ih =>
    intro r h hp hs
    obtain ⟨r₁, h₁, hs⟩ := bind_eq_some_iff.mp hs
    unfold ClusterRoute.setSlot at h₁
    split_ifs at h₁
    obtain ⟨bOK, -, h₁⟩ := bind_eq_some_iff.mp h₁
    split_ifs at h₁ with hok
    · cases h₁
      exact ih h hp hs
    · cases h₁
      exact ih (h.setSlot hp) hp hs

theorem Sound.addRedisServer (h : r.Sound) {info : ClusterInfo} (hf : r.Fresh info.addr) {conn : Proxy.Connect} {bOK : Bool}
    (hs : r.addRedisServer info conn = some (bOK, r')) : r'.Sound := by
  obtain ⟨⟨q, r₁⟩, h₁, hrest⟩ := bind_eq_some_iff.mp hs
  -- the server that is served from here on is connected, or the process goes on without it
  have hserve : ∀ {p : Nat}, q = some p →
      (∀ b r₂, r₁.connectServer p conn = some (b, r₂) → r₂.Sound ∧ (b = true → r₂.Listed p)) → r'.Sound := by
    rintro p rfl hconn
    obtain ⟨⟨b, r₂⟩, h₂, hrest⟩ := bind_eq_some_iff.mp hrest
    obtain ⟨hsound, hlisted⟩ := hconn b r₂ h₂
    cases b with
    | true =>
      obtain ⟨r₃, h₃, hrest⟩ := bind_eq_some_iff.mp hrest
      rw [← (Prod.mk.inj (some.inj hrest)).2]
      exact foldlM_setSlot hsound (hlisted rfl) h₃
    | false =>
      rw [← (Prod.mk.inj (some.inj hrest)).2]
      exact hsound
  rcases addRedis_cases h hf h₁ with ⟨p, hq, hr₁, hp, hok⟩ | ⟨hq, hr₁⟩ | ⟨hq, hr₁, hm⟩
  · subst hr₁
    refine hserve hq fun b r₂ h₂ => ?_
    obtain ⟨s, hs₁, h₂⟩ := bind_eq_some_iff.mp h₂
    obtain rfl := some.inj (hs₁.symm.trans (h.server hp))
    rw [if_pos hok] at h₂
    rw [← (Prod.mk.inj (some.inj h₂)).2]
    exact ⟨h, fun _ => hp⟩
  · rw [hq] at hrest
    rw [← (Prod.mk.inj (some.inj hrest)).2, hr₁]
    exact h
  · refine hserve hq fun b r₂ h₂ => ?_
    have hself : (r.added info.addr).servers r.nextServer = ⟨info.addr, addrToLong info.addr, r.iSrvNum, true, none⟩ :=
      update_self ..
    have hnew := h.added hm
    have hp : (r.added info.addr).Listed r.nextServer := added_listed.mpr (.inl rfl)
    rw [hr₁] at h₂
    obtain ⟨s, hs₁, h₂⟩ := bind_eq_some_iff.mp h₂
    obtain rfl := some.inj (hs₁.symm.trans (hnew.server hp))
    rw [if_neg (by simp [connectOK, hself])] at h₂
    exact hnew.connect hp (by rw [hself]) (by rw [hself]; rfl) h₂

end Add

/-! ## Runs -/

/-- An address that is added has no server or a connected one, and the server whose connection is lost is
the last one of the array. -/
def TableOK (r : ClusterRoute) : Label → Prop
  | .addRedisServer info _ => r.Fresh info.addr
  | .close e => r.isOpen e = true → (r.servers (r.events e).pServer).ulIdx + 1 = r.iSrvNum
  | .connectResult _ | .slotChanged .. => True

theorem init_sound : init.Sound := by
  constructor
  · exact fun i hi => absurd hi (Nat.not_lt_zero i)
  · rintro p ⟨i, hi, -⟩
    exact absurd hi (Nat.not_lt_zero i)
  · intro k p
    constructor
    · exact fun hk => absurd hk (by simp [init])
    · rintro ⟨⟨i, hi, -⟩, -⟩
      exact absurd hi (Nat.not_lt_zero i)
  · exact fun i p hi => absurd hi (by simp [init])
  · rintro p e ⟨i, hi, -⟩
    exact absurd hi (Nat.not_lt_zero i)
  · exact fun e he => absurd he (Nat.not_lt_zero e)
  · exact fun e he => absurd he (by simp [init, ServerEvent.connectOK])
  · rfl
  · exact fun p hp => absurd hp (by simp [init])

theorem step_sound (r : ClusterRoute) (l : Label) (r' : ClusterRoute) (h : r.Sound) (hok : r.TableOK l)
    (hs : r.step l = some r') : r'.Sound := by
  cases l with
  | addRedisServer info conn =>
    obtain ⟨⟨bOK, r₁⟩, h₁, rfl⟩ := map_eq_some_iff.mp hs
    exact h.addRedisServer hok h₁
  | connectResult e =>
    dsimp only [step] at hs
    split_ifs at hs with he
    · cases hs
      have hfd := ((isOpen_iff h).mp he.1).2
      exact h.setEvent rfl rfl id fun _ => hfd
    · cases hs
      exact h
  | close e =>
    dsimp only [step] at hs
    split_ifs at hs with he
    · exact h.closeEvent he (hok he) hs
    · cases hs
      exact h
  | slotChanged iSlot e =>
    dsimp only [step] at hs
    split_ifs at hs with he
    · cases hs
      obtain ⟨hlt, hfd⟩ := (isOpen_iff h).mp he.1
      exact h.setSlot (h.opened e hlt hfd).1
    · cases hs
      exact h

/-- In every state that is reached the array, the map and the slots agree, and `DelRedis` of a connected
server removes it from all of them. -/
theorem table_consistent (ls : List Label) {r : ClusterRoute} (hok : Meets step TableOK init ls)
    (hrun : run step init ls = some r) :
    r.Consistent ∧ ∀ p e, r.Listed p → (r.servers p).pEvent = some e → (r.events e).connectOK = true →
      ∃ r', r.step (.close e) = some r' ∧ r'.Gone p := by
  have h : r.Sound := run_inv step_sound ls init r init_sound hok hrun
  refine ⟨h.consistent, fun p e hp he hconn => ?_⟩
  obtain ⟨hlt, hserv, -⟩ := h.event p e hp he
  have hopen : r.isOpen e = true := (isOpen_iff h).mpr ⟨hlt, h.status e hconn⟩
  refine ⟨(r.closed e).removed p, ?_, removed_gone (h.closed e) hp⟩
  dsimp only [step]
  rw [if_pos hopen, closeEvent_eq h hopen, hserv]

instance decidableTableOK (r : ClusterRoute) : ∀ l, Decidable (r.TableOK l)
  | .addRedisServer info _ =>
    inferInstanceAs (Decidable (∀ p ∈ r.mapServers (addrToLong info.addr), r.connectOK (r.servers p) = true))
  | .close _ => inferInstanceAs (Decidable (_ → _))
  | .connectResult _ | .slotChanged .. => isTrue trivial

/-- Two servers on one host. -/
def addr₁ : Addr := ⟨0x0100007f, 7001, by decide⟩

def addr₂ : Addr := ⟨0x0100007f, 7002, by decide⟩

theorem table_consistent_two :
    let ls : List Label := [.addRedisServer ⟨addr₁, [(0, 1)]⟩ (.inProgress 0), .addRedisServer ⟨addr₂, [(2, 3)]⟩ (.inProgress 1),
      .connectResult 1, .slotChanged 0 1, .close 1, .addRedisServer ⟨addr₂, [(2, 3)]⟩ (.inProgress 2)]
    ∃ r, run step init ls = some r ∧ r.Listed 2 ∧ r.Consistent ∧
      ∀ p e, r.Listed p → (r.servers p).pEvent = some e → (r.events e).connectOK = true →
        ∃ r', r.step (.close e) = some r' ∧ r'.Gone p := by
  intro ls
  obtain ⟨r, hr, hview⟩ : ∃ r, run step init ls = some r ∧ (r.iSrvNum, r.vServers 1) = (2, some 2) :=
    map_eq_some_iff.mp (by decide)
  obtain ⟨hnum, hlast⟩ := Prod.mk.inj hview
  exact ⟨r, hr, ⟨1, by omega, hlast⟩, table_consistent ls (by decide) hr⟩

/-- The first of two servers leaves. The second one takes its place in the array and keeps its index, so
`DelRedis` does not find it, and it is listed twice when it is added again. -/
theorem moved_server_not_deleted :
    let ls : List Label := [.addRedisServer ⟨addr₁, [(0, 1)]⟩ (.inProgress 0), .addRedisServer ⟨addr₂, [(2, 3)]⟩ (.inProgress 1),
      .close 0]
    (∃ r, run step init ls = some r ∧ r.iSrvNum = 1 ∧ r.vServers 0 = some 1 ∧ (r.servers 1).ulIdx = 1) ∧
    (∃ r r', run step init ls = some r ∧ (r.servers 1).pEvent = some 1 ∧ (r.events 1).connectOK = true ∧
      r.step (.close 1) = some r' ∧ r'.Listed 1) ∧
    ∃ r, run step init (ls ++ [.close 1, .addRedisServer ⟨addr₂, []⟩ (.inProgress 2)]) = some r ∧ r.iSrvNum = 2 ∧
      r.vServers 0 = some 1 ∧ r.vServers 1 = some 2 ∧ (r.servers 1).addr = (r.servers 2).addr := by
  intro ls
  refine ⟨?_, ?_, ?_⟩
  · obtain ⟨r, hr, hview⟩ : ∃ r, run step init ls = some r ∧ (r.iSrvNum, r.vServers 0, (r.servers 1).ulIdx) = (1, some 1, 1) :=
      map_eq_some_iff.mp (by decide)
    simp only [Prod.mk.injEq] at hview
    exact ⟨r, hr, hview⟩
  · obtain ⟨r, hr, hview⟩ : ∃ r, run step init ls = some r ∧
        ((r.servers 1).pEvent, (r.events 1).connectOK, (r.step (.close 1)).map fun r' => (r'.iSrvNum, r'.vServers 0)) =
          (some 1, true, some (1, some 1)) := map_eq_some_iff.mp (by decide)
    simp only [Prod.mk.injEq] at hview
    obtain ⟨hev, hconn, hstep⟩ := hview
    obtain ⟨r', hr', hview⟩ := map_eq_some_iff.mp hstep
    obtain ⟨hnum, hent⟩ := Prod.mk.inj hview
    exact ⟨r, r', hr, hev, hconn, hr', 0, by omega, hent⟩
  · obtain ⟨r, hr, hview⟩ : ∃ r, run step init (ls ++ [.close 1, .addRedisServer ⟨addr₂, []⟩ (.inProgress 2)]) = some r ∧
        (r.iSrvNum, r.vServers 0, r.vServers 1, decide ((r.servers 1).addr = (r.servers 2).addr)) = (2, some 1, some 2, true) :=
      map_eq_some_iff.mp (by decide)
    simp only [Prod.mk.injEq, decide_eq_true_eq] at hview
    exact ⟨r, hr, hview⟩

end ClusterRoute

end RedisProxy
