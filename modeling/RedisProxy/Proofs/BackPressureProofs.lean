import RedisProxy.Proofs.LinksProofs
import RedisProxy.Proofs.IdentyReuseProofs

/-!
# A backend that takes no more requests

`SendMsg` would return `GR_FULL` for a connection whose wait ring or `m_vCiov` is full, but an `ASSERT`
stands before each of these returns. The request that finds a live connection full ends the process; a
connection that is not live leaves its queue as it is and answers the request.
-/

namespace RedisProxy

open Lib List Option Function

namespace RedisEvent

variable {ev ev' : RedisEvent}
variable {sock sock' : Socket} {ret : Ret}

/-- The wait ring or `m_vCiov` has no free cell. -/
def Full (ev : RedisEvent) : Prop :=
  ev.waitRing.toList.length = maxRedisMsgIdentyPool ∨ ev.lCiovWriteIdx - ev.lCiovReadIdx = maxRedisMsgIdentyPool

/-- The indices of `m_vCiov` are in order. -/
def Indexed (ev : RedisEvent) : Prop :=
  ev.lCiovReadIdx ≤ ev.lCiovWriteIdx ∧ ev.lCiovWriteIdx - ev.lCiovReadIdx ≤ maxRedisMsgIdentyPool

/-- A live connection that is not full queues the request. -/
theorem sendMsg_room (hidx : ev.Indexed) (hst : ev.status.Live) (hroom : ¬ev.Full) (m : Msg) (p : Nat) :
    ∃ ev', ev.sendMsg m p = some (.queued ev') := by
  obtain ⟨hle, hnum⟩ := hidx
  unfold sendMsg
  rw [if_neg (by unfold ConnectStatus.Live at hst; tauto), if_neg fun hn => hroom (.inr hn)]
  cases hadd : ev.waitRing.addData p with
  | none => exact absurd (.inl ((ev.waitRing.addData_eq_none_iff p).mp hadd)) hroom
  | some r =>
    have hne : ev.lCiovWriteIdx - ev.lCiovReadIdx ≠ maxRedisMsgIdentyPool := fun hn => hroom (.inr hn)
    dsimp only
    rw [if_pos (by omega)]
    exact ⟨_, rfl⟩

/-- A connection that is not live answers the request. -/
theorem sendMsg_disconnected (hst : ¬ev.status.Live) (m : Msg) (p : Nat) : ev.sendMsg m p = some .disconnected := by
  unfold ConnectStatus.Live at hst
  rw [sendMsg, if_pos (by tauto)]

/-- A full connection that is live ends the process. -/
theorem sendMsg_none (hst : ev.status.Live) (hfull : ev.Full) (m : Msg) (p : Nat) : ev.sendMsg m p = none := by
  unfold sendMsg
  rw [if_neg (by unfold ConnectStatus.Live at hst; tauto)]
  split_ifs with hnum
  · rfl
  · rw [(ev.waitRing.addData_eq_none_iff p).mpr (hfull.resolve_right hnum)]

theorem SendMsgStep.indexed {m : Msg} {p : Nat} (hq : ev.sendMsg m p = some (.queued ev')) : ev'.Indexed :=
  ⟨(sendMsg_queued hq).le, sendMsg_num_le hq⟩

/-- `Sendv` moves the read index by no more than the number of its cells. -/
theorem sendv_index {iov nsend : Nat} (h : ev.sendv iov nsend sock = some (ret, ev', sock')) :
    ev'.lCiovWriteIdx = ev.lCiovWriteIdx ∧ ev.lCiovReadIdx ≤ ev'.lCiovReadIdx ∧
      ev'.lCiovReadIdx ≤ ev.lCiovReadIdx + nsend := by
  have hcount : ∀ (j i i' : Nat), iterOpt (fun i : Nat => some (i + 1)) j i = some i' → i' = i + j := by
    intro j
    induction j with
    | zero =>
      intro i i' h
      exact (some.inj h).symm
    | succ j ih =>
      intro i i' h
      rw [ih (i + 1) i' h]
      omega
  unfold sendv at h
  split_ifs at h
  dsimp only at h
  split_ifs at h
  · cases h
    exact ⟨rfl, le_rfl, Nat.le_add_right ..⟩
  · cases h
    exact ⟨rfl, le_rfl, Nat.le_add_right ..⟩
  · cases h
    exact ⟨rfl, le_rfl, Nat.le_add_right ..⟩
  · split at h
    · cases h
    · rename_i r vCiov lCiovReadIdx hloop
      obtain ⟨j, hj, hiter, -⟩ := sendvLoop_iter _ _ _ _ _ _ hloop
      have hread := hcount j _ _ hiter
      split at h
      · cases h
        exact ⟨rfl, by dsimp only; omega, by dsimp only; omega⟩
      · cases h
        exact ⟨rfl, by dsimp only; omega, by dsimp only; omega⟩

/-- A write event keeps the indices in order: its two calls of `Sendv` have as many cells as there are
requests. -/
theorem writeQueue_indexed (h : ev.writeQueue sock = some (ret, ev', sock')) : ev'.Indexed := by
  unfold writeQueue at h
  split_ifs at h with hidx hempty
  · cases h
    exact hidx
  obtain ⟨hle, hnum⟩ := hidx
  have hcases := wrap_cases hle hnum hempty
  rcases hcases with ⟨hrw, heq⟩ | ⟨hwr, hfirst, hsecond⟩
  · rw [if_pos hrw] at h
    obtain ⟨hw, hr, hr'⟩ := sendv_index h
    exact ⟨by omega, by omega⟩
  · rw [if_neg (by omega)] at h
    split at h
    · cases h
    · rename_i iRet ev₁ sock₁ hs
      obtain ⟨hw, hr, hr'⟩ := sendv_index hs
      split_ifs at h
      · cases h
        exact ⟨by omega, by omega⟩
      · cases h
        exact ⟨by omega, by omega⟩
      · obtain ⟨hw₂, hr₂, hr₂'⟩ := sendv_index h
        exact ⟨by omega, by omega⟩

end RedisEvent

/-! ## The indices of live connections -/

namespace Links

variable {l l' : Links} {b : Nat} {x : Backend} {only calm : Prop} {cfg : Config}

/-- The connections that take requests have their indices in order. -/
def Indexed (l : Links) : Prop := ∀ b, (l.backends b).ev.status.Live → (l.backends b).ev.Indexed

theorem Indexed.set (h : l.Indexed) (hx : x.ev.status.Live → x.ev.Indexed) (ts : List Timer) :
    Indexed { l.set b x with timers := ts } := by
  intro b' hlive
  dsimp only [Links.set] at hlive ⊢
  by_cases hb : b' = b
  · subst hb
    rw [update_self] at hlive ⊢
    exact hx hlive
  · rw [update_of_ne hb] at hlive ⊢
    exact h b' hlive

theorem closed_not_live {y : Backend} (hy : Backend.Closed x y) : ¬y.ev.status.Live := by
  rw [hy.status]
  exact fun h => h.elim nofun nofun

theorem again_indexed (x : Backend) (ulNextTry : Nat) : (x.again ulNextTry).Indexed :=
  ⟨le_rfl, Nat.zero_le _⟩

theorem Indexed.reConnects {mode : RouteMode} {pMeta : Option Nat} (h : l.Indexed)
    (hr : ReConnects mode only l b pMeta l') : l'.Indexed := by
  cases hr with
  | later => exact h
  | retry => exact h.set (fun _ => again_indexed _ _) _
  | opens hev =>
    refine h.set (fun _ => ?_) _
    cases hev with
    | inProgress n => exact ⟨le_rfl, Nat.zero_le _⟩
    | connected n => exact ⟨le_rfl, Nat.zero_le _⟩
  | refused hy => exact h.set (fun hlive => absurd hlive (closed_not_live hy)) _

theorem LinkStep.indexed (h : l.Indexed) (hs : LinkStep cfg calm only l l') : l'.Indexed := by
  cases hs with
  | push _ _ hq => exact h.set (fun _ => RedisEvent.SendMsgStep.indexed hq) _
  | @online b hst _ =>
    refine h.set (fun _ => ?_) _
    exact h b (.inl hst)
  | select _ hq => exact h.set (fun _ => RedisEvent.SendMsgStep.indexed hq) _
  | pop hp =>
    refine h.set (fun hlive => ?_) _
    unfold RedisEvent.popIdenty at hp
    split at hp
    · cases hp
    · cases hp
      exact h _ hlive
  | write _ hw => exact h.set (fun _ => RedisEvent.writeQueue_indexed hw) _
  | cache =>
    refine h.set (fun hlive => ?_) _
    exact h _ hlive
  | close _ hy => exact h.set (fun hlive => absurd hlive (closed_not_live hy)) _
  | restart _ hy _ _ hr => exact (h.set (fun hlive => absurd hlive (closed_not_live hy)) _).reConnects hr
  | timer _ hr => exact h.reConnects hr
  | retime => exact h
  | add hx =>
    have hset := h.set (b := l.nBackends) (fun _ => ⟨by rw [hx.readIdx, hx.writeIdx], by rw [hx.readIdx, hx.writeIdx]; omega⟩) l.timers
    exact hset

theorem LinkSteps.indexed (h : l.Indexed) (hs : LinkSteps cfg calm only l l') : l'.Indexed := by
  induction hs with
  | refl => exact h
  | tail _ hs ih => exact LinkStep.indexed ih hs

end Links

namespace Proxy

variable {w w' : Proxy}
variable {b d p : Nat} {st : Store}

theorem init_indexed : init.links.Indexed := fun _ _ => ⟨le_rfl, Nat.zero_le _⟩

theorem step_indexed (cfg : Config) (w : Proxy) (l : Label) (w' : Proxy) (h : w.links.Indexed)
    (hs : w.step cfg l = some w') : w'.links.Indexed := by
  have hsteps : LinkSteps cfg False False w.links w'.links := step_links False.elim False.elim hs
  exact Links.LinkSteps.indexed h hsteps

/-! ## Requests that find a backend full -/

theorem sendMsg_queued_eq {ev : RedisEvent} (hq : (w.backends b).ev.sendMsg (w.data d) p = some (.queued ev)) :
    w.sendMsg b (some d) p = some (w.queued b d p ev) := by
  dsimp only [sendMsg, setStore, Option.map_some, Option.getD_some]
  rw [hq]
  rfl

theorem sendMsg_disconnected_eq (hd : (w.backends b).ev.sendMsg (w.data d) p = some .disconnected) :
    w.sendMsg b (some d) p = some ((w.setReqData p (some d)).replyError p .disconnect) := by
  dsimp only [sendMsg, setStore, Option.map_some, Option.getD_some]
  rw [hd]
  rfl

theorem queued_ev (w : Proxy) (b d p : Nat) (ev : RedisEvent) : ((w.queued b d p ev).backends b).ev = ev := by
  unfold queued
  simp only [setBackend, update_self]

/-- The request is not queued in a backend that is full. -/
theorem sendMsg_full {pData : Option Nat} (hfull : (w.backends b).ev.Full) (hs : w.sendMsg b pData p = some w') :
    w'.backends = w.backends := by
  rcases sendMsg_some hs with ⟨-, -, rfl⟩ | ⟨d, ev, -, hst, hq, -⟩
  · exact congrArg Links.backends (replyError_links _ _ _)
  · rw [RedisEvent.sendMsg_none hst hfull] at hq
    cases hq

theorem processRequest_full {route : Option Nat} (hfull : ∀ b, route = some b → (w.backends b).ev.Full)
    (hs : w.processRequest c p (.forward route) = some w') : w'.backends = w.backends := by
  dsimp only [processRequest] at hs
  split at hs
  · have hl := congrArg Links.backends (resetClientCache_links hs)
    exact hl.trans (congrArg Links.backends (replyError_links _ _ _))
  · rename_i b hr
    obtain ⟨w₁, h₁, hs⟩ := bind_eq_some_iff.mp hs
    have hb : route = some b := by
      cases route with
      | none => exact absurd hr (by simp [routed])
      | some b' =>
        dsimp only [routed] at hr
        split_ifs at hr
        exact hr
    have hl := congrArg Links.backends (resetClientCache_links hs)
    have hsend : w₁.backends = _ := sendMsg_full (by exact hfull b hb) h₁
    exact hl.trans hsend

/-- A request for a backend that is full leaves all backends as they are. -/
theorem request_full {cfg : Config} {m : Msg} (hfull : (w.backends b).ev.Full)
    (hs : w.step cfg (.request c m (.forward (some b))) = some w') : w'.backends = w.backends := by
  have hid : some w = some w' → w'.backends = w.backends := by
    intro heq
    rw [some.inj heq]
  unfold step at hs
  split_ifs at hs
  · exact hid hs
  dsimp only at hs
  split_ifs at hs
  · exact hid hs
  unfold processMsg at hs
  dsimp only at hs
  split_ifs at hs
  · exact hid hs
  obtain ⟨⟨q, st, ev⟩, -, hs⟩ := bind_eq_some_iff.mp hs
  have hreq : w'.backends = _ := processRequest_full (fun b' hb => by obtain rfl := some.inj hb; exact hfull) hs
  exact hreq

/-- A backend that takes requests has room for one. -/
def RoomAt (w : Proxy) (b : Nat) : Prop := (w.backends b).ev.status.Live → ¬(w.backends b).ev.Full

/-- The backend 0 is connecting and `n` requests wait in it, none of them sent. The newest client is `c`,
which has sent `j` of them. Nothing has been given back to the pools. -/
structure Filled (n c j : Nat) (w : Proxy) : Prop where
  running : w.exited = false
  buffer : w.st.identyBuffer.toList = []
  free : w.st.mem.freePoolList = fun _ => []
  records : w.st.mem.freeMetaData = []
  status : (w.backends 0).ev.status = .connecting
  fd : (w.backends 0).ev.iFD ≠ 0
  le : (w.backends 0).ev.lCiovReadIdx ≤ (w.backends 0).ev.lCiovWriteIdx
  num : (w.backends 0).ev.lCiovWriteIdx - (w.backends 0).ev.lCiovReadIdx = n
  ring : (w.backends 0).ev.waitRing.toList.length = n
  nClients : w.nClients = c + 1
  clientFd : (w.clients c).ev.iFD ≠ 0
  clientRing : (w.clients c).ev.waitRing.toList.length = j
  clientStart : (w.clients c).ev.waitRing.rb.pStart = 0
  clientNext : (w.clients c).ev.ulMsgIdenty = j

/-- New memory comes from the system. -/
theorem getData_fresh {mem : MemPool} (hfree : mem.freePoolList = fun _ => []) (hmeta : mem.freeMetaData = []) (sSize : Nat) :
    ∃ d mem', mem.getData sSize = some (d, mem') ∧ (mem'.freePoolList = fun _ => []) ∧ mem'.freeMetaData = [] := by
  unfold MemPool.getData MemPool.takeMeta
  rw [hfree, hmeta]
  simp only [ite_self]
  exact ⟨_, _, rfl, rfl, rfl⟩

/-- A new identity comes from the system. -/
theorem get_fresh (h : st.identyBuffer.toList = []) :
    ∃ p st', st.get = some (p, st') ∧ st'.ids p = .new false ∧ st'.identyBuffer = st.identyBuffer ∧ st'.mem = st.mem := by
  have htake : st.takeIdenty = (st.nextId, { st.setId st.nextId (.new false) with nextId := st.nextId + 1 }) := by
    unfold Store.takeIdenty
    have hpop := st.identyBuffer.popFront_fst
    rw [h] at hpop
    split
    · rename_i heq
      rw [heq] at hpop
      cases hpop
    · rfl
  have hid : (st.setId st.nextId (.new false)).ids st.nextId = .new false := update_self ..
  unfold Store.get
  rw [htake]
  dsimp only
  rw [if_pos (by rw [hid]; exact ⟨rfl, rfl⟩)]
  refine ⟨_, _, rfl, ?_, rfl, rfl⟩
  dsimp only [Store.setId] at hid ⊢
  rw [update_self, hid]
  rfl

/-- The request gets an identity, which waits in the ring of the client. -/
theorem addIdenty_fresh {ev : AccessEvent} (h : st.identyBuffer.toList = []) (hring : ev.waitRing.toList.length = j)
    (hstart : ev.waitRing.rb.pStart = 0) (hnext : ev.ulMsgIdenty = j) (hj : j < maxWaitRingLen) :
    ∃ p st' ev', AccessEvent.addIdenty c st ev = some (p, st', ev') ∧ st'.identyBuffer = st.identyBuffer ∧ st'.mem = st.mem ∧
      ev'.waitRing.toList.length = j + 1 ∧ ev'.waitRing.rb.pStart = 0 ∧ ev'.ulMsgIdenty = j + 1 ∧ ev'.iFD = ev.iFD := by
  obtain ⟨p, st', hget, hid, hbuf, hmem⟩ := get_fresh h
  have hsome : (ev.waitRing.addDataIdx p ev.ulMsgIdenty).isSome :=
    ev.waitRing.addDataIdx_isSome (by rw [hring]; exact hj) (by rw [hring, hstart, hnext, Nat.zero_add])
  obtain ⟨r, hr⟩ := isSome_iff_exists.mp hsome
  obtain ⟨-, -, hlist, hst⟩ := WaitRing.addDataIdx_some hr
  unfold AccessEvent.addIdenty
  rw [hget]
  dsimp only
  rw [if_pos (by rw [hid]; exact ⟨rfl, rfl, rfl, rfl⟩), hr]
  refine ⟨_, _, _, rfl, hbuf, hmem, ?_, hst.trans hstart, ?_, rfl⟩
  · rw [hlist, length_append, hring, length_singleton]
  · have hlt : j + 1 < uint64Size := lt_of_le_of_lt hj (by decide)
    rw [hnext, Nat.mod_eq_of_lt hlt]

variable {n c j : Nat}

theorem Filled.room (h : Filled n c j w) (hn : n < maxRedisMsgIdentyPool) (m : Msg) (p : Nat) :
    ∃ ev, (w.backends 0).ev.sendMsg m p = some (.queued ev) := by
  refine RedisEvent.sendMsg_room ⟨h.le, h.num.trans_le hn.le⟩ (.inl h.status) ?_ m p
  rintro (hf | hf)
  · rw [h.ring] at hf
    exact absurd hf hn.ne
  · rw [h.num] at hf
    exact absurd hf hn.ne

/-- Another client connects. -/
theorem Filled.accept (h : Filled n c j w) (cfg : Config) (iFD : Nat) :
    ∃ w', w.step cfg (.accept iFD) = some w' ∧ Filled n (c + 1) 0 w' := by
  obtain ⟨d, mem, hd, hfree, hmeta⟩ := getData_fresh h.free h.records 1024
  have hget : w.getData 1024 = some (d, w.setStore { w.st with mem }) := by
    rw [getData, hd]
    rfl
  refine ⟨{ (w.setStore { w.st with mem }).setClient w.nClients ⟨.init (iFD + 1) d, ⟨[], []⟩⟩ with nClients := w.nClients + 1 },
    ?_, ?_⟩
  · rw [step, if_neg (by rw [h.running]; exact nofun)]
    rw [Proxy.accept, hget]
    rfl
  · have hc : (update w.clients w.nClients ⟨.init (iFD + 1) d, ⟨[], []⟩⟩) (c + 1) = ⟨.init (iFD + 1) d, ⟨[], []⟩⟩ := by
      rw [← h.nClients, update_self]
    refine ⟨h.running, h.buffer, hfree, hmeta, h.status, h.fd, h.le, h.num, h.ring, ?_, ?_, ?_, ?_, ?_⟩
    · exact congrArg (· + 1) h.nClients
    all_goals
      dsimp only [setClient, setStore]
      rw [hc]
    · exact Nat.succ_ne_zero _
    · rfl
    · rfl
    · rfl

/-- `SendMsg` queues the request. -/
theorem Filled.sendMsg (h : Filled n c j w) (hn : n < maxRedisMsgIdentyPool) (d p : Nat) :
    ∃ w', w.sendMsg 0 (some d) p = some w' ∧ Filled (n + 1) c j w' := by
  obtain ⟨ev, hq⟩ := h.room hn (w.data d) p
  have hstep := RedisEvent.sendMsg_queued hq
  refine ⟨w.queued 0 d p ev, sendMsg_queued_eq hq, ?_⟩
  refine ⟨h.running, h.buffer, h.free, h.records, ?_, ?_, ?_, ?_, ?_, h.nClients, h.clientFd, h.clientRing, h.clientStart,
    h.clientNext⟩
  all_goals rw [queued_ev]
  · exact hstep.status.trans h.status
  · rw [hstep.fd]
    exact h.fd
  · exact hstep.le
  · rw [hstep.num, h.num]
  · rw [hstep.ring, length_append, h.ring, length_singleton]

/-- The read cache of the client gets a new block. -/
theorem Filled.clientStartNext (h : Filled n c j w) : ∃ w', w.clientStartNext c false = some w' ∧ Filled n c j w' := by
  obtain ⟨d, mem, hd, hfree, hmeta⟩ := getData_fresh h.free h.records (w.st.mem.blocks (w.clients c).ev.pCache).sCapacity
  refine ⟨(w.setStore { w.st with mem }).setClient c { w.clients c with ev := { (w.clients c).ev with pCache := d } }, ?_, ?_⟩
  · rw [Proxy.clientStartNext, resetClientCache, resetCache, getData, hd]
    rfl
  · have hc : (update w.clients c { w.clients c with ev := { (w.clients c).ev with pCache := d } }) c =
        { w.clients c with ev := { (w.clients c).ev with pCache := d } } := update_self ..
    refine ⟨h.running, h.buffer, hfree, hmeta, h.status, h.fd, h.le, h.num, h.ring, h.nClients, ?_, ?_, ?_, ?_⟩
    all_goals
      dsimp only [setClient, setStore]
      rw [hc]
    · exact h.clientFd
    · exact h.clientRing
    · exact h.clientStart
    · exact h.clientNext

/-- Another request of the newest client gets as far as `SendMsg`. -/
theorem Filled.arrive (h : Filled n c j w) (hj : j < maxWaitRingLen) (cfg : Config) (m : Msg) :
    ∃ w' d p, Filled n c (j + 1) w' ∧ w.step cfg (.request c m (.forward (some 0))) =
      (w'.sendMsg 0 (some d) p).bind fun w => w.clientStartNext c false := by
  obtain ⟨p, st, ev, hadd, hbuf, hmem, hring, hstart, hnext, hfd⟩ :=
    addIdenty_fresh h.buffer h.clientRing h.clientStart h.clientNext hj
  obtain ⟨w₁, hw₁⟩ : ∃ w₁, w₁ = (((w.setData (w.clients c).ev.pCache m).setStore st).setClient c
    { w.clients c with ev }).newRequest p := ⟨_, rfl⟩
  have hreq : w.step cfg (.request c m (.forward (some 0))) = w₁.processRequest c p (.forward (some 0)) := by
    have hfull : (w.clients c).ev.waitRing.poolFull = false := by
      rw [Bool.eq_false_iff, ne_eq, WaitRing.poolFull_iff, h.clientRing]
      exact hj.ne
    rw [step, if_neg (by rw [h.running]; exact nofun), if_neg h.clientFd, processMsg, if_neg (by rw [hfull]; exact nofun)]
    change (AccessEvent.addIdenty c w.st (w.clients c).ev).bind _ = _
    rw [hadd, hw₁]
    rfl
  have h₁ : Filled n c (j + 1) w₁ := by
    have hc : (update w.clients c { w.clients c with ev }) c = { w.clients c with ev } := update_self ..
    rw [hw₁]
    refine ⟨h.running, ?_, ?_, ?_, h.status, h.fd, h.le, h.num, h.ring, h.nClients, ?_, ?_, ?_, ?_⟩
    · exact (congrArg WaitRing.toList hbuf).trans h.buffer
    · exact (congrArg MemPool.freePoolList hmem).trans h.free
    · exact (congrArg MemPool.freeMetaData hmem).trans h.records
    all_goals
      dsimp only [setClient, setStore, setData, newRequest]
      rw [hc]
    · rw [hfd]
      exact h.clientFd
    · exact hring
    · exact hstart
    · exact hnext
  obtain ⟨w₂, hw₂⟩ : ∃ w₂, w₂ = w₁.setStore (w₁.st.setId p
    { w₁.st.ids p with iBroadcast := false, pReqData := some (w₁.clients c).ev.pCache }) := ⟨_, rfl⟩
  have h₂ : Filled n c (j + 1) w₂ := by
    rw [hw₂]
    exact ⟨h₁.running, h₁.buffer, h₁.free, h₁.records, h₁.status, h₁.fd, h₁.le, h₁.num, h₁.ring, h₁.nClients, h₁.clientFd,
      h₁.clientRing, h₁.clientStart, h₁.clientNext⟩
  have hroute : w₂.routed (some 0) = some 0 := if_neg h₂.fd
  refine ⟨w₂, (w₁.clients c).ev.pCache, p, h₂, ?_⟩
  rw [hreq]
  dsimp only [processRequest]
  rw [← hw₂, hroute]
  rfl

/-- The backend takes another request of the newest client. -/
theorem Filled.request (h : Filled n c j w) (hn : n < maxRedisMsgIdentyPool) (hj : j < maxWaitRingLen) (cfg : Config) (m : Msg) :
    ∃ w', w.step cfg (.request c m (.forward (some 0))) = some w' ∧ Filled (n + 1) c (j + 1) w' := by
  obtain ⟨w₁, d, p, h₁, hstep⟩ := h.arrive hj cfg m
  obtain ⟨w₂, hsend, h₂⟩ := h₁.sendMsg hn d p
  obtain ⟨w₃, hnext, h₃⟩ := h₂.clientStartNext
  refine ⟨w₃, ?_, h₃⟩
  rw [hstep, hsend]
  exact hnext

/-- A request for the full backend ends the process. -/
theorem Filled.abort (h : Filled maxRedisMsgIdentyPool c j w) (hj : j < maxWaitRingLen) (cfg : Config) (m : Msg) :
    w.step cfg (.request c m (.forward (some 0))) = none := by
  obtain ⟨w₁, d, p, h₁, hstep⟩ := h.arrive hj cfg m
  have hsend : w₁.sendMsg 0 (some d) p = none := by
    rw [eq_none_iff_forall_ne_some]
    intro w₂ hs
    rcases sendMsg_some hs with ⟨hst, -, -⟩ | ⟨d', ev, -, hst, hq, -⟩
    · exact hst h₁.status
    · rw [RedisEvent.sendMsg_none hst (.inl h₁.ring)] at hq
      cases hq
  rw [hstep, hsend]
  rfl

/-- Any number of requests of the newest client. -/
theorem Filled.requests (cfg : Config) (m : Msg) : ∀ (k n j : Nat) (w : Proxy), Filled n c j w →
    n + k ≤ maxRedisMsgIdentyPool → j + k ≤ maxWaitRingLen →
      ∃ w', run (step cfg) w (List.replicate k (.request c m (.forward (some 0)))) = some w' ∧ Filled (n + k) c (j + k) w' := by
  intro k
  induction k with
  | zero =>
    intro n j w h _ _
    exact ⟨w, rfl, h⟩
  | succ k ih =>
    intro n j w h hn hj
    obtain ⟨w₁, h₁, hf⟩ := h.request (by omega) (by omega) cfg m
    obtain ⟨w', h', hf'⟩ := ih (n + 1) (j + 1) w₁ hf (by omega) (by omega)
    refine ⟨w', ?_, ?_⟩
    · rw [replicate_succ, run, h₁]
      exact h'
    · rwa [Nat.add_right_comm, Nat.add_right_comm j] at hf'

/-- The labels with which `k` clients send as many requests as they may, all for the backend 0. -/
def fill (m : Msg) : Nat → List Label
  | 0 => [.addServer (.inProgress 0), .accept 0]
  | k + 1 => fill m k ++ (List.replicate maxWaitRingLen (.request k m (.forward (some 0))) ++ [.accept (k + 1)])

theorem fill_filled (m : Msg) : ∀ k, k * maxWaitRingLen ≤ maxRedisMsgIdentyPool →
    ∃ w, run (step plainConfig) init (fill m k) = some w ∧ Filled (k * maxWaitRingLen) k 0 w := by
  intro k
  induction k with
  | zero =>
    intro _
    exact ⟨_, rfl, rfl, rfl, rfl, rfl, rfl, nofun, Nat.zero_le _, rfl, rfl, rfl, nofun, rfl, rfl, rfl⟩
  | succ k ih =>
    intro hk
    rw [Nat.succ_mul] at hk ⊢
    obtain ⟨w, hw, h⟩ := ih (by omega)
    obtain ⟨w₁, hw₁, h₁⟩ := h.requests plainConfig m maxWaitRingLen _ _ w hk (by omega)
    obtain ⟨w₂, hw₂, h₂⟩ := h₁.accept plainConfig (k + 1)
    refine ⟨w₂, ?_, h₂⟩
    rw [fill, run_append, hw, bind_some, run_append, hw₁, bind_some, run, hw₂]
    rfl

end Proxy

end RedisProxy
