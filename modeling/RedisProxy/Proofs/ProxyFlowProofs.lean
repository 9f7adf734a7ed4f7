import RedisProxy.Proofs.AccessEventProofs
import RedisProxy.Proofs.IdentyFlowProofs
import RedisProxy.Proofs.ProxyProofs

/-!
# Proofs: the proxy follows the flow of identities

`Proxy.flow` forgets the connections, the bytes and the memory. Every step of the proxy is shown to be
a number of steps of the flow.
-/

namespace RedisProxy

open List Option Function

namespace Proxy

/-- The flow of a proxy. -/
def flow (w : Proxy) : Flow where
  ids p := (w.st.ids p).token
  buffer := w.st.identyBuffer.toList
  deleted := w.st.deleted
  nextId := w.st.nextId
  clientRing c := (w.clients c).ev.waitRing.toList
  clientStart c := (w.clients c).ev.waitRing.rb.pStart
  clientNext c := (w.clients c).ev.ulMsgIdenty
  redisRing b := (w.backends b).ev.waitRing.toList
  tags b := (w.backends b).tags
  nBackends := w.nBackends
  serial := w.serial
  nextSerial := w.nextSerial

/-- Connections that do not exist yet. -/
structure Alloc (w : Proxy) : Prop where
  client : ∀ c, w.nClients ≤ c → (w.clients c).ev.iFD = 0 ∧ (w.clients c).ev.waitRing = .empty maxWaitRingLen_pos ∧
    (w.clients c).ev.ulMsgIdenty = 0
  backend : ∀ b, w.nBackends ≤ b → (w.backends b).ev.iFD = 0 ∧ (w.backends b).ev.status = .init
  timer : ∀ t ∈ w.timers, t.server < w.nBackends

/-- What every state of the proxy satisfies. -/
structure Good (w : Proxy) : Prop extends Alloc w where
  wf : w.flow.Wf

/-! ## Writing the state -/

section Write

variable (w : Proxy)

theorem flow_setId (p : Nat) (i : MsgIdenty) : (w.setStore (w.st.setId p i)).flow = w.flow.setId p i.token := by
  unfold flow Flow.setId setStore Store.setId
  congr 1
  funext q
  simp only [update_apply]
  split_ifs <;> rfl

theorem flow_setBackend (b : Nat) (x : Backend) : (w.setBackend b x).flow =
    { w.flow with
      redisRing := Function.update w.flow.redisRing b x.ev.waitRing.toList
      tags := Function.update w.flow.tags b x.tags } := by
  unfold flow setBackend
  congr 1
  · funext b'
    simp only [update_apply]
    split_ifs <;> rfl
  · funext b'
    simp only [update_apply]
    split_ifs <;> rfl

/-- A write that keeps the queue of a backend. -/
theorem flow_setBackend_eq {b : Nat} {x : Backend} (hr : x.ev.waitRing = (w.backends b).ev.waitRing)
    (ht : x.tags = (w.backends b).tags) : (w.setBackend b x).flow = w.flow := by
  rw [flow_setBackend, hr, ht]
  show ({ w.flow with
    redisRing := update w.flow.redisRing b (w.flow.redisRing b)
    tags := update w.flow.tags b (w.flow.tags b) } : Flow) = w.flow
  rw [update_eq_self, update_eq_self]

/-- A write that keeps the queue of a client. -/
theorem flow_setClient_eq {c : Nat} {x : ClientConn} (hr : x.ev.waitRing = (w.clients c).ev.waitRing)
    (hn : x.ev.ulMsgIdenty = (w.clients c).ev.ulMsgIdenty) : (w.setClient c x).flow = w.flow := by
  have hx : ∀ c', (update w.clients c x c').ev.waitRing = (w.clients c').ev.waitRing ∧
      (update w.clients c x c').ev.ulMsgIdenty = (w.clients c').ev.ulMsgIdenty := by
    intro c'
    rw [update_apply]
    split_ifs with hc
    · rw [hc]
      exact ⟨hr, hn⟩
    · exact ⟨rfl, rfl⟩
  unfold flow setClient
  congr 1
  · funext c'
    rw [(hx c').1]
  · funext c'
    rw [(hx c').1]
  · funext c'
    rw [(hx c').2]

/-- A client whose ring is not empty exists. -/
theorem Alloc.lt_of_mem {w : Proxy} (h : w.Alloc) {c p : Nat} (hp : p ∈ w.flow.clientRing c) : c < w.nClients := by
  by_contra hge
  have hempty := (h.client c (Nat.not_lt.mp hge)).2.1
  simp [flow, hempty] at hp

variable {w}

theorem Alloc.setStore (h : w.Alloc) (st : Store) : (w.setStore st).Alloc := ⟨h.client, h.backend, h.timer⟩

theorem Alloc.setData (h : w.Alloc) (d : Nat) (m : Msg) : (w.setData d m).Alloc := ⟨h.client, h.backend, h.timer⟩

theorem Alloc.setClient (h : w.Alloc) {c : Nat} (hc : c < w.nClients) (x : ClientConn) : (w.setClient c x).Alloc := by
  refine ⟨fun c' hc' => ?_, h.backend, h.timer⟩
  simp only [Proxy.setClient]
  rw [update_of_ne (by rintro rfl; exact absurd hc (Nat.not_lt.mpr hc'))]
  exact h.client c' hc'

theorem Alloc.setBackend (h : w.Alloc) {b : Nat} (hb : b < w.nBackends) (x : Backend) : (w.setBackend b x).Alloc := by
  refine ⟨h.client, fun b' hb' => ?_, h.timer⟩
  simp only [Proxy.setBackend]
  rw [update_of_ne (by rintro rfl; exact absurd hb (Nat.not_lt.mpr hb'))]
  exact h.backend b' hb'

/-- A backend with a descriptor exists. -/
theorem Alloc.lt_of_fd (h : w.Alloc) {b : Nat} (hb : (w.backends b).ev.iFD ≠ 0) : b < w.nBackends := by
  by_contra hge
  exact hb (h.backend b (Nat.not_lt.mp hge)).1

/-- So does one that takes requests. -/
theorem Alloc.lt_of_status (h : w.Alloc) {b : Nat}
    (hb : (w.backends b).ev.status = .connecting ∨ (w.backends b).ev.status = .connected) : b < w.nBackends := by
  by_contra hge
  rw [(h.backend b (Nat.not_lt.mp hge)).2] at hb
  exact absurd hb (by simp)

theorem Alloc.client_lt_of_fd (h : w.Alloc) {c : Nat} (hc : (w.clients c).ev.iFD ≠ 0) : c < w.nClients := by
  by_contra hge
  exact hc (h.client c (Nat.not_lt.mp hge)).1

end Write

/-! ## Replies and `Release` -/

section Reply

variable {w w' : Proxy} {p : Nat}

/-- `DoReply`, as far as the flow sees it. -/
theorem doReply_flow (st : Store) (ev : AccessEvent) (pData : Msg) {c : Nat}
    (hc : (st.ids p).pAccessEvent = some (.client c)) :
    ∃ i, (AccessEvent.doReply st ev pData p).1 = st.setId p i ∧ i.token = (st.ids p).token.reply pData.bytes ∧
      (AccessEvent.doReply st ev pData p).2.waitRing = ev.waitRing ∧
      (AccessEvent.doReply st ev pData p).2.ulMsgIdenty = ev.ulMsgIdenty := by
  have hreply := Token.reply_of_client (st.ids p).token pData.bytes ⟨c, hc⟩
  by_cases hpart : AccessEvent.Partial (st.ids p)
  · rw [AccessEvent.doReply_partial pData hpart]
    have hpart' : (st.ids p).token.Partial := hpart
    refine ⟨_, rfl, ?_, rfl, rfl⟩
    rw [hreply, decide_eq_true hpart', Bool.not_true, Bool.or_false]
    rfl
  · obtain ⟨m, hrep, -⟩ := @AccessEvent.doReply_complete st ev p pData hpart
    have hpart' : ¬(st.ids p).token.Partial := hpart
    rw [hrep]
    refine ⟨_, rfl, ?_, rfl, rfl⟩
    rw [hreply, decide_eq_false hpart', Bool.not_false, Bool.or_true]
    rfl

/-- What both replies do to a client. -/
theorem replied_flow {i : MsgIdenty} (pData : Msg) {c : Nat} (hi : i.token = (w.st.ids p).token)
    (hc : i.pAccessEvent = some (.client c)) :
    ((w.setStore (AccessEvent.doReply (w.st.setId p i) (w.clients c).ev pData p).1).setClient c
      { w.clients c with ev := (AccessEvent.doReply (w.st.setId p i) (w.clients c).ev pData p).2 }).flow =
        w.flow.reply p pData.bytes := by
  have hself : (w.st.setId p i).ids p = i := Store.setId_ids_self ..
  obtain ⟨j, hst, hj, hr, hn⟩ := doReply_flow (w.st.setId p i) (w.clients c).ev pData (by rw [hself]; exact hc)
  rw [hst]
  rw [flow_setClient_eq _ hr hn]
  have htwice : (w.st.setId p i).setId p j = w.st.setId p j := by
    simp [Store.setId]
  rw [htwice, flow_setId, hj, hself, hi]
  rfl

theorem replyError_flow (iErr : RspErr) : (w.replyError p iErr).flow = w.flow.reply p (getErrMsg iErr).bytes := by
  unfold replyError
  cases ho : (w.st.ids p).pAccessEvent with
  | none =>
    have hreply : (w.flow.ids p).reply (getErrMsg iErr).bytes = w.flow.ids p :=
      Token.reply_of_not_client _ _ (by rintro ⟨c, hc⟩; exact absurd (hc.symm.trans ho) (by simp))
    simp [Flow.reply, hreply, Flow.setId]
  | some o =>
    cases o with
    | client c => exact replied_flow _ rfl ho
    | redis b =>
      have hreply : (w.flow.ids p).reply (getErrMsg iErr).bytes = w.flow.ids p :=
        Token.reply_of_not_client _ _ (by rintro ⟨c, hc⟩; exact absurd (hc.symm.trans ho) (by simp))
      simp [Flow.reply, hreply, Flow.setId]

theorem getReply_flow (d : Nat) : (w.getReply p d).flow = w.flow.reply p (w.data d).bytes := by
  unfold getReply
  cases ho : (w.st.ids p).pAccessEvent with
  | none =>
    have hreply : (w.flow.ids p).reply (w.data d).bytes = w.flow.ids p :=
      Token.reply_of_not_client _ _ (by rintro ⟨c, hc⟩; exact absurd (hc.symm.trans ho) (by simp))
    simp [Flow.reply, hreply, Flow.setId]
  | some o =>
    cases o with
    | client c => exact replied_flow _ rfl ho
    | redis b =>
      have hreply : (w.flow.ids p).reply (w.data d).bytes = w.flow.ids p :=
        Token.reply_of_not_client _ _ (by rintro ⟨c, hc⟩; exact absurd (hc.symm.trans ho) (by simp))
      rw [flow_setId, Flow.reply, hreply]
      rfl

theorem Good.replyError (h : w.Good) (p : Nat) (iErr : RspErr) : (w.replyError p iErr).Alloc := by
  unfold Proxy.replyError
  split
  · rename_i c hc
    exact (h.toAlloc.setStore (AccessEvent.getReplyErr w.st (w.clients c).ev iErr p).1).setClient
      (h.toAlloc.lt_of_mem ((h.wf.client c p).mp hc)) _
  · exact h.toAlloc

theorem Good.getReply (h : w.Good) (p d : Nat) : (w.getReply p d).Alloc := by
  unfold Proxy.getReply
  split
  · rename_i c hc
    exact (h.toAlloc.setStore (AccessEvent.getReply w.st (w.clients c).ev d (w.data d) p).1).setClient
      (h.toAlloc.lt_of_mem ((h.wf.client c p).mp hc)) _
  · exact h.toAlloc.setStore _
  · exact h.toAlloc

theorem recycle_flow {st : Store} (h : w.st.recycle p = some st) : (w.setStore st).flow = w.flow.recycle p := by
  unfold Store.recycle at h
  cases h₁ : w.st.releaseData (w.st.ids p).pData with
  | none => simp [h₁] at h
  | some st₁ =>
    obtain ⟨mem₁, rfl⟩ := Store.releaseData_some h₁
    simp only [h₁] at h
    cases h₂ : Store.releaseData { w.st with mem := mem₁ } (w.st.ids p).pReqData with
    | none => simp [h₂] at h
    | some st₂ =>
      obtain ⟨mem₂, rfl⟩ := Store.releaseData_some h₂
      simp only [h₂, Store.setId_ids_self] at h
      have hfull := WaitRing.addData_eq_none_iff w.st.identyBuffer p
      unfold Flow.recycle
      by_cases hs : (w.st.ids p).iStaticFlag = true
      · rw [if_pos hs] at h
        rw [if_pos (show (w.flow.ids p).iStaticFlag = true from hs)]
        cases h
        exact flow_setId (w.setStore { w.st with mem := mem₂ }) p
          { w.st.ids p with pData := none, pReqData := none, bRedirect := false }
      · rw [if_neg hs] at h
        rw [if_neg (show ¬(w.flow.ids p).iStaticFlag = true from hs)]
        have hset := flow_setId (w.setStore { w.st with mem := mem₂ }) p
          { w.st.ids p with pData := none, pReqData := none, bRedirect := false }
        cases hadd : w.st.identyBuffer.addData p with
        | none =>
          simp only [Store.setId_buffer, hadd, some.injEq] at h
          obtain rfl := h
          rw [if_pos (show w.flow.buffer.length = _ from hfull.mp hadd)]
          exact congrArg (fun v : Flow => { v with deleted := p :: w.flow.deleted }) hset
        | some buf =>
          obtain ⟨hlt, hbuf, -⟩ := WaitRing.addData_some hadd
          simp only [Store.setId_buffer, hadd, some.injEq] at h
          obtain rfl := h
          rw [if_neg (show ¬w.flow.buffer.length = _ from Nat.ne_of_lt hlt)]
          have hzero := flow_setId (w.setStore { w.st with mem := mem₂ }) p .zero
          have htwice : ∀ st : Store, ∀ i, (st.setId p i).setId p .zero = st.setId p .zero := by
            intro st i
            simp [Store.setId]
          rw [htwice]
          rw [show w.flow.buffer ++ [p] = buf.toList from hbuf.symm]
          exact congrArg (fun v : Flow => { v with buffer := buf.toList }) hzero

theorem release_flow {side : Side} (h : w.release side p = some w') :
    w'.flow = w.flow.release side p ∧
      ((w.flow.ids p).pAccessEvent ≠ none ∨ (w.flow.ids p).pRedisEvent ≠ none ∨ (w.flow.ids p).iStaticFlag = true) := by
  obtain ⟨st, hst, rfl⟩ := release_some h
  unfold Store.release at hst
  dsimp only at hst
  have htok : ((w.st.ids p).letGo side).token = (w.flow.ids p).letGo side := by cases side <;> rfl
  unfold Flow.release
  have hset := flow_setId w p ((w.st.ids p).letGo side)
  rw [htok] at hset
  split_ifs at hst with hheld hnone
  · refine ⟨?_, hheld⟩
    rw [Store.setId_ids_self] at hnone
    have hnone' : ((w.flow.ids p).letGo side).pAccessEvent = none ∧ ((w.flow.ids p).letGo side).pRedisEvent = none := by
      rw [← htok]
      exact hnone
    rw [if_pos hnone', ← hset]
    exact recycle_flow (w := w.setStore (w.st.setId p ((w.st.ids p).letGo side))) hst
  · refine ⟨?_, hheld⟩
    rw [Store.setId_ids_self] at hnone
    have hnone' : ¬(((w.flow.ids p).letGo side).pAccessEvent = none ∧ ((w.flow.ids p).letGo side).pRedisEvent = none) := by
      rw [← htok]
      exact hnone
    rw [if_neg hnone', ← hset]
    rw [← some.inj hst]

end Reply

/-! ## Following the flow -/

/-- The steps of the flow lead to the proxy `w`, with `k` places of `p` in the hands of the code. -/
structure Follows (strict keep last : Prop) (s : FlowState) (w : Proxy) (p k : Nat) (i : Bool) : Prop where
  steps : FlowSteps strict keep last s ⟨w.flow, p, k, i⟩
  alloc : w.Alloc

section Follow

variable {strict keep last : Prop} {s : FlowState} {w w' : Proxy} {p k : Nat} {i : Bool}

theorem Follows.good (h : Follows strict keep last s w p k i) (hs : s.v.Wf) : w.Good := ⟨h.alloc, FlowSteps.wf h.steps hs⟩

theorem Follows.trans {p' k' : Nat} {i' : Bool} (h : Follows strict keep last s w p k i)
    (h' : Follows strict keep last ⟨w.flow, p, k, i⟩ w' p' k' i') : Follows strict keep last s w' p' k' i' :=
  ⟨h.steps.trans h'.steps, h'.alloc⟩

/-- Backends stay. -/
theorem Follows.lt {b : Nat} (h : Follows strict keep last s w p k i) (hb : b < s.v.nBackends) : b < w.nBackends :=
  hb.trans_le (FlowSteps.nBackends_le h.steps)

/-- What the flow does not see. -/
theorem Follows.same (hf : w'.flow = w.flow) (ha : w'.Alloc) : Follows strict keep last ⟨w.flow, p, k, i⟩ w' p k i :=
  ⟨by rw [hf], ha⟩

theorem Good.same (h : w.Good) (hf : w'.flow = w.flow) (ha : w'.Alloc) : w'.Good :=
  ⟨ha, by rw [hf]; exact h.wf⟩

/-- One step. -/
theorem Follows.step {p' k' : Nat} {i' : Bool} {v : Flow} (hv : w'.flow = v) (ha : w'.Alloc)
    (hs : FlowStep strict keep last ⟨w.flow, p, k, i⟩ ⟨v, p', k', i'⟩) :
    Follows strict keep last ⟨w.flow, p, k, i⟩ w' p' k' i' :=
  ⟨.single (by rw [hv]; exact hs), ha⟩

/-- Every text of `GetErrMsg` but that of `PONG` is an error. -/
theorem getErrMsg_isErr (iErr : RspErr) (h : iErr ≠ .pong) : IsErr (getErrMsg iErr).bytes := by
  cases iErr with
  | pong => exact absurd rfl h
  | commErr | disconnect | unspportCmd | moved | toLarge => decide

/-- No `_RESET_` waits for the identity. -/
def Plain (w : Proxy) (p : Nat) : Prop := ¬(w.flow.ids p).IsReset

theorem replyError_follows (h : w.Good) (iErr : RspErr) (hl : last → Plain w p) :
    Follows strict keep last ⟨w.flow, p, 1, false⟩ (w.replyError p iErr) p 0 false :=
  .step (replyError_flow iErr) (h.replyError p iErr) (.refuse fun hlast hreset => absurd hreset (hl hlast))

/-- A reply, or an error, after which the backend lets go of the identity. -/
theorem answered_follows {w₁ : Proxy} {m : List UInt8} (hf : w₁.flow = w.flow.reply p m) (ha : w₁.Alloc)
    (hm : last → w.flow.LastError p m) (hr : w₁.release .redis p = some w') :
    Follows strict keep last ⟨w.flow, p, 1, false⟩ w' p 0 false := by
  obtain ⟨hrel, hheld⟩ := release_flow hr
  obtain ⟨st, -, rfl⟩ := release_some hr
  have hids : w₁.flow.ids p = (w.flow.ids p).reply m := by rw [hf, Flow.reply, Flow.setId_ids_self]
  obtain ⟨hacc, hred, -, -, hst, -⟩ := (w.flow.ids p).reply_keep m
  rw [hids, hacc, hred, hst] at hheld
  rw [hf] at hrel
  exact .step hrel (ha.setStore st) (.answer hheld hm)

/-! ## `SendMsg` -/

theorem setReqData_flow_same (p : Nat) : (w.setReqData p (w.st.ids p).pReqData).flow = w.flow := by
  unfold setReqData
  rw [flow_setId]
  show w.flow.setId p (w.flow.ids p) = w.flow
  simp [Flow.setId]

theorem setReqData_flow (p d : Nat) : (w.setReqData p (some d)).flow = w.flow.setReq p := by
  unfold setReqData
  rw [flow_setId]
  rfl

theorem Good.setReqData (h : w.Good) (p : Nat) (pData : Option Nat) : (w.setReqData p pData).Alloc :=
  h.toAlloc.setStore _

/-- An identity that has its request, or gets it now. -/
structure HasReq (w : Proxy) (p : Nat) (pData : Option Nat) : Prop where
  used : pData ≠ none → ¬w.flow.Idle p
  same : pData = none → (w.st.ids p).pReqData = none

theorem setReqData_follows (h : w.Good) {q : Nat} {pData : Option Nat} (hd : HasReq w q pData) :
    Follows strict keep last ⟨w.flow, p, k, i⟩ (w.setReqData q pData) p k i := by
  cases pData with
  | none =>
    have hsame := setReqData_flow_same (w := w) q
    rw [hd.same rfl] at hsame
    exact .same hsame (h.setReqData q none)
  | some d => exact .step (setReqData_flow q d) (h.setReqData q _) (.setReq q (hd.used (by simp)))

theorem queued_flow {b d : Nat} {ev : RedisEvent} (hq : (w.backends b).ev.sendMsg (w.data d) p = some (.queued ev)) :
    (w.queued b d p ev).flow = (w.setReqData p (some d)).flow.push b p := by
  have hring := (RedisEvent.sendMsg_queued hq).ring
  unfold queued
  rw [flow_setBackend, flow_setId]
  rw [hring]
  rfl

theorem Alloc.queued (h : w.Alloc) {b d : Nat} (hb : b < w.nBackends) {ev : RedisEvent} : (w.queued b d p ev).Alloc := by
  refine Alloc.setBackend ?_ ?_ _
  · exact (h.setStore _).setStore _
  · exact hb

/-- `setReq` keeps what the flow needs to know about a `_RESET_`. -/
theorem setReqData_ids (p d : Nat) : ((w.setReqData p (some d)).flow.ids p) = { w.flow.ids p with hasReq := true } := by
  rw [setReqData_flow]
  exact Flow.setId_ids_self ..

theorem Plain.setReqData (h : Plain w p) (pData : Option Nat) : Plain (w.setReqData p pData) p := by
  unfold Plain Proxy.setReqData
  rw [flow_setId, Flow.setId_ids_self]
  exact h

/-- The identity in the hands of the code is queued. -/
theorem queued_follows (h : w.Good) {b d : Nat} {ev : RedisEvent} (hp : ¬w.flow.Idle p)
    (hl : last → (w.flow.ids p).IsReset → i = true ∧ (w.flow.ids p).iGotNum = 0)
    (hst : (w.backends b).ev.status = .connecting ∨ (w.backends b).ev.status = .connected)
    (hq : (w.backends b).ev.sendMsg (w.data d) p = some (.queued ev)) :
    Follows strict keep last ⟨w.flow, p, k + 1, i⟩ (w.queued b d p ev) p k i := by
  have hb := h.toAlloc.lt_of_status hst
  have hreq : Follows strict keep last ⟨w.flow, p, k + 1, i⟩ (w.setReqData p (some d)) p (k + 1) i :=
    setReqData_follows h ⟨fun _ => hp, fun hn => absurd hn (by simp)⟩
  refine hreq.trans (.step (queued_flow hq) ?_ (.push ?_ hb ?_))
  · exact h.toAlloc.queued hb
  · rw [setReqData_flow]
    exact hp
  · rw [setReqData_ids]
    exact hl

/-- `SendMsg` outside of `Broadcast`. -/
theorem sendMsg_follows (h : w.Good) {b : Nat} {pData : Option Nat} (hd : HasReq w p pData) (hl : last → Plain w p)
    (hs : w.sendMsg b pData p = some w') : Follows strict keep last ⟨w.flow, p, 1, false⟩ w' p 0 false := by
  rcases sendMsg_some hs with ⟨-, -, rfl⟩ | ⟨d, ev, rfl, hst, hq, rfl⟩
  · have hreq : Follows strict keep last ⟨w.flow, p, 1, false⟩ (w.setReqData p pData) p 1 false := setReqData_follows h hd
    exact hreq.trans (replyError_follows (hreq.good h.wf) .disconnect fun hlast => (hl hlast).setReqData pData)
  · exact queued_follows h (hd.used (by simp)) (fun hlast hreset => absurd hreset (hl hlast)) hst hq

/-- `SendMsg` for the static identity, which nobody waits for. -/
theorem sendAsking_follows (h : w.Good) {b d : Nat} (hs : w.sendMsg b (some d) Store.askingIdenty = some w') :
    Follows strict keep last ⟨w.flow, p, k, i⟩ w' p k i := by
  have hused := h.wf.asking.1
  have hreq : Follows strict keep last ⟨w.flow, p, k, i⟩ (w.setReqData Store.askingIdenty (some d)) p k i :=
    setReqData_follows h ⟨fun _ => hused, fun hn => absurd hn (by simp)⟩
  have hgood := hreq.good h.wf
  rcases sendMsg_some hs with ⟨-, -, rfl⟩ | ⟨d', ev, hd, hst, hq, rfl⟩
  · -- the error goes to nobody
    refine hreq.trans (.same ?_ (hgood.replyError _ _))
    have hnone := hgood.wf.asking.2
    rw [replyError_flow, Flow.reply, Token.reply_of_not_client _ _]
    · simp [Flow.setId]
    · rintro ⟨c, hc⟩
      rw [hnone] at hc
      cases hc
  · cases hd
    have hb := h.toAlloc.lt_of_status hst
    refine hreq.trans (.step (queued_flow hq) ?_ (.pushAsking hb))
    exact h.toAlloc.queued hb

/-! ## `Get` -/

/-- A blank identity is taken from the pool. -/
structure Fetched (st st' : Store) (p : Nat) : Prop where
  id : p = st.identyBuffer.toList.head?.getD st.nextId
  tok : (st'.ids p).token =
    { (if st.identyBuffer.toList = [] then (MsgIdenty.new false).token else (st.ids p).token) with iBroadcast := false }
  other : ∀ q, q ≠ p → st'.ids q = st.ids q
  buffer : st'.identyBuffer.toList = st.identyBuffer.toList.tail
  nextId : st'.nextId = if st.identyBuffer.toList = [] then st.nextId + 1 else st.nextId
  deleted : st'.deleted = st.deleted

theorem get_fetched {st st' : Store} {p : Nat} (h : st.get = some (p, st')) : Fetched st st' p := by
  have hpair : st.identyBuffer.popFront = (st.identyBuffer.toList.head?, st.identyBuffer.popFront.2) :=
    Prod.ext st.identyBuffer.popFront_fst rfl
  have htail := st.identyBuffer.popFront_toList
  unfold Store.get Store.takeIdenty at h
  rw [hpair] at h
  cases hl : st.identyBuffer.toList with
  | nil =>
    rw [hl] at h
    dsimp only [head?_nil] at h
    split_ifs at h
    cases h
    refine ⟨by rw [hl]; rfl, ?_, fun q hq => ?_, ?_, ?_, rfl⟩
    · rw [Store.setId_ids_self, hl, if_pos rfl]
      rw [Store.setId_ids_self]
      rfl
    · rw [Store.setId_ids_ne _ hq]
      exact Store.setId_ids_ne _ hq _
    · rw [hl]
      exact hl
    · rw [hl, if_pos rfl]
      rfl
  | cons q l =>
    rw [hl] at h htail
    dsimp only [head?_cons] at h
    split_ifs at h
    cases h
    refine ⟨by rw [hl]; rfl, ?_, fun r hr => Store.setId_ids_ne _ hr _, ?_, ?_, rfl⟩
    · rw [Store.setId_ids_self, hl, if_neg (by simp)]
      rfl
    · rw [hl]
      exact htail
    · rw [hl, if_neg (by simp)]
      rfl

/-- `Get` hands out the identity that the flow expects. -/
theorem Fetched.eq_next {st : Store} (h : Fetched w.st st p) : p = w.flow.nextIdenty := h.id

theorem Fetched.token {st : Store} (h : Fetched w.st st p) : (st.ids p).token = w.flow.fetched := by
  rw [h.tok, h.eq_next]
  rfl

theorem Fetched.flow {st : Store} (h : Fetched w.st st p) (j : MsgIdenty) :
    ((w.setStore (st.setId p j)).newRequest p).flow = w.flow.take j.token := by
  have hids : (fun q => ((st.setId p j).ids q).token) = update w.flow.ids p j.token := by
    funext q
    rw [Store.setId_ids, update_apply]
    split_ifs with hq
    · rfl
    · rw [h.other q hq]
      rfl
  have hbuf : st.identyBuffer.toList = w.flow.buffer.tail := h.buffer
  have hnext : st.nextId = if w.flow.buffer = [] then w.flow.nextId + 1 else w.flow.nextId := h.nextId
  have hdel : st.deleted = w.flow.deleted := h.deleted
  unfold Flow.take Flow.setId
  rw [← h.eq_next, ← hids, ← hbuf, ← hnext, ← hdel]
  rfl

theorem setData_flow (w : Proxy) (d : Nat) (m : Msg) : (w.setData d m).flow = w.flow := rfl

theorem getData_same {d sSize : Nat} (h : w.Good) (hg : w.getData sSize = some (d, w')) :
    w'.flow = w.flow ∧ w'.Alloc := by
  obtain ⟨mem, -, rfl⟩ := getData_some hg
  exact ⟨rfl, h.toAlloc.setStore _⟩

/-! ## Connections to the backends -/

variable {cfg : Config} {b : Nat}

/-- No `_RESET_` in the ring of the backend `b` waits for another server. -/
def Alone (v : Flow) (b : Nat) : Prop := ∀ p ∈ v.redisRing b, (v.ids p).IsReset → v.inFlight p = 1

/-- A step that changes one identity only, which is no `_RESET_`. -/
theorem Alone.elsewhere {s s' : FlowState} (h : Alone s.v b) (he : Elsewhere s s' p) (hp : ¬(s'.v.ids p).IsReset)
    (hr : ∀ q ∈ s'.v.redisRing b, q = p ∨ q ∈ s.v.redisRing b) : Alone s'.v b := by
  intro q hq hreset
  have hqp : q ≠ p := by
    rintro rfl
    exact hp hreset
  rw [he.inFlight q hqp]
  rw [he.ids q hqp] at hreset
  exact h q ((hr q hq).resolve_left hqp) hreset

theorem Alone.setId {v : Flow} (h : Alone v b) {t : Token} (ht : ¬t.IsReset) : Alone (v.setId p t) b := by
  have he : Elsewhere ⟨v, p, 0, false⟩ ⟨v.setId p t, p, 0, false⟩ p := Flow.setId_elsewhere t
  refine h.elsewhere he ?_ (fun q hq => .inr hq)
  rw [Flow.setId_ids_self]
  exact ht

theorem sendMsg_alone (h : w.Good) {b' : Nat} (ha : Alone w.flow b') {pData : Option Nat} (hp : Plain w p)
    (hs : w.sendMsg b pData p = some w') : Alone w'.flow b' := by
  have hreq : Alone (w.setReqData p pData).flow b' := by
    unfold setReqData
    rw [flow_setId]
    exact ha.setId hp
  rcases sendMsg_some hs with ⟨-, -, rfl⟩ | ⟨d, ev, rfl, hst, hq, rfl⟩
  · rw [replyError_flow]
    refine hreq.setId ?_
    obtain ⟨hacc, -, -, hbc, -⟩ := ((w.setReqData p pData).flow.ids p).reply_keep (getErrMsg .disconnect).bytes
    rintro ⟨⟨c, hc⟩, hb⟩
    rw [hacc] at hc
    rw [hbc] at hb
    exact hp.setReqData pData ⟨⟨c, hc⟩, hb⟩
  · rw [queued_flow hq]
    have he : Elsewhere ⟨(w.setReqData p (some d)).flow, p, 1, false⟩
        ⟨(w.setReqData p (some d)).flow.push b p, p, 0, false⟩ p :=
      Flow.push_elsewhere (h.toAlloc.lt_of_status hst)
    refine hreq.elsewhere he ?_ (fun q hq => ?_)
    · show ¬(((w.setReqData p (some d)).flow.setId p _).ids p).IsReset
      rw [Flow.setId_ids_self]
      exact hp.setReqData (some d)
    · have hq : q ∈ update (w.setReqData p (some d)).flow.redisRing b _ b' := hq
      rw [update_apply] at hq
      split_ifs at hq with hb
      · rw [hb]
        exact (mem_append.mp hq).symm.imp mem_singleton.mp id
      · exact .inr hq

theorem connectSuccess_follows (h : w.Good) (hs : w.connectSuccess cfg b = some w') (q : Nat) :
    (∃ q', Follows strict keep last ⟨w.flow, q, 0, false⟩ w' q' 0 false) ∧
      (Alone w.flow b → Alone w'.flow b) := by
  unfold connectSuccess at hs
  split_ifs at hs
  · obtain ⟨⟨d, w₁⟩, h₁, hs⟩ := bind_eq_some_iff.mp hs
    obtain ⟨⟨p, st⟩, h₂, hs⟩ := bind_eq_some_iff.mp hs
    obtain ⟨hflow, halloc⟩ := getData_same h h₁
    have hgood : (w₁.setData d (selectCmd (cfg.iDB b))).Good := ⟨halloc.setData _ _, by
      rw [setData_flow, hflow]
      exact h.wf⟩
    have hf := get_fetched h₂
    set j : MsgIdenty := { st.ids p with pAccessEvent := some (.redis b), isSelect := true }
    have htok : j.token = { w.flow.fetched with pAccessEvent := some (.redis b) } := by
      have := Fetched.token hf
      rw [setData_flow, hflow] at this
      rw [← this]
      rfl
    have hflow₂ := Fetched.flow hf j
    rw [setData_flow, hflow, htok] at hflow₂
    have hnext : p = w.flow.nextIdenty := by
      rw [← hflow]
      exact Fetched.eq_next hf
    have hsel : Follows strict keep last ⟨w.flow, q, 0, false⟩
        (((w₁.setData d (selectCmd (cfg.iDB b))).setStore (st.setId p j)).newRequest p) p 1 false := by
      rw [hnext] at hflow₂ ⊢
      refine .step hflow₂ ?_ .select
      exact ⟨hgood.client, hgood.backend, hgood.timer⟩
    have hplain : Plain (((w₁.setData d (selectCmd (cfg.iDB b))).setStore (st.setId p j)).newRequest p) p := by
      rintro ⟨⟨c, hc⟩, -⟩
      rw [hflow₂, hnext, Flow.take_ids, if_pos rfl] at hc
      exact absurd hc (by simp)
    refine ⟨⟨p, hsel.trans (sendMsg_follows (hsel.good h.wf) ⟨fun _ => ?_, fun hn => absurd hn (by simp)⟩
      (fun _ => hplain) hs)⟩, fun ha => sendMsg_alone (hsel.good h.wf) ?_ hplain hs⟩
    · rw [hflow₂]
      intro hidle
      exact ((h.wf.take_idle _ p).mp hidle).2 hnext
    · have he : Elsewhere ⟨w.flow, q, 0, false⟩
          ⟨w.flow.take { w.flow.fetched with pAccessEvent := some (.redis b) }, w.flow.nextIdenty, 1, false⟩
          w.flow.nextIdenty := Flow.take_elsewhere h.wf w.flow.clientRing w.flow.clientNext
      unfold Plain at hplain
      rw [hflow₂] at hplain ⊢
      rw [hnext] at hplain
      exact ha.elsewhere he hplain (fun r hr => .inr hr)
  · cases hs
    exact ⟨⟨q, .same rfl h.toAlloc⟩, id⟩

theorem connectResult_follows (h : w.Good) (hb : b < w.nBackends) {bConnected : Bool} {iRet : Ret}
    (hs : w.connectResult cfg b bConnected = some (iRet, w')) (q : Nat) :
    (∃ q', Follows strict keep last ⟨w.flow, q, 0, false⟩ w' q' 0 false) ∧
      (Alone w.flow b → Alone w'.flow b) := by
  obtain ⟨⟨r, ev⟩, h₁, hs⟩ := bind_eq_some_iff.mp hs
  have hring : ev.waitRing = (w.backends b).ev.waitRing := by
    rcases RedisEvent.connectResult_some h₁ with ⟨-, -, rfl⟩ | ⟨-, -, rfl⟩ | ⟨-, -, rfl⟩ <;> rfl
  have hsame : (w.setEvent b ev).flow = w.flow := flow_setBackend_eq w hring rfl
  have halloc : (w.setEvent b ev).Alloc := h.toAlloc.setBackend hb _
  dsimp only at hs
  split_ifs at hs
  · obtain ⟨w₁, h₂, hs⟩ := bind_eq_some_iff.mp hs
    cases hs
    rw [← hsame]
    exact connectSuccess_follows (h.same hsame halloc) h₂ q
  · cases hs
    exact ⟨⟨q, .same hsame halloc⟩, by rw [hsame]; exact id⟩

/-- What closing a backend does: its ring is drained, and the others stay. -/
structure Drained (strict keep last : Prop) (w : Proxy) (b n : Nat) (w' : Proxy) : Prop where
  follows : ∀ q, ∃ q', Follows strict keep last ⟨w.flow, q, 0, false⟩ w' q' 0 false
  ring : w'.flow.redisRing b = (w.flow.redisRing b).drop n
  backends : w'.nBackends = w.nBackends
  now : w'.now = w.now

theorem replyError_frame (w : Proxy) (p : Nat) (iErr : RspErr) :
    (w.replyError p iErr).backends = w.backends ∧ (w.replyError p iErr).nBackends = w.nBackends ∧
      (w.replyError p iErr).now = w.now ∧ (w.replyError p iErr).timers = w.timers := by
  unfold replyError
  split <;> exact ⟨rfl, rfl, rfl, rfl⟩

/-- The front of such a ring is in no other ring. -/
theorem Alone.front {v : Flow} {l : List Nat} (h : Alone v b) (hw : v.Wf) (hl : v.redisRing b = p :: l)
    (m : List UInt8) : (v.pop b).LastError p m := by
  intro hreset _
  have hone := h p (by rw [hl]; exact mem_cons_self) hreset
  have hcount := Flow.pop_inFlight hw hl p
  rw [if_pos rfl] at hcount
  omega

/-- What stays in the ring when its front has been answered. -/
theorem Alone.answered {v : Flow} {l : List Nat} (h : Alone v b) (hw : v.Wf) (hl : v.redisRing b = p :: l)
    (m : List UInt8) : Alone (((v.pop b).reply p m).release .redis p) b := by
  intro q hq hreset
  obtain ⟨hring, -⟩ := ((v.pop b).reply p m).release_frame .redis p
  have htail : (v.pop b).redisRing b = l := by simp [Flow.pop, hl]
  have hql : q ∈ l := by
    rw [hring] at hq
    rw [← htail]
    exact hq
  have hmem : q ∈ v.redisRing b := by
    rw [hl]
    exact mem_cons_of_mem _ hql
  by_cases hqp : q = p
  · subst hqp
    have hv : (v.ids q).IsReset := by
      obtain ⟨⟨c, hc⟩, hb⟩ := hreset
      have hrel := Flow.release_ids hc
      rw [hrel] at hc hb
      obtain ⟨hacc, -, -, hbc, -⟩ := (v.ids q).reply_keep m
      have hids : ((v.pop b).reply q m).ids q = (v.ids q).reply m := Flow.setId_ids_self ..
      rw [hids] at hc hb
      exact ⟨⟨c, by rw [← hacc]; exact hc⟩, by rw [← hbc]; exact hb⟩
    have hone := h q hmem hv
    have hle := v.count_le_inFlight (hw.ring_lt hmem) q
    have htwo : 0 < l.count q := count_pos_iff.mpr hql
    rw [hl, count_cons_self] at hle
    omega
  · have he : Elsewhere ⟨v.pop b, p, 1, false⟩ ⟨((v.pop b).reply p m).release .redis p, p, 0, false⟩ p :=
      Flow.answer_elsewhere
    have hpop : Elsewhere ⟨v, 0, 0, false⟩ ⟨v.pop b, p, 1, false⟩ p := Flow.pop_elsewhere hw hl
    have hids := (he.ids q hqp).trans (hpop.ids q hqp)
    have hfl := (he.inFlight q hqp).trans (hpop.inFlight q hqp)
    rw [hids] at hreset
    rw [hfl]
    exact h q hmem hreset

theorem drain_follows (b : Nat) : ∀ (n : Nat) (w w' : Proxy), w.Good → b < w.nBackends →
    (last → Alone w.flow b) → drain b n w = some w' → Drained strict keep last w b n w' := by
  intro n
  induction n with
  | zero =>
    intro w w' h _ _ hd
    cases hd
    exact ⟨fun q => ⟨q, .same rfl h.toAlloc⟩, rfl, rfl, rfl⟩
  | succ n ih =>
    intro w w' h hb halone hd
    unfold drain at hd
    cases hp : (w.backends b).ev.popIdenty with
    | none =>
      rw [hp] at hd
      cases hd
      have hnil : w.flow.redisRing b = [] := RedisEvent.popIdenty_none hp
      exact ⟨fun q => ⟨q, .same rfl h.toAlloc⟩, by rw [hnil]; rfl, rfl, rfl⟩
    | some r =>
      obtain ⟨p, ev⟩ := r
      rw [hp] at hd
      obtain ⟨w₂, h₂, hd⟩ := bind_eq_some_iff.mp hd
      obtain ⟨hring, -⟩ := RedisEvent.popIdenty_some hp
      set w₁ := w.setBackend b { w.backends b with ev, tags := (w.backends b).tags.tail } with hw₁
      have hflow₁ : w₁.flow = w.flow.pop b := by
        rw [hw₁, flow_setBackend]
        unfold Flow.pop
        rw [show w.flow.redisRing b = p :: ev.waitRing.toList from hring]
        rfl
      have hpop : ∀ q, Follows strict keep last ⟨w.flow, q, 0, false⟩ w₁ p 1 false :=
        fun q => .step hflow₁ (h.toAlloc.setBackend hb _) (.pop hring)
      have hgood₁ := (hpop 0).good h.wf
      have hans : Follows strict keep last ⟨w₁.flow, p, 1, false⟩ w₂ p 0 false :=
        answered_follows (replyError_flow .disconnect) (hgood₁.replyError p .disconnect)
          (fun hlast => by rw [hflow₁]; exact (halone hlast).front h.wf hring _) h₂
      have hflow₂ : w₂.flow = ((w.flow.pop b).reply p (getErrMsg .disconnect).bytes).release .redis p := by
        rw [(release_flow h₂).1, replyError_flow, hflow₁]
      obtain ⟨hf₁, hf₂, hf₃, -⟩ := replyError_frame w₁ p .disconnect
      obtain ⟨st, -, rfl⟩ := release_some h₂
      have hd' := ih _ w' (hans.good hgood₁.wf) (by
        show b < (w₁.replyError p .disconnect).nBackends
        rw [hf₂]
        exact hb) (fun hlast => by rw [hflow₂]; exact (halone hlast).answered h.wf hring _) hd
      refine ⟨fun q => ?_, ?_, ?_, ?_⟩
      · obtain ⟨q', hq'⟩ := hd'.follows p
        exact ⟨q', ((hpop q).trans hans).trans hq'⟩
      · rw [hd'.ring]
        show (((w₁.replyError p .disconnect).backends b).ev.waitRing.toList).drop n = _
        rw [hf₁]
        have htail : w₁.flow.redisRing b = (w.flow.redisRing b).tail := by
          rw [hflow₁]
          exact update_self ..
        show (w₁.flow.redisRing b).drop n = _
        rw [htail, ← drop_one, drop_drop, Nat.add_comm]
      · rw [hd'.backends]
        exact hf₂
      · rw [hd'.now]
        exact hf₃

theorem redisClose_follows (h : w.Good) (hfd : (w.backends b).ev.iFD ≠ 0) (halone : last → Alone w.flow b)
    (hs : w.redisClose b = some w') : Drained strict keep last w b (w.flow.redisRing b).length w' := by
  unfold redisClose at hs
  rw [if_neg hfd, WaitRing.getNum_eq] at hs
  have hb := h.toAlloc.lt_of_fd hfd
  set ev : RedisEvent := { (w.backends b).ev with iFD := 0, mask := .none, status := .closed }
  have hsame : (w.setEvent b ev).flow = w.flow := flow_setBackend_eq w rfl rfl
  have hgood := h.same hsame (h.toAlloc.setBackend hb _)
  have hd : Drained strict keep last _ b _ w' := drain_follows b _ _ _ hgood hb (by rw [hsame]; exact halone) hs
  refine ⟨fun q => ?_, ?_, hd.backends, hd.now⟩
  · rw [← hsame]
    exact hd.follows q
  · have hring := hd.ring
    rw [hsame] at hring
    exact hring

/-! ## Reconnecting -/

theorem Drained.empty {w w' : Proxy} {n : Nat} (h : Drained strict keep last w b n w') (hn : (w.flow.redisRing b).length ≤ n) :
    w'.flow.redisRing b = [] := by
  rw [h.ring, drop_eq_nil_of_le hn]

/-- What reconnecting does to timers and the list of backends. -/
theorem Alloc.addTimer (h : w.Alloc) (hb : b < w.nBackends) (ulMS : Nat) : (w.addTimer b ulMS).Alloc := by
  refine ⟨h.client, h.backend, fun t ht => ?_⟩
  rcases mem_cons.mp ht with rfl | ht
  · exact hb
  · exact h.timer t ht

theorem reConnectLater_same (h : w.Alloc) (hb : b < w.nBackends) (pMeta : Option Nat) :
    (w.reConnectLater b pMeta).flow = w.flow ∧ (w.reConnectLater b pMeta).Alloc := by
  cases pMeta with
  | none => exact ⟨rfl, h.addTimer hb 10⟩
  | some idx => exact ⟨rfl, h⟩

theorem reConnectSoon_same (h : w.Alloc) (hb : b < w.nBackends) (hs : w.reConnectSoon b = some w') :
    w'.flow = w.flow ∧ w'.Alloc ∧ w'.nBackends = w.nBackends := by
  unfold reConnectSoon at hs
  split_ifs at hs
  cases hs
  exact ⟨rfl, h.addTimer hb 10, rfl⟩

theorem reConnectRetry_same (h : w.Alloc) (hb : b < w.nBackends) (tmpMS : Nat) (pMeta : Option Nat) :
    (w.reConnectRetry b tmpMS pMeta).flow = w.flow ∧ (w.reConnectRetry b tmpMS pMeta).Alloc := by
  cases pMeta with
  | none => exact ⟨rfl, h.addTimer hb tmpMS⟩
  | some idx => exact ⟨rfl, h⟩

theorem reConnectDone_same (h : w.Alloc) (pMeta : Option Nat) :
    (w.reConnectDone pMeta).flow = w.flow ∧ (w.reConnectDone pMeta).Alloc := by
  cases pMeta with
  | none => exact ⟨rfl, h⟩
  | some idx => exact ⟨rfl, h.client, h.backend, fun t ht => h.timer t (mem_of_mem_filter ht)⟩

theorem startEpoch_same (h : w.Alloc) (hb : b < w.nBackends) (ev : RedisEvent)
    (hr : ev.waitRing = (w.backends b).ev.waitRing) :
    (w.startEpoch b ev).flow = w.flow ∧ (w.startEpoch b ev).Alloc :=
  ⟨flow_setBackend_eq w hr rfl, h.setBackend hb _⟩

/-- A failed connection: there is nothing in the ring that could be lost. -/
theorem connectFailed_follows (h : w.Good) (hfd : (w.backends b).ev.iFD ≠ 0) (hnil : w.flow.redisRing b = [])
    (hs : w.connectFailed cfg b = some w') (q : Nat) : ∃ q', Follows strict keep last ⟨w.flow, q, 0, false⟩ w' q' 0 false ∧ w'.nBackends = w.nBackends := by
  obtain ⟨w₁, h₁, hs⟩ := bind_eq_some_iff.mp hs
  have halone : Alone w.flow b := by
    intro p hp
    rw [hnil] at hp
    exact absurd hp not_mem_nil
  have hd : Drained strict keep last w b _ w₁ := redisClose_follows h hfd (fun _ => halone) h₁
  obtain ⟨q', hq'⟩ := hd.follows q
  have hb₁ : b < w₁.nBackends := by
    rw [hd.backends]
    exact h.toAlloc.lt_of_fd hfd
  cases hm : cfg.mode with
  | twem =>
    rw [hm] at hs
    obtain ⟨w₂, h₂, hs⟩ := bind_eq_some_iff.mp hs
    obtain ⟨hf₂, ha₂, hn₂⟩ := reConnectSoon_same hq'.alloc hb₁ h₂
    obtain ⟨hf₃, ha₃, hn₃⟩ := reConnectSoon_same ha₂ (by rw [hn₂]; exact hb₁) hs
    exact ⟨q', hq'.trans (.same (hf₃.trans hf₂) ha₃), by rw [hn₃, hn₂, hd.backends]⟩
  | cluster =>
    rw [hm] at hs
    cases hs
    exact ⟨q', hq', hd.backends⟩
  | tiny =>
    rw [hm] at hs
    cases hs
    exact ⟨q', hq'.trans (.same rfl ⟨hq'.alloc.client, hq'.alloc.backend, hq'.alloc.timer⟩), hd.backends⟩

/-- `ReConnect`: `ReInit` empties the ring. -/
theorem reConnect_follows (h : w.Good) (hb : b < w.nBackends) {pMeta : Option Nat} {conn : Connect}
    (hkeep : keep → (w.backends b).ev.ulNextTry ≤ w.now → w.flow.redisRing b = [])
    (hs : w.reConnect cfg b pMeta conn = some w') (q : Nat) :
    ∃ q', Follows strict keep last ⟨w.flow, q, 0, false⟩ w' q' 0 false := by
  unfold reConnect at hs
  dsimp only at hs
  split_ifs at hs with hnow
  · cases hs
    obtain ⟨hf, ha⟩ := reConnectLater_same h.toAlloc hb pMeta
    exact ⟨q, .same hf ha⟩
  · set ev : RedisEvent := ({ (w.backends b).ev with
      ulMaxTryConnect := (w.backends b).ev.ulMaxTryConnect + 1
      ulNextTry := w.now + min (((w.backends b).ev.ulMaxTryConnect + 1) * 100) 1000 } : RedisEvent).reInit
    set w₁ := w.setBackend b { w.backends b with
      ev, tags := [], reInits := (w.backends b).reInits ++ [(w.backends b).ev.status] } with hw₁
    have hflow : w₁.flow = w.flow.wipe b := by
      rw [hw₁, flow_setBackend]
      rfl
    have hwipe : Follows strict keep last ⟨w.flow, q, 0, false⟩ w₁ q 0 false :=
      .step hflow (h.toAlloc.setBackend hb _) (.wipe fun hk => hkeep hk (Nat.not_lt.mp hnow))
    have hgood := hwipe.good h.wf
    have hself : (w₁.backends b).ev = ev := by
      rw [hw₁]
      simp [setBackend]
    cases conn with
    | socketError =>
      cases hs
      obtain ⟨hf, ha⟩ := reConnectRetry_same hwipe.alloc hb _ pMeta
      exact ⟨q, hwipe.trans (.same hf ha)⟩
    | inProgress n =>
      cases hs
      obtain ⟨hf, ha⟩ := startEpoch_same hwipe.alloc hb (ev.connectInProgress (n + 1)) (by rw [hself]; rfl)
      obtain ⟨hf', ha'⟩ := reConnectDone_same ha pMeta
      exact ⟨q, hwipe.trans (.same (hf'.trans hf) ha')⟩
    | connected n =>
      cases hs
      obtain ⟨hf, ha⟩ := startEpoch_same hwipe.alloc hb
        { ev with iFD := n + 1, mask := ev.mask.addRW (n + 1) } (by rw [hself])
      obtain ⟨hf', ha'⟩ := reConnectDone_same ha pMeta
      exact ⟨q, hwipe.trans (.same (hf'.trans hf) ha')⟩
    | refused n =>
      obtain ⟨w₂, h₂, hs⟩ := bind_eq_some_iff.mp hs
      cases hs
      obtain ⟨hf, ha⟩ := startEpoch_same hwipe.alloc hb
        { ev with iFD := n + 1, mask := ev.mask.addRW (n + 1) } (by rw [hself])
      have hepoch := hgood.same hf ha
      have hnil : (w₁.startEpoch b { ev with iFD := n + 1, mask := ev.mask.addRW (n + 1) }).flow.redisRing b = [] := by
        rw [hf, hflow]
        exact update_self ..
      obtain ⟨q', hq', hn⟩ := connectFailed_follows hepoch (by simp [startEpoch, setBackend]) hnil h₂ q
      rw [hf] at hq'
      obtain ⟨hf', ha'⟩ := reConnectRetry_same hq'.alloc (by rw [hn]; exact hb) _ pMeta
      exact ⟨q', (hwipe.trans hq').trans (.same hf' ha')⟩

/-- The ring is empty when a closed backend reconnects. -/
theorem closeReConnect_follows (h : w.Good) (hfd : (w.backends b).ev.iFD ≠ 0) (halone : last → Alone w.flow b)
    {conn : Connect} (hs : ((w.redisClose b).bind fun w => w.reConnect cfg b none conn) = some w') (q : Nat) :
    ∃ q', Follows strict keep last ⟨w.flow, q, 0, false⟩ w' q' 0 false := by
  obtain ⟨w₁, h₁, hs⟩ := bind_eq_some_iff.mp hs
  have hd : Drained strict keep last w b _ w₁ := redisClose_follows h hfd halone h₁
  obtain ⟨q₁, hq₁⟩ := hd.follows q
  have hb : b < w₁.nBackends := by
    rw [hd.backends]
    exact h.toAlloc.lt_of_fd hfd
  obtain ⟨q₂, hq₂⟩ := reConnect_follows (hq₁.good h.wf) hb (fun _ _ => hd.empty le_rfl) hs q₁
  exact ⟨q₂, hq₁.trans hq₂⟩

theorem backendClose_follows (h : w.Good) (hfd : (w.backends b).ev.iFD ≠ 0) (halone : last → Alone w.flow b)
    {conn : Connect} (hs : w.backendClose cfg b conn = some w') (hexit : w'.exited = false) (q : Nat) :
    ∃ q', Follows strict keep last ⟨w.flow, q, 0, false⟩ w' q' 0 false := by
  unfold backendClose at hs
  cases hm : cfg.mode with
  | twem =>
    rw [hm] at hs
    dsimp only at hs
    rw [if_neg hfd] at hs
    exact closeReConnect_follows h hfd halone hs q
  | cluster =>
    rw [hm] at hs
    exact (redisClose_follows h hfd halone hs).follows q
  | tiny =>
    rw [hm] at hs
    dsimp only at hs
    split_ifs at hs with htimes
    · obtain ⟨w₁, -, hs⟩ := bind_eq_some_iff.mp hs
      cases hs
      cases hexit
    · set w₁ := w.setBackend b { w.backends b with lConnectSuccessTimes := 0 } with hw₁
      have hsame : w₁.flow = w.flow := flow_setBackend_eq w rfl rfl
      have hgood := h.same hsame (h.toAlloc.setBackend (h.toAlloc.lt_of_fd hfd) _)
      have hself : (w₁.backends b).ev = (w.backends b).ev := by
        rw [hw₁]
        simp [setBackend]
      rw [← hsame]
      exact closeReConnect_follows hgood (by rw [hself]; exact hfd) (by rw [hsame]; exact halone) hs q

/-- A tiny backend that has not selected its database ends the process. -/
theorem backendClose_exits {conn : Connect} (hm : cfg.mode = .tiny) (ht : (w.backends b).lConnectSuccessTimes = 0)
    (hs : w.backendClose cfg b conn = some w') : w'.exited = true := by
  unfold backendClose at hs
  rw [hm] at hs
  dsimp only at hs
  rw [if_pos (.inl ht)] at hs
  obtain ⟨w₁, -, hs⟩ := bind_eq_some_iff.mp hs
  cases hs
  rfl

/-- Closing a backend with an empty ring. -/
theorem redisClose_nil (h : w.Alloc) (hb : b < w.nBackends) (hr : (w.backends b).ev.waitRing.toList = [])
    (hs : w.redisClose b = some w') : w'.flow = w.flow ∧ w'.Alloc := by
  unfold redisClose at hs
  dsimp only at hs
  split_ifs at hs
  · cases hs
    exact ⟨rfl, h⟩
  · rw [WaitRing.getNum_eq, hr] at hs
    cases hs
    exact ⟨flow_setBackend_eq w rfl rfl, h.setBackend hb _⟩

theorem addServer_follows (h : w.Good) {conn : Connect} {bOk : Bool} (hs : w.addServer cfg conn = some (bOk, w')) :
    Follows strict keep last ⟨w.flow, p, k, i⟩ w' p k i ∧ w'.flow.ids = w.flow.ids := by
  unfold addServer at hs
  split_ifs at hs with hfull
  · cases hs
    exact ⟨.same rfl ⟨h.client, h.backend, h.timer⟩, rfl⟩
  · obtain ⟨⟨pCache, w₁⟩, h₁, hs⟩ := bind_eq_some_iff.mp hs
    obtain ⟨mem, -, rfl⟩ := getData_some h₁
    set x : Backend := ⟨.init, pCache, 0, ⟨[], []⟩, [], [], [], []⟩ with hx
    set w₂ : Proxy := { (w.setStore { w.st with mem }).setBackend w.nBackends x with
      nBackends := w.nBackends + 1
      vServers := w.vServers ++ [some w.nBackends] }
    have hflow : w₂.flow = w.flow.addServer := by
      have hset := flow_setBackend (w.setStore { w.st with mem }) w.nBackends x
      have hring : update w.flow.redisRing w.nBackends [] = w.flow.redisRing := by
        rw [← h.wf.empty w.nBackends le_rfl, update_eq_self]
      show ({ ((w.setStore { w.st with mem }).setBackend w.nBackends x).flow with nBackends := w.nBackends + 1 } : Flow) = _
      rw [hset]
      show ({ w.flow with
        redisRing := update w.flow.redisRing w.nBackends []
        tags := update w.flow.tags w.nBackends []
        nBackends := w.nBackends + 1 } : Flow) = _
      rw [hring]
      rfl
    have halloc : w₂.Alloc := by
      refine ⟨h.client, fun b hb => ?_, fun t ht => Nat.lt_succ_of_lt (h.timer t ht)⟩
      rw [show w₂.backends b = w.backends b from update_of_ne (Nat.ne_of_gt hb) ..]
      exact h.backend b (Nat.le_of_succ_le hb)
    have hself : w₂.backends w.nBackends = x := update_self ..
    have hlt : w.nBackends < w₂.nBackends := Nat.lt_succ_self _
    have hadd : Follows strict keep last ⟨w.flow, p, k, i⟩ w₂ p k i := .step hflow halloc .addServer
    have hids : ∀ w₃ : Proxy, w₃.flow = w₂.flow → w₃.flow.ids = w.flow.ids := by
      intro w₃ hw₃
      rw [hw₃, hflow]
      rfl
    cases conn with
    | inProgress n =>
      cases hs
      obtain ⟨hf, ha⟩ := startEpoch_same halloc hlt (x.ev.connectInProgress (n + 1)) (by rw [hself]; rfl)
      exact ⟨hadd.trans (.same hf ha), hids _ hf⟩
    | connected n =>
      cases hs
      obtain ⟨hf, ha⟩ := startEpoch_same halloc hlt
        { x.ev with iFD := n + 1, mask := x.ev.mask.addRW (n + 1) } (by rw [hself])
      exact ⟨hadd.trans (.same hf ha), hids _ hf⟩
    | socketError =>
      cases hs
      exact ⟨hadd.trans (.same rfl ⟨halloc.client, halloc.backend, halloc.timer⟩), hids _ rfl⟩
    | refused n =>
      obtain ⟨w₃, h₃, hs⟩ := bind_eq_some_iff.mp hs
      cases hs
      obtain ⟨hf, ha⟩ := startEpoch_same halloc hlt
        { x.ev with iFD := n + 1, mask := x.ev.mask.addRW (n + 1) } (by rw [hself])
      obtain ⟨hf', ha'⟩ := redisClose_nil ha hlt (by simp [startEpoch, setBackend, hx, RedisEvent.init]) h₃
      exact ⟨hadd.trans (.same (hf'.trans hf) ⟨ha'.client, ha'.backend, ha'.timer⟩), hids _ (hf'.trans hf)⟩

/-! ## Requests -/

variable {c : Nat}

theorem resetClientCache_same (h : w.Alloc) (hc : c < w.nClients) {sSize : Nat} {bRelease : Bool}
    (hs : w.resetClientCache c sSize bRelease = some w') : w'.flow = w.flow ∧ w'.Alloc := by
  obtain ⟨pCache, mem, mem', -, -, rfl⟩ := resetClientCache_some hs
  exact ⟨flow_setClient_eq (w.setStore { w.st with mem := mem' }) rfl rfl,
    (h.setStore { w.st with mem := mem' }).setClient hc _⟩

theorem resetBackendCache_same (h : w.Alloc) (hb : b < w.nBackends) {sSize : Nat} {bRelease : Bool}
    (hs : w.resetBackendCache b sSize bRelease = some w') : w'.flow = w.flow ∧ w'.Alloc := by
  obtain ⟨pCache, mem, mem', -, -, rfl⟩ := resetBackendCache_some hs
  exact ⟨flow_setBackend_eq (w.setStore { w.st with mem := mem' }) rfl rfl,
    (h.setStore { w.st with mem := mem' }).setBackend hb _⟩

/-- The end of a request: the client gets another block for the next one. -/
theorem Follows.startNext (hf : Follows strict keep last s w p k i) (hc : c < w.nClients) {bRelease : Bool}
    (hs : w.clientStartNext c bRelease = some w') : Follows strict keep last s w' p k i := by
  obtain ⟨hflow, halloc⟩ := resetClientCache_same hf.alloc hc hs
  exact hf.trans (.same hflow halloc)

/-- All servers in the list can be reached and none has been skipped, or none can be reached and none has
been asked. -/
def Uniform (w : Proxy) (p : Nat) (l : List (Option Nat)) : Prop :=
  ((w.flow.ids p).iGotNum = 0 ∧ ∀ s ∈ l, w.ConnectOK s) ∨
    ((w.flow.ids p).pRedisEvent = none ∧ ∀ s ∈ l, ¬w.ConnectOK s)

theorem Uniform.skipped {pServer : Option Nat} {l : List (Option Nat)} (h : Uniform w p (pServer :: l))
    (hno : ¬w.ConnectOK pServer) : (w.flow.ids p).pRedisEvent = none ∧ Uniform (w.skipped p) p l := by
  have hflow : (w.skipped p).flow = w.flow.skip p := flow_setId ..
  rcases h with ⟨-, hall⟩ | ⟨hnone, hall⟩
  · exact absurd (hall pServer mem_cons_self) hno
  · refine ⟨hnone, .inr ⟨?_, fun s hs => hall s (mem_cons_of_mem _ hs)⟩⟩
    rw [hflow, Flow.skip, Flow.setId_ids_self]
    exact hnone

theorem Uniform.queued {pServer : Option Nat} {l : List (Option Nat)} (h : Uniform w p (pServer :: l))
    (hok : w.ConnectOK pServer) {d : Nat} {ev : RedisEvent}
    (hq : (w.backends b).ev.sendMsg (w.data d) p = some (.queued ev)) :
    (w.flow.ids p).iGotNum = 0 ∧ Uniform (w.queued b d p ev) p l := by
  rcases h with ⟨hgot, hall⟩ | ⟨-, hall⟩
  · refine ⟨hgot, .inl ⟨?_, fun s hs => ?_⟩⟩
    · rw [queued_flow hq, setReqData_flow]
      show (((w.flow.setReq p).setId p _).ids p).iGotNum = 0
      rw [Flow.setId_ids_self, Flow.setReq, Flow.setId_ids_self]
      exact hgot
    · have hs := hall s (mem_cons_of_mem _ hs)
      cases s with
      | none => exact hs
      | some b' =>
        show ((w.queued b d p ev).backends b').ev.status = _ ∨ ((w.queued b d p ev).backends b').ev.status = _
        rw [queued_status hq b']
        exact hs
  · exact absurd hok (hall pServer mem_cons_self)

/-- The loop of `Broadcast`: each server is one of the places in the hands of the code. -/
theorem broadcastLoop_follows : ∀ (l : List (Option Nat)) (w w' : Proxy), w.Good → (w.flow.ids p).OfClient →
    (last → Uniform w p l) → broadcastLoop p l w = some w' →
    Follows strict keep last ⟨w.flow, p, l.length, true⟩ w' p 0 true := by
  intro l
  induction l with
  | nil =>
    intro w w' h _ _ hs
    cases hs
    exact .same rfl h.toAlloc
  | cons pServer l ih =>
    intro w w' h hcl hl hs
    obtain ⟨w₁, hs, h₁⟩ := broadcastLoop_cons hs
    have hidle : ¬w.flow.Idle p := by
      obtain ⟨c, hc⟩ := hcl
      exact h.wf.not_idle (.inl (by rw [hc]; simp))
    have hone : Follows strict keep last ⟨w.flow, p, l.length + 1, true⟩ w₁ p l.length true ∧
        (w₁.flow.ids p).OfClient ∧ (last → Uniform w₁ p l) := by
      rcases h₁ with ⟨hno, rfl⟩ | ⟨b, d, ev, rfl, hok, -, hq, rfl⟩
      · have hflow : (w.skipped p).flow = w.flow.skip p := flow_setId ..
        refine ⟨.step hflow (h.toAlloc.setStore _) (.skip hcl fun hlast => ((hl hlast).skipped hno).1), ?_,
          fun hlast => ((hl hlast).skipped hno).2⟩
        rw [hflow, Flow.skip, Flow.setId_ids_self]
        exact hcl
      · refine ⟨queued_follows h hidle (fun hlast _ => ⟨rfl, ((hl hlast).queued hok hq).1⟩) hok hq, ?_,
          fun hlast => ((hl hlast).queued hok hq).2⟩
        obtain ⟨c, hc⟩ := hcl
        refine ⟨c, ?_⟩
        rw [queued_flow hq, setReqData_flow]
        show (((w.flow.setReq p).setId p _).ids p).pAccessEvent = _
        rw [Flow.setId_ids_self, Flow.setReq, Flow.setId_ids_self]
        exact hc
    obtain ⟨hfol, hcl₁, hl₁⟩ := hone
    exact hfol.trans (ih w₁ w' (hfol.good h.wf) hcl₁ hl₁ hs)

/-- A request that has just got its identity. -/
structure Asked (w : Proxy) (c p : Nat) : Prop where
  owner : (w.flow.ids p).pAccessEvent = some (.client c)
  lt : c < w.nClients
  broadcast : (w.flow.ids p).iBroadcast = false
  got : (w.flow.ids p).iGotNum = 0
  done : (w.flow.ids p).iWaitDone = false
  redis : (w.flow.ids p).pRedisEvent = none

theorem Asked.plain (h : Asked w c p) : Plain w p := by
  rintro ⟨-, hb⟩
  rw [h.broadcast] at hb
  cases hb

/-- The servers of the route agree about being reachable. -/
def Agree (w : Proxy) : Prop := (∀ s ∈ w.vServers, w.ConnectOK s) ∨ ∀ s ∈ w.vServers, ¬w.ConnectOK s

theorem broadcast_follows (h : w.Good) (ha : Asked w c p) (hl : last → Agree w) (hs :
    (w.setStore (w.st.setId p { w.st.ids p with iBroadcast := true, pReqData := some MemPool.flushdbCmd })).broadcast p =
      some w') : Follows strict keep last ⟨w.flow, p, 1, false⟩ w' p 0 false := by
  set j : MsgIdenty := { w.st.ids p with iBroadcast := true, pReqData := some MemPool.flushdbCmd }
  set w₁ := w.setStore (w.st.setId p j) with hw₁
  set w₂ := w₁.setStore (w₁.st.setId p { w₁.st.ids p with iNeedWaitNum := w₁.vServers.length }) with hw₂
  obtain ⟨w₃, h₃, hs⟩ := bind_eq_some_iff.mp hs
  have hflow : w₂.flow = w.flow.broadcast p w.vServers.length := by
    rw [hw₂, flow_setId, hw₁, flow_setId]
    have hself : (w.setStore (w.st.setId p j)).st.ids p = j := Store.setId_ids_self ..
    rw [hself]
    show (w.flow.setId p j.token).setId p _ = w.flow.setId p _
    simp only [Flow.setId, update_idem]
    rfl
  have hstart : Follows strict keep last ⟨w.flow, p, 1, false⟩ w₂ p w.vServers.length true :=
    .step hflow ((h.toAlloc.setStore _).setStore _) (.broadcast ⟨c, ha.owner⟩ ha.broadcast ha.got ha.done)
  have hcl : (w₂.flow.ids p).OfClient := by
    refine ⟨c, ?_⟩
    rw [hflow, Flow.broadcast, Flow.setId_ids_self]
    exact ha.owner
  have hids : w₂.flow.ids p =
      { w.flow.ids p with iBroadcast := true, iNeedWaitNum := w.vServers.length, hasReq := true } := by
    rw [hflow]
    exact Flow.setId_ids_self ..
  have huniform : last → Uniform w₂ p w.vServers := by
    intro hlast
    unfold Uniform
    rw [hids]
    exact (hl hlast).imp (fun hall => ⟨ha.got, hall⟩) (fun hall => ⟨ha.redis, hall⟩)
  have hall := hstart.trans (broadcastLoop_follows _ _ _ (hstart.good h.wf) hcl huniform h₃)
  split_ifs at hs with hgot
  · cases hs
    exact hall.trans (.step (replyError_flow .commErr) ((hall.good h.wf).replyError p .commErr)
      (.nobody hgot (getErrMsg_isErr .commErr (by simp))))
  · cases hs
    exact hall.trans (.step rfl hall.alloc (.sent hgot))

theorem replyError_nClients (w : Proxy) (p : Nat) (iErr : RspErr) : (w.replyError p iErr).nClients = w.nClients := by
  unfold replyError
  split <;> rfl

theorem getReply_nClients (w : Proxy) (p d : Nat) : (w.getReply p d).nClients = w.nClients := by
  unfold getReply
  split <;> rfl

theorem sendMsg_nClients {pData : Option Nat} (hs : w.sendMsg b pData p = some w') : w'.nClients = w.nClients := by
  rcases sendMsg_some hs with ⟨-, -, rfl⟩ | ⟨d, ev, -, -, -, rfl⟩
  · exact replyError_nClients ..
  · rfl

theorem broadcastLoop_nClients : ∀ (l : List (Option Nat)) (w w' : Proxy), broadcastLoop p l w = some w' →
    w'.nClients = w.nClients := by
  intro l
  induction l with
  | nil =>
    intro w w' hs
    rw [← some.inj hs]
  | cons pServer l ih =>
    intro w w' hs
    obtain ⟨w₁, hs, h₁⟩ := broadcastLoop_cons hs
    rw [ih w₁ w' hs]
    rcases h₁ with ⟨-, rfl⟩ | ⟨b, d, ev, -, -, -, -, rfl⟩
    · rfl
    · rfl

theorem broadcast_nClients (hs : w.broadcast p = some w') : w'.nClients = w.nClients := by
  obtain ⟨w₁, h₁, hs⟩ := bind_eq_some_iff.mp hs
  have hloop := broadcastLoop_nClients _ _ _ h₁
  split_ifs at hs
  · rw [← some.inj hs, replyError_nClients, hloop]
    rfl
  · rw [← some.inj hs, hloop]
    rfl

/-- The request is `_RESET_`. -/
def Request.IsReset : Request → Prop
  | .reset => True
  | .answer _ | .clusterSlots _ | .forward _ => False

theorem processRequest_follows (h : w.Good) (ha : Asked w c p) {req : Request}
    (hl : last → req.IsReset → Agree w) (hs : w.processRequest c p req = some w') : Follows strict keep last ⟨w.flow, p, 1, false⟩ w' p 0 false := by
  have hidle : ¬w.flow.Idle p := h.wf.not_idle (.inl (by rw [ha.owner]; simp))
  cases req with
  | answer iErr =>
    exact (replyError_follows h iErr fun _ => ha.plain).startNext (by rw [replyError_nClients]; exact ha.lt) hs
  | clusterSlots rsp =>
    obtain ⟨⟨d, w₁⟩, h₁, hs⟩ := bind_eq_some_iff.mp hs
    obtain ⟨mem, -, rfl⟩ := getData_some h₁
    set w₂ := (w.setStore { w.st with mem }).setData d rsp
    have hgood : w₂.Good := h.same rfl ((h.toAlloc.setStore _).setData _ _)
    have hreply : Follows strict keep last ⟨w₂.flow, p, 1, false⟩ (w₂.getReply p d) p 0 false :=
      .step (getReply_flow d) (hgood.getReply p d) (.refuse fun _ hreset => absurd hreset ha.plain)
    exact hreply.startNext (by rw [getReply_nClients]; exact ha.lt) hs
  | forward route =>
    unfold processRequest at hs
    dsimp only at hs
    set j : MsgIdenty := { w.st.ids p with iBroadcast := false, pReqData := some (w.clients c).ev.pCache } with hj
    set w₁ := w.setStore (w.st.setId p j) with hw₁
    have hflow : w₁.flow = w.flow.setReq p := by
      rw [hw₁, flow_setId, Flow.setReq]
      congr 1
      have hb : (w.st.ids p).iBroadcast = false := ha.broadcast
      simp only [hj, MsgIdenty.token, Token.mk.injEq, isSome_some]
      exact ⟨rfl, rfl, rfl, rfl, rfl, hb.symm, rfl, rfl, trivial, rfl⟩
    have hreq : Follows strict keep last ⟨w.flow, p, 1, false⟩ w₁ p 1 false :=
      .step hflow (h.toAlloc.setStore _) (.setReq p hidle)
    have hgood := hreq.good h.wf
    have hplain : Plain w₁ p := by
      unfold Plain
      rw [hflow, Flow.setReq, Flow.setId_ids_self]
      exact ha.plain
    cases hroute : w₁.routed route with
    | none =>
      rw [hroute] at hs
      exact (hreq.trans (replyError_follows hgood .disconnect fun _ => hplain)).startNext
        (by rw [replyError_nClients]; exact ha.lt) hs
    | some b =>
      rw [hroute] at hs
      obtain ⟨w₂, h₂, hs⟩ := bind_eq_some_iff.mp hs
      have hsend : Follows strict keep last ⟨w₁.flow, p, 1, false⟩ w₂ p 0 false := by
        refine sendMsg_follows hgood ⟨fun _ => ?_, fun hn => absurd hn (by simp)⟩ (fun _ => hplain) h₂
        rw [hflow]
        exact hidle
      exact (hreq.trans hsend).startNext (by rw [sendMsg_nClients h₂]; exact ha.lt) hs
  | reset =>
    obtain ⟨w₁, h₁, hs⟩ := bind_eq_some_iff.mp hs
    have hb : Follows strict keep last ⟨w.flow, p, 1, false⟩ w₁ p 0 false := 
      broadcast_follows h ha (fun hlast => hl hlast trivial) h₁
    exact hb.startNext (by rw [broadcast_nClients h₁]; exact ha.lt) hs

/-- The start of `ProcessMsg`: the request takes its place in the ring of its client. -/
theorem addIdenty_follows (h : w.Good) (hc : c < w.nClients) {st : Store} {ev : AccessEvent}
    (hs : AccessEvent.addIdenty c w.st (w.clients c).ev = some (p, st, ev)) (q : Nat) :
    Follows strict keep last ⟨w.flow, q, 0, false⟩
      (((w.setStore st).setClient c { w.clients c with ev }).newRequest p) p 1 false ∧
      Asked (((w.setStore st).setClient c { w.clients c with ev }).newRequest p) c p := by
  unfold AccessEvent.addIdenty at hs
  cases hg : w.st.get with
  | none => simp [hg] at hs
  | some r =>
    obtain ⟨p₁, st₁⟩ := r
    simp only [hg] at hs
    split_ifs at hs with hnull
    cases hadd : (w.clients c).ev.waitRing.addDataIdx p₁ (w.clients c).ev.ulMsgIdenty with
    | none => simp [hadd] at hs
    | some waitRing =>
      simp only [hadd, some.injEq, Prod.mk.injEq] at hs
      obtain ⟨rfl, rfl, rfl⟩ := hs
      have hf := get_fetched hg
      obtain ⟨hlt, hcell, hring, hstart⟩ := WaitRing.addDataIdx_some hadd
      set j : MsgIdenty := { st₁.ids p₁ with
        pAccessEvent := some (.client c), ulIndex := (w.clients c).ev.ulMsgIdenty, iWaitRsp := true }
      set ev : AccessEvent := { (w.clients c).ev with
        waitRing, ulMsgIdenty := ((w.clients c).ev.ulMsgIdenty + 1) % uint64Size }
      have htok : j.token = { w.flow.fetched with pAccessEvent := some (.client c), ulIndex := w.flow.clientNext c } := by
        rw [← hf.token]
        rfl
      have htake := hf.flow j
      rw [htok] at htake
      set w₁ := ((w.setStore (st₁.setId p₁ j)).setClient c { w.clients c with ev }).newRequest p₁
      have hflow : w₁.flow = w.flow.ask c := by
        have hcr : (fun c' => (update w.clients c ⟨ev, (w.clients c).sock⟩ c').ev.waitRing.toList) =
            update w.flow.clientRing c (w.flow.clientRing c ++ [p₁]) := by
          funext c'
          simp only [update_apply]
          split_ifs
          · exact hring
          · rfl
        have hcs : (fun c' => (update w.clients c ⟨ev, (w.clients c).sock⟩ c').ev.waitRing.rb.pStart) =
            w.flow.clientStart := by
          funext c'
          simp only [update_apply]
          split_ifs with hcc
          · rw [hcc]
            exact hstart
          · rfl
        have hcn : (fun c' => (update w.clients c ⟨ev, (w.clients c).sock⟩ c').ev.ulMsgIdenty) =
            update w.flow.clientNext c ((w.flow.clientNext c + 1) % uint64Size) := by
          funext c'
          simp only [update_apply]
          split_ifs
          · rfl
          · rfl
        unfold Flow.ask
        rw [← htake, ← hf.eq_next, ← hcr, ← hcn]
        show _ = ({ ((w.setStore (st₁.setId p₁ j)).newRequest p₁).flow with
          clientRing := _, clientStart := w.flow.clientStart, clientNext := _ } : Flow)
        rw [← hcs]
        rfl
      have halloc : w₁.Alloc := by
        have := (h.toAlloc.setStore (st₁.setId p₁ j)).setClient hc ⟨ev, (w.clients c).sock⟩
        exact ⟨this.client, this.backend, this.timer⟩
      have hids : w₁.flow.ids p₁ = j.token := by
        show ((st₁.setId p₁ j).ids p₁).token = _
        rw [Store.setId_ids_self]
      have hblank := h.wf.fetched_blank
      refine ⟨?_, ⟨by rw [hids]; rfl, hc, ?_, ?_, ?_, ?_⟩⟩
      · have hnext := hf.eq_next
        have hstep : FlowStep strict keep last ⟨w.flow, q, 0, false⟩ ⟨w.flow.ask c, w.flow.nextIdenty, 1, false⟩ :=
          .ask hlt hcell
        rw [← hnext] at hstep
        exact .step hflow halloc hstep
      · rw [hids, htok]
        exact hblank.broadcast
      · rw [hids, htok]
        exact hblank.got
      · rw [hids, htok]
        exact hblank.done
      · rw [hids, htok]
        exact hblank.redis

theorem processMsg_follows (h : w.Good) (hc : c < w.nClients) {m : Msg} {req : Request}
    (hl : last → req.IsReset → Agree w) (hs : w.processMsg c m req = some w') (q : Nat) :
    ∃ q', Follows strict keep last ⟨w.flow, q, 0, false⟩ w' q' 0 false := by
  unfold processMsg at hs
  dsimp only at hs
  split_ifs at hs
  · cases hs
    exact ⟨q, .same rfl h.toAlloc⟩
  · obtain ⟨⟨p, st, ev⟩, h₁, hs⟩ := bind_eq_some_iff.mp hs
    have hgood : (w.setData (w.clients c).ev.pCache m).Good := h.same rfl (h.toAlloc.setData _ _)
    obtain ⟨hfol, hasked⟩ := addIdenty_follows hgood hc h₁ q
    exact ⟨p, hfol.trans (processRequest_follows (hfol.good h.wf) hasked hl hs)⟩

/-! ## Clients -/

theorem accept_same (h : w.Alloc) {iFD : Nat} (hs : w.accept iFD = some w') : w'.flow = w.flow ∧ w'.Alloc := by
  obtain ⟨⟨pCache, w₁⟩, h₁, hs⟩ := bind_eq_some_iff.mp hs
  obtain ⟨mem, -, rfl⟩ := getData_some h₁
  cases hs
  obtain ⟨-, hring, hnext⟩ := h.client w.nClients le_rfl
  refine ⟨?_, ?_⟩
  · have := flow_setClient_eq (w.setStore { w.st with mem }) (x := ⟨.init (iFD + 1) pCache, ⟨[], []⟩⟩)
      hring.symm hnext.symm
    exact this
  · refine ⟨fun c hc => ?_, h.backend, h.timer⟩
    have hne : c ≠ w.nClients := Nat.ne_of_gt hc
    simp only [setClient, setStore, update_of_ne hne]
    exact h.client c (Nat.le_of_succ_le hc)

/-- The ring of a client loses its front. -/
theorem popClient_flow (w : Proxy) (c : Nat) {ring : WaitRing maxWaitRingLen Nat} {l : List Nat}
    (hl : w.flow.clientRing c = p :: l) (hr : ring.toList = l)
    (hstart : ring.rb.pStart = (w.flow.clientStart c + 1) % maxWaitRingLen) {x : ClientConn}
    (hx : x.ev.waitRing = ring) (hn : x.ev.ulMsgIdenty = w.flow.clientNext c) :
    (w.setClient c x).flow = w.flow.popClient c := by
  unfold Flow.popClient
  rw [hl, tail_cons]
  unfold flow setClient
  congr 1
  · funext c'
    simp only [update_apply]
    split_ifs
    · rw [hx, hr]
    · rfl
  · funext c'
    simp only [update_apply]
    split_ifs
    · rw [hx, hstart]
      rfl
    · rfl
  · funext c'
    simp only [update_apply]
    split_ifs with hc
    · rw [hn, hc]
      rfl
    · rfl

/-- The broadcasts that a client would leave behind. -/
def Leaves (v : Flow) (c : Nat) : Prop := ∀ p ∈ v.clientRing c, (v.ids p).iBroadcast = true → v.Safe p 0

theorem release_clientRing (v : Flow) (side : Side) (p : Nat) : (v.release side p).clientRing = v.clientRing := by
  unfold Flow.release Flow.recycle
  dsimp only
  split_ifs <;> rfl

theorem Leaves.safe {v v' : Flow} (h : Leaves v c) (hr : ∀ q ∈ v'.clientRing c, q ∈ v.clientRing c ∧ v'.ids q = v.ids q ∧
    v'.inFlight q = v.inFlight q) : Leaves v' c := by
  intro q hq hb
  obtain ⟨hmem, hids, hfl⟩ := hr q hq
  rw [hids] at hb
  have hsafe := h q hmem hb
  unfold Flow.Safe at hsafe ⊢
  rw [hids, hfl]
  exact hsafe

/-- What stays in the ring when its front leaves. -/
theorem Leaves.leave {v : Flow} (h : Leaves v c) (hw : v.Wf) {l : List Nat} (hl : v.clientRing c = p :: l) :
    Leaves ((v.popClient c).release .access p) c := by
  apply h.safe
  intro q hq
  have hring : (v.popClient c).clientRing c = l := by simp [Flow.popClient, hl]
  rw [release_clientRing, hring] at hq
  obtain ⟨base, hqueue⟩ := hw.queue c
  have hnd := hqueue.nodup
  rw [hl] at hnd
  have hqp : q ≠ p := by
    rintro rfl
    exact (nodup_cons.mp hnd).1 hq
  have he : Elsewhere ⟨v, 0, 0, false⟩ ⟨(v.popClient c).release .access p, 0, 0, false⟩ p := Flow.leave_elsewhere
  rw [hl]
  exact ⟨mem_cons_of_mem _ hq, he.ids q hqp, he.inFlight q hqp⟩

theorem drainClient_follows (c : Nat) : ∀ (n : Nat) (w w' : Proxy), w.Good → (strict → Leaves w.flow c) →
    c < w.nClients → drainClient c n w = some w' → ∀ q, Follows strict keep last ⟨w.flow, q, 0, false⟩ w' q 0 false := by
  intro n
  induction n with
  | zero =>
    intro w w' h _ _ hs q
    cases hs
    exact .same rfl h.toAlloc
  | succ n ih =>
    intro w w' h hsafe hc hs q
    have hpair : (w.clients c).ev.waitRing.popFront =
        ((w.clients c).ev.waitRing.toList.head?, (w.clients c).ev.waitRing.popFront.2) :=
      Prod.ext (WaitRing.popFront_fst _) rfl
    unfold drainClient at hs
    rw [hpair] at hs
    cases hl : (w.clients c).ev.waitRing.toList with
    | nil =>
      rw [hl] at hs
      cases hs
      exact .same rfl h.toAlloc
    | cons p l =>
      rw [hl] at hs
      obtain ⟨w₂, h₂, hs⟩ := bind_eq_some_iff.mp hs
      set ring := (w.clients c).ev.waitRing.popFront.2 with hring
      set x : ClientConn := { w.clients c with ev := { (w.clients c).ev with waitRing := ring } }
      have htail : ring.toList = l := by rw [hring, WaitRing.popFront_toList, hl, tail_cons]
      have hpop : (w.setClient c x).flow = w.flow.popClient c :=
        popClient_flow w c hl htail (WaitRing.popFront_start _ (by rw [hl]; simp)) rfl rfl
      obtain ⟨hrel, -⟩ := release_flow h₂
      rw [hpop] at hrel
      obtain ⟨st, -, rfl⟩ := release_some h₂
      have halloc := (h.toAlloc.setClient hc x).setStore st
      have hleave : Follows strict keep last ⟨w.flow, q, 0, false⟩ _ q 0 false :=
        .step hrel halloc (.leave hl (.inr fun hst hb => hsafe hst p (by rw [show w.flow.clientRing c = p :: l from hl]; simp) hb))
      refine hleave.trans (ih _ w' (hleave.good h.wf) (fun hst => ?_) hc hs q)
      rw [hrel]
      exact (hsafe hst).leave h.wf hl

theorem clientClose_follows (h : w.Good) (hsafe : strict → Leaves w.flow c) (hs : w.clientClose c = some w') (q : Nat) :
    Follows strict keep last ⟨w.flow, q, 0, false⟩ w' q 0 false := by
  unfold clientClose at hs
  dsimp only at hs
  split_ifs at hs with hfd
  · cases hs
    exact .same rfl h.toAlloc
  · obtain ⟨w₁, h₁, hs⟩ := bind_eq_some_iff.mp hs
    obtain ⟨mem, -, rfl⟩ := releaseData_some hs
    have hc := h.toAlloc.client_lt_of_fd hfd
    set x : ClientConn := { w.clients c with ev := { (w.clients c).ev with iFD := 0, mask := .none } }
    have hsame : (w.setClient c x).flow = w.flow := flow_setClient_eq w rfl rfl
    have hgood := h.same hsame (h.toAlloc.setClient hc x)
    have hdrain : Follows strict keep last ⟨(w.setClient c x).flow, q, 0, false⟩ w₁ q 0 false :=
      drainClient_follows c _ _ w₁ hgood (by rw [hsame]; exact hsafe) hc h₁ q
    rw [hsame] at hdrain
    exact hdrain.trans (.same rfl (hdrain.alloc.setStore _))

/-- What a write event of the client `c` has done so far. -/
structure Writing (strict keep last : Prop) (w : Proxy) (c q : Nat) (st : Store) (ring : WaitRing maxWaitRingLen Nat) : Prop where
  follows : Follows strict keep last ⟨w.flow, q, 0, false⟩
    ((w.setStore st).setClient c { w.clients c with ev := { (w.clients c).ev with waitRing := ring } }) q 0 false
  stays : ∀ p ∈ ring.toList, p ∈ w.flow.clientRing c ∧ (st.ids p).token = w.flow.ids p

theorem writing_preGood {st : Store} {ring : WaitRing maxWaitRingLen Nat} {q : Nat} (p : Nat)
    (h : Writing strict keep last w c q st ring) :
    Writing strict keep last w c q (st.setId p { st.ids p with iPreGood := true }) ring := by
  have htok : ∀ r, ((st.setId p { st.ids p with iPreGood := true }).ids r).token = (st.ids r).token := by
    intro r
    rw [Store.setId_ids]
    split_ifs with hr
    · rw [hr]
      rfl
    · rfl
  refine ⟨h.follows.trans (.same ?_ ?_), fun r hr => ?_⟩
  · unfold flow setClient setStore
    congr 1
    funext r
    exact htok r
  · exact ⟨h.follows.alloc.client, h.follows.alloc.backend, h.follows.alloc.timer⟩
  · rw [htok]
    exact h.stays r hr

theorem writing_pop (hc : c < w.nClients) (q : Nat) : AccessEvent.PopClosed (Writing strict keep last w c q) := by
  intro st st' ring ring' p h hl hstart hp hdone hrel
  set x : ClientConn := { w.clients c with ev := { (w.clients c).ev with waitRing := ring } }
  set x' : ClientConn := { w.clients c with ev := { (w.clients c).ev with waitRing := ring' } }
  set v := (w.setStore st).setClient c x with hv
  have hself : v.clients c = x := update_self ..
  have hpop : (v.setClient c x').flow = v.flow.popClient c := by
    refine popClient_flow v c (p := p) (l := ring'.toList) ?_ rfl ?_ rfl ?_
    · show (v.clients c).ev.waitRing.toList = _
      rw [hself]
      exact hl
    · show _ = ((v.clients c).ev.waitRing.rb.pStart + 1) % _
      rw [hself]
      exact hstart
    · show _ = (v.clients c).ev.ulMsgIdenty
      rw [hself]
  have heq : (w.setStore st').setClient c x' = (v.setClient c x').setStore st' := by
    simp [hv, setClient, setStore]
  have hrelease : (v.setClient c x').release .access p = some ((v.setClient c x').setStore st') := by
    unfold Proxy.release
    show (st.release .access p).bind _ = _
    rw [hrel]
    rfl
  obtain ⟨hflow, -⟩ := release_flow hrelease
  rw [hpop] at hflow
  have hfront : v.flow.clientRing c = p :: ring'.toList := by
    show (v.clients c).ev.waitRing.toList = _
    rw [hself]
    exact hl
  refine ⟨h.follows.trans ?_, fun r hr => ?_⟩
  · rw [heq]
    exact .step hflow ((h.follows.alloc.setClient hc x').setStore st') (.leave hfront (.inl hdone))
  · have hrp : r ≠ p := by
      rintro rfl
      exact hp hr
    rw [(Store.release_some hrel).other r hrp]
    exact h.stays r (by rw [hl]; exact mem_cons_of_mem _ hr)

/-- The write event of a client fails, so that it is closed. -/
def WriteFails (w : Proxy) (c : Nat) (script : List WritevRet) : Prop :=
  (AccessEvent.write c ⟨w.st, (w.clients c).ev, { (w.clients c).sock with script }⟩).map Prod.fst = some .error

theorem clientWrite_follows (h : w.Good) (hc : c < w.nClients) {script : List WritevRet}
    (hsafe : strict → w.WriteFails c script → Leaves w.flow c) (hs : w.clientWrite c script = some w') (q : Nat) :
    Follows strict keep last ⟨w.flow, q, 0, false⟩ w' q 0 false := by
  obtain ⟨⟨iRet, y⟩, h₁, hs⟩ := bind_eq_some_iff.mp hs
  obtain ⟨base, hqueue⟩ := h.wf.queue c
  have hstable := AccessEvent.stable_queue (P := Writing strict keep last w c q)
    (fun _ p _ hw => writing_preGood p hw) (writing_pop hc q)
  have hstart : Writing strict keep last w c q w.st (w.clients c).ev.waitRing :=
    ⟨.same (flow_setClient_eq _ rfl rfl) (h.toAlloc.setClient hc _), fun p hp => ⟨hp, rfl⟩⟩
  have hq : AccessEvent.Queue w.st (w.clients c).ev base := ⟨hqueue.start, hqueue.total, hqueue.next, hqueue.idx⟩
  obtain ⟨base', hwritten⟩ := AccessEvent.write_inv hstable ⟨hq, hstart⟩ h₁
  obtain ⟨-, hwriting⟩ := hwritten.inv
  set w₁ := (w.setStore y.st).setClient c ⟨y.ev, y.sock⟩ with hw₁
  have hsame : w₁.flow = ((w.setStore y.st).setClient c
      { w.clients c with ev := { (w.clients c).ev with waitRing := y.ev.waitRing } }).flow := by
    have hidem : w₁ = ((w.setStore y.st).setClient c
        { w.clients c with ev := { (w.clients c).ev with waitRing := y.ev.waitRing } }).setClient c ⟨y.ev, y.sock⟩ := by
      simp [hw₁, setClient]
    rw [hidem]
    apply flow_setClient_eq
    · simp [setClient]
    · simp only [setClient, update_self]
      exact hwritten.frame.next
  have hfol : Follows strict keep last ⟨w.flow, q, 0, false⟩ w₁ q 0 false :=
    hwriting.follows.trans (.same hsame ((h.toAlloc.setStore y.st).setClient hc _))
  dsimp only at hs
  split_ifs at hs with herr
  · refine hfol.trans (clientClose_follows (hfol.good h.wf) (fun hst => ?_) hs q)
    have hfails : w.WriteFails c script := by
      unfold WriteFails
      rw [show AccessEvent.write c ⟨w.st, (w.clients c).ev, { (w.clients c).sock with script }⟩ = some (iRet, y) from h₁,
        herr]
      rfl
    apply (hsafe hst hfails).safe
    intro p hp
    have hring : w₁.flow.clientRing c = y.ev.waitRing.toList := by
      simp [hw₁, flow, setClient]
    rw [hring] at hp
    obtain ⟨hmem, htok⟩ := hwriting.stays p hp
    exact ⟨hmem, htok, rfl⟩
  · cases hs
    exact hfol

/-! ## Replies -/

/-- An identity keeps the request that it has. -/
theorem Good.hasReq (h : w.Good) (p : Nat) : HasReq w p (w.st.ids p).pReqData := by
  refine ⟨fun hne hidle => hne ?_, fun hn => hn⟩
  have hnone : (w.st.ids p).pReqData.isSome = false := (h.wf.idle p hidle).2.2
  exact not_isSome_iff_eq_none.mp (by rw [hnone]; simp)

/-- `SendMsg` for the static identity leaves the others alone. -/
theorem sendAsking_plain (h : w.Good) {d : Nat} (hs : w.sendMsg b (some d) Store.askingIdenty = some w')
    (hp : Plain w p) : Plain w' p := by
  have hfol : Follows False False False ⟨w.flow, p, 0, false⟩ w' p 0 false := sendAsking_follows h hs
  by_cases hp0 : p = Store.askingIdenty
  · rintro ⟨⟨c, hc⟩, -⟩
    rw [hp0, (hfol.good h.wf).wf.asking.2] at hc
    cases hc
  · have hids : w'.flow.ids p = w.flow.ids p := by
      rcases sendMsg_some hs with ⟨-, -, rfl⟩ | ⟨d', ev, hd, -, hq, rfl⟩
      · rw [replyError_flow, setReqData_flow, Flow.reply, Flow.setId_ids_ne _ hp0, Flow.setReq, Flow.setId_ids_ne _ hp0]
      · cases hd
        rw [queued_flow hq, setReqData_flow]
        show (((w.flow.setReq Store.askingIdenty).setId Store.askingIdenty _).ids p) = _
        rw [Flow.setId_ids_ne _ hp0, Flow.setReq, Flow.setId_ids_ne _ hp0]
    unfold Plain
    rw [hids]
    exact hp

theorem redirectTo_follows (h : w.Good) {bAsking : Bool} (hl : last → Plain w p)
    (hs : w.redirectTo b p bAsking = some w') : Follows strict keep last ⟨w.flow, p, 1, false⟩ w' p 0 false := by
  unfold redirectTo at hs
  split_ifs at hs
  · obtain ⟨w₁, h₁, hs⟩ := bind_eq_some_iff.mp hs
    have hask : Follows strict keep last ⟨w.flow, p, 1, false⟩ w₁ p 1 false := sendAsking_follows h h₁
    have hgood := hask.good h.wf
    exact hask.trans (sendMsg_follows hgood (hgood.hasReq p) (fun hlast => sendAsking_plain h h₁ (hl hlast)) hs)
  · exact sendMsg_follows h (h.hasReq p) hl hs

theorem slotRedirect_follows (h : w.Good) {bAsking : Bool} {target : Target} (hl : last → Plain w p)
    (hs : w.slotRedirect cfg p bAsking target = some w') :
    Follows strict keep last ⟨w.flow, p, 1, false⟩ w' p 0 false := by
  cases target with
  | invalid =>
    cases hs
    exact replyError_follows h .commErr hl
  | known b => exact redirectTo_follows h hl hs
  | unknown conn =>
    obtain ⟨⟨bOk, w₁⟩, h₁, hs⟩ := bind_eq_some_iff.mp hs
    obtain ⟨hadd, hids⟩ : Follows strict keep last ⟨w.flow, p, 1, false⟩ w₁ p 1 false ∧ w₁.flow.ids = w.flow.ids :=
      addServer_follows h h₁
    have hgood := hadd.good h.wf
    have hl₁ : last → Plain w₁ p := by
      unfold Plain
      rw [hids]
      exact hl
    dsimp only at hs
    split_ifs at hs
    · exact hadd.trans (redirectTo_follows hgood hl₁ hs)
    · cases hs
      exact hadd.trans (replyError_follows hgood .commErr hl₁)

/-- The marks that `SlotPending` leaves on the identity are not seen by the flow. -/
theorem redirected_same (h : w.Good) {j : MsgIdenty} (hj : j.token = (w.st.ids p).token) :
    (w.setStore (w.st.setId p j)).flow = w.flow ∧ (w.setStore (w.st.setId p j)).Good := by
  have hflow : (w.setStore (w.st.setId p j)).flow = w.flow := by
    rw [flow_setId, hj]
    show w.flow.setId p (w.flow.ids p) = w.flow
    simp [Flow.setId]
  exact ⟨hflow, h.same hflow (h.toAlloc.setStore _)⟩

theorem slotPending_follows (h : w.Good) {rsp : Reply} (hrsp : rsp ≠ .plain) (hl : last → Plain w p)
    (hs : w.slotPending cfg p rsp = some w') : Follows strict keep last ⟨w.flow, p, 1, false⟩ w' p 0 false := by
  have hplain : ∀ w₁ : Proxy, w₁.flow = w.flow → last → Plain w₁ p := by
    intro w₁ hw₁
    unfold Plain
    rw [hw₁]
    exact hl
  cases rsp with
  | plain => exact absurd rfl hrsp
  | moved target =>
    unfold slotPending at hs
    dsimp only at hs
    obtain ⟨hflow, hgood⟩ := redirected_same h
      (j := { w.st.ids p with bRedirect := true, iMovedTimes := (w.st.ids p).iMovedTimes + 1 }) rfl
    rw [← hflow]
    split_ifs at hs
    · cases hs
      exact replyError_follows hgood .moved (hplain _ hflow)
    · exact slotRedirect_follows hgood (hplain _ hflow) hs
  | ask target =>
    unfold slotPending at hs
    obtain ⟨hflow, hgood⟩ := redirected_same h
      (j := { w.st.ids p with bRedirect := false, iAskTimes := (w.st.ids p).iAskTimes + 1 }) rfl
    rw [← hflow]
    exact slotRedirect_follows hgood (hplain _ hflow) hs

theorem deliver_follows (h : w.Good) (hb : b < w.nBackends) {rsp : Reply}
    (hl : last → (w.flow.ids p).IsReset → (cfg.mode = .cluster → rsp = .plain) ∧
      (IsErr (w.data (w.backends b).pCache).bytes → w.flow.inFlight p = 0))
    (hs : w.deliver cfg b p rsp = some w') : Follows strict keep last ⟨w.flow, p, 1, false⟩ w' p 0 false := by
  unfold deliver at hs
  split_ifs at hs with hmode
  · obtain ⟨w₁, h₁, hs⟩ := bind_eq_some_iff.mp hs
    have hpend : Follows strict keep last ⟨w.flow, p, 1, false⟩ w₁ p 0 false := 
      slotPending_follows h hmode.2 (fun hlast hreset => hmode.2 ((hl hlast hreset).1 hmode.1)) h₁
    obtain ⟨hflow, halloc⟩ := resetBackendCache_same hpend.alloc (hpend.lt hb) hs
    exact hpend.trans (.same hflow halloc)
  · obtain ⟨w₁, h₁, hs⟩ := bind_eq_some_iff.mp hs
    have hans : Follows strict keep last ⟨w.flow, p, 1, false⟩ w₁ p 0 false :=
      answered_follows (getReply_flow _) (h.getReply p _) (fun hlast hreset => (hl hlast hreset).2) h₁
    obtain ⟨hflow, halloc⟩ := resetBackendCache_same hans.alloc (hans.lt hb) hs
    exact hans.trans (.same hflow halloc)

theorem resultCheck_same (h : w.Good) (hb : b < w.nBackends) {m : Msg} (hs : w.resultCheck cfg b p m = some w') :
    w'.flow = w.flow ∧ w'.Good ∧ w'.data (w'.backends b).pCache = w.data (w.backends b).pCache := by
  rcases resultCheck_some hs with ⟨rfl, -⟩ | ⟨-, -, -, bListenFlag, rfl⟩
  · exact ⟨rfl, h, rfl⟩
  · have hflow : (w.setBackend b { w.backends b with lConnectSuccessTimes := 1 }).flow = w.flow :=
      flow_setBackend_eq w rfl rfl
    have halloc := h.toAlloc.setBackend hb { w.backends b with lConnectSuccessTimes := 1 }
    refine ⟨hflow, h.same hflow ⟨halloc.client, halloc.backend, halloc.timer⟩, ?_⟩
    simp [setBackend]

/-- The reply `m` of the backend `b` to a `_RESET_` is no redirection, and is the last one if it is an
error. -/
def AnswerOK (cfg : Config) (w : Proxy) (b : Nat) (m : Msg) (rsp : Reply) : Prop :=
  ∀ p ∈ (w.flow.redisRing b).head?, (w.flow.ids p).IsReset →
    (cfg.mode = .cluster → rsp = .plain) ∧ (IsErr m.bytes → w.flow.inFlight p = 1)

theorem processReply_follows (h : w.Good) (hb : b < w.nBackends) {m : Msg} {rsp : Reply} {conn : Connect}
    (hl : last → AnswerOK cfg w b m rsp) (hs : w.processReply cfg b m rsp conn = some w') (hexit : w'.exited = false) (q : Nat) :
    ∃ q', Follows strict keep last ⟨w.flow, q, 0, false⟩ w' q' 0 false := by
  obtain ⟨⟨p, ev⟩, hp, hs⟩ := bind_eq_some_iff.mp hs
  obtain ⟨hring, -⟩ := RedisEvent.popIdenty_some hp
  dsimp only at hs
  set w₁ := (w.setBackend b { w.backends b with ev, tags := (w.backends b).tags.tail }).setData (w.backends b).pCache m
    with hw₁
  have hflow : w₁.flow = w.flow.pop b := by
    rw [hw₁, setData_flow, flow_setBackend]
    unfold Flow.pop
    rw [show w.flow.redisRing b = p :: ev.waitRing.toList from hring]
    rfl
  have hpop : Follows strict keep last ⟨w.flow, q, 0, false⟩ w₁ p 1 false :=
    .step hflow ((h.toAlloc.setBackend hb _).setData _ _) (.pop hring)
  have hgood := hpop.good h.wf
  cases hcheck : w₁.resultCheck cfg b p m with
  | none =>
    -- the identity is lost, and the process ends
    rw [hcheck] at hs
    obtain ⟨hmode, htimes⟩ := resultCheck_none hcheck
    rw [backendClose_exits hmode htimes hs] at hexit
    cases hexit
  | some w₂ =>
    rw [hcheck] at hs
    obtain ⟨hflow₂, hgood₂, hdata⟩ := resultCheck_same hgood hb hcheck
    have hb₂ : b < w₂.nBackends := by
      show b < w₂.flow.nBackends
      rw [hflow₂]
      exact hb
    have hl₂ : last → (w₂.flow.ids p).IsReset → (cfg.mode = .cluster → rsp = .plain) ∧
        (IsErr (w₂.data (w₂.backends b).pCache).bytes → w₂.flow.inFlight p = 0) := by
      rw [hdata, hflow₂, hflow]
      intro hlast hreset
      obtain ⟨hplain, herr⟩ := hl hlast p (by rw [show w.flow.redisRing b = _ from hring]; rfl) hreset
      have hm : w₁.data (w₁.backends b).pCache = m := by simp [hw₁, setData, setBackend]
      have hcount := Flow.pop_inFlight h.wf hring p
      rw [if_pos rfl] at hcount
      rw [hm]
      exact ⟨hplain, fun he => by have := herr he; omega⟩
    have hdel : Follows strict keep last ⟨w₂.flow, p, 1, false⟩ w' p 0 false := deliver_follows hgood₂ hb₂ hl₂ hs
    rw [hflow₂] at hdel
    exact ⟨p, hpop.trans hdel⟩

/-! ## Events of the backends -/

/-- A connection that is not established: nothing has been done. -/
theorem connectResult_error {bConnected : Bool} {iRet : Ret} (hs : w.connectResult cfg b bConnected = some (iRet, w'))
    (herr : iRet ≠ .ok) : bConnected = false ∧ w'.flow = w.flow := by
  obtain ⟨⟨r, ev⟩, h₁, hs⟩ := bind_eq_some_iff.mp hs
  have hring : ev.waitRing = (w.backends b).ev.waitRing := by
    rcases RedisEvent.connectResult_some h₁ with ⟨-, -, rfl⟩ | ⟨-, -, rfl⟩ | ⟨-, -, rfl⟩ <;> rfl
  dsimp only at hs
  split_ifs at hs
  · obtain ⟨w₁, -, hs⟩ := bind_eq_some_iff.mp hs
    simp only [Option.pure_def, Option.some.injEq, Prod.mk.injEq] at hs
    exact absurd hs.1.symm herr
  · cases hs
    refine ⟨?_, flow_setBackend_eq w hring rfl⟩
    unfold RedisEvent.connectResult at h₁
    split_ifs at h₁ with hst hcon
    · exact absurd (Prod.mk.inj (some.inj h₁)).1.symm herr
    · exact hcon
    · exact absurd (Prod.mk.inj (some.inj h₁)).1.symm herr

theorem statusTimer_follows (h : w.Good) (hfd : (w.backends b).ev.iFD ≠ 0) {bConnected : Bool} {conn : Connect}
    (hl : last → bConnected = true ∨ Alone w.flow b) (hs : w.statusTimer cfg b bConnected conn = some w') (hexit : w'.exited = false) (q : Nat) :
    ∃ q', Follows strict keep last ⟨w.flow, q, 0, false⟩ w' q' 0 false := by
  obtain ⟨⟨iRet, w₁⟩, h₁, hs⟩ := bind_eq_some_iff.mp hs
  obtain ⟨⟨q₁, hq₁⟩, -⟩ : (∃ q₁, Follows strict keep last ⟨w.flow, q, 0, false⟩ w₁ q₁ 0 false) ∧ _ :=
    connectResult_follows h (h.toAlloc.lt_of_fd hfd) h₁ q
  dsimp only at hs
  split_ifs at hs with herr
  · obtain ⟨hno, hflow⟩ := connectResult_error h₁ herr
    have halone : last → Alone w₁.flow b := by
      intro hlast
      rw [hflow]
      exact (hl hlast).resolve_left (by rw [hno]; simp)
    obtain ⟨q₂, hq₂⟩ := backendClose_follows (hq₁.good h.wf) (by rw [connectResult_fd h₁]; exact hfd) halone hs hexit q₁
    exact ⟨q₂, hq₁.trans hq₂⟩
  · cases hs
    exact ⟨q₁, hq₁⟩

/-- The kernel lets a write event of a backend succeed. -/
def Works (bConnected : Bool) (script : List WritevRet) : Prop :=
  bConnected = true ∧ WritevRet.error ∉ script ∧ WritevRet.eintr ∉ script

theorem backendWrite_follows (h : w.Good) (hfd : (w.backends b).ev.iFD ≠ 0) {bConnected : Bool}
    {script : List WritevRet} {conn : Connect} (hl : last → Works bConnected script ∨ Alone w.flow b) (hs : w.backendWrite cfg b bConnected script conn = some w')
    (hexit : w'.exited = false) (q : Nat) : ∃ q', Follows strict keep last ⟨w.flow, q, 0, false⟩ w' q' 0 false := by
  obtain ⟨iRet, w₁, h₁, hs⟩ := backendWrite_some hs
  have hb := h.toAlloc.lt_of_fd hfd
  obtain ⟨q₁, hq₁, hfd₁, halone, herr⟩ : ∃ q₁, Follows strict keep last ⟨w.flow, q, 0, false⟩ w₁ q₁ 0 false ∧
      (w₁.backends b).ev.iFD ≠ 0 ∧ (Alone w.flow b → Alone w₁.flow b) ∧ (iRet ≠ .ok → bConnected = false) := by
    rcases h₁ with ⟨-, h₁⟩ | ⟨-, rfl, rfl⟩
    · obtain ⟨⟨q₁, hq₁⟩, halone⟩ := connectResult_follows h hb h₁ q
      exact ⟨q₁, hq₁, by rw [connectResult_fd h₁]; exact hfd, halone, fun herr => (connectResult_error h₁ herr).1⟩
    · exact ⟨q, .same rfl h.toAlloc, hfd, id, fun herr => absurd rfl herr⟩
  have hgood := hq₁.good h.wf
  rcases hs with ⟨hne, hs⟩ | ⟨-, iRet', ev, sock, hwrite, hs⟩
  · have hclose : last → Alone w₁.flow b := by
      intro hlast
      rcases hl hlast with ⟨hcon, -⟩ | ha
      · rw [herr hne] at hcon
        cases hcon
      · exact halone ha
    obtain ⟨q₂, hq₂⟩ := backendClose_follows hgood hfd₁ hclose hs hexit q₁
    exact ⟨q₂, hq₁.trans hq₂⟩
  · have hwr := RedisEvent.writeQueue_written hwrite
    have hflow : (w₁.setBackend b { w₁.backends b with ev, sock }).flow = w₁.flow :=
      flow_setBackend_eq w₁ hwr.ring rfl
    have halloc := hq₁.alloc.setBackend (hq₁.lt hb) { w₁.backends b with ev, sock }
    rcases hs with ⟨hfail, hs⟩ | ⟨-, rfl⟩
    · have hself : ((w₁.setBackend b { w₁.backends b with ev, sock }).backends b).ev = ev := by
        simp [setBackend]
      have hclose : last → Alone (w₁.setBackend b { w₁.backends b with ev, sock }).flow b := by
        intro hlast
        rw [hflow]
        rcases hl hlast with ⟨-, herr, heintr⟩ | ha
        · rw [hfail] at hwrite
          exact absurd (RedisEvent.writeQueue_error hwrite) (not_or.mpr ⟨herr, heintr⟩)
        · exact halone ha
      obtain ⟨q₂, hq₂⟩ := backendClose_follows (hgood.same hflow halloc)
        (by rw [hself, hwr.fd]; exact hfd₁) hclose hs hexit q₁
      rw [hflow] at hq₂
      exact ⟨q₂, hq₁.trans hq₂⟩
    · exact ⟨q₁, hq₁.trans (.same hflow halloc)⟩

theorem reconnectTimer_follows (h : w.Good) {t : Timer} (ht : t ∈ w.timers) {conn : Connect}
    (hkeep : keep → t.ulNextMS ≤ w.now → (w.backends t.server).ev.ulNextTry ≤ w.now → w.flow.redisRing t.server = [])
    (hs : w.reconnectTimer cfg t conn = some w') (q : Nat) :
    ∃ q', Follows strict keep last ⟨w.flow, q, 0, false⟩ w' q' 0 false := by
  unfold reconnectTimer at hs
  split_ifs at hs with hnow
  · cases hs
    exact ⟨q, .same rfl h.toAlloc⟩
  · obtain ⟨w₁, h₁, hs⟩ := bind_eq_some_iff.mp hs
    cases hs
    obtain ⟨q₁, hq₁⟩ := reConnect_follows h (h.timer t ht) (fun hk => hkeep hk (Nat.not_lt.mp hnow)) h₁ q
    refine ⟨q₁, hq₁.trans (.same rfl ⟨hq₁.alloc.client, hq₁.alloc.backend, fun u hu => ?_⟩)⟩
    obtain ⟨u', hu', rfl⟩ := mem_map.mp hu
    split_ifs <;> exact hq₁.alloc.timer u' hu'

/-! ## Steps -/

/-- A client that is closed leaves no broadcast behind that is in several rings. -/
def CloseOK (w : Proxy) : Label → Prop
  | .clientClose c => Leaves w.flow c
  | .clientWrite c script => w.WriteFails c script → Leaves w.flow c
  | _ => True

/-- A reconnect timer does not run `ReInit` on a backend that still has requests. -/
def ReInitOK (w : Proxy) : Label → Prop
  | .reconnectTimer k _ =>
    match w.timers[k]? with
    | none => True
    | some t => t.ulNextMS ≤ w.now → (w.backends t.server).ev.ulNextTry ≤ w.now → w.flow.redisRing t.server = []
  | _ => True

/-- A server fails a `_RESET_` only as the last of those that have taken it, or if none of them takes it. -/
def ResetOK (cfg : Config) (w : Proxy) : Label → Prop
  | .request _ _ req => req.IsReset → Agree w
  | .reply b m rsp _ => AnswerOK cfg w b m rsp
  | .backendWrite b bConnected script _ => Works bConnected script ∨ Alone w.flow b
  | .backendClose b _ => Alone w.flow b
  | .statusTimer b bConnected _ => bConnected = true ∨ Alone w.flow b
  | _ => True

/-- Every step of the proxy is a number of steps of the flow. -/
theorem step_follows (h : w.Good) {l : Label} (hclose : strict → w.CloseOK l) (hkeep : keep → w.ReInitOK l)
    (hlast : last → w.ResetOK cfg l) (hs : w.step cfg l = some w') (hexit : w'.exited = false) (q : Nat) :
    ∃ q', Follows strict keep last ⟨w.flow, q, 0, false⟩ w' q' 0 false := by
  have hid : some w = some w' → ∃ q', Follows strict keep last ⟨w.flow, q, 0, false⟩ w' q' 0 false := by
    intro heq
    obtain rfl := some.inj heq
    exact ⟨q, .same rfl h.toAlloc⟩
  unfold step at hs
  split_ifs at hs with hex
  · exact hid hs
  cases l with
  | addServer conn =>
    obtain ⟨⟨bOk, w₁⟩, h₁, rfl⟩ := map_eq_some_iff.mp hs
    exact ⟨q, (addServer_follows h h₁).1⟩
  | reroute vServers =>
    dsimp only at hs
    split_ifs at hs
    · cases hs
      exact ⟨q, .same rfl ⟨h.client, h.backend, h.timer⟩⟩
    · exact hid hs
  | accept iFD =>
    obtain ⟨hflow, halloc⟩ := accept_same h.toAlloc hs
    exact ⟨q, .same hflow halloc⟩
  | request c m req =>
    dsimp only at hs
    split_ifs at hs with hfd
    · exact hid hs
    · exact processMsg_follows h (h.toAlloc.client_lt_of_fd hfd) (fun hl => hlast hl) hs q
  | growClient c sSize =>
    dsimp only at hs
    split_ifs at hs with hfd
    · exact hid hs
    · obtain ⟨hflow, halloc⟩ := resetClientCache_same h.toAlloc (h.toAlloc.client_lt_of_fd hfd) hs
      exact ⟨q, .same hflow halloc⟩
  | clientWrite c script =>
    dsimp only at hs
    split_ifs at hs with hfd
    · exact hid hs
    · exact ⟨q, clientWrite_follows h (h.toAlloc.client_lt_of_fd hfd) (fun hst => hclose hst) hs q⟩
  | clientClose c => exact ⟨q, clientClose_follows h (fun hst => hclose hst) hs q⟩
  | reply b m rsp conn =>
    dsimp only at hs
    split_ifs at hs with hfd
    · exact hid hs
    · exact processReply_follows h (h.toAlloc.lt_of_fd hfd) (fun hl => hlast hl) hs hexit q
  | growBackend b sSize =>
    dsimp only at hs
    split_ifs at hs with hfd
    · exact hid hs
    · obtain ⟨hflow, halloc⟩ := resetBackendCache_same h.toAlloc (h.toAlloc.lt_of_fd hfd) hs
      exact ⟨q, .same hflow halloc⟩
  | backendWrite b bConnected script conn =>
    dsimp only at hs
    split_ifs at hs with hfd
    · exact hid hs
    · exact backendWrite_follows h hfd (fun hl => hlast hl) hs hexit q
  | backendClose b conn =>
    dsimp only at hs
    split_ifs at hs with hfd
    · exact hid hs
    · exact backendClose_follows h hfd (fun hl => hlast hl) hs hexit q
  | statusTimer b bConnected conn =>
    dsimp only at hs
    split_ifs at hs with hfd
    · exact hid hs
    · exact statusTimer_follows h hfd (fun hl => hlast hl) hs hexit q
  | reconnectTimer k conn =>
    dsimp only at hs
    split at hs
    · exact hid hs
    · rename_i t ht
      refine reconnectTimer_follows h (mem_of_getElem? ht) (fun hk => ?_) hs q
      have hok := hkeep hk
      dsimp only [ReInitOK] at hok
      rw [ht] at hok
      exact hok
  | tick ms =>
    cases hs
    exact ⟨q, .same rfl ⟨h.client, h.backend, h.timer⟩⟩

/-- Only a process that has not ended takes steps. -/
theorem step_exited {l : Label} (hs : w.step cfg l = some w') (hexit : w'.exited = false) : w.exited = false := by
  by_contra hne
  have hex : w.exited = true := by simpa using hne
  unfold step at hs
  rw [if_pos hex] at hs
  rw [← some.inj hs, hex] at hexit
  cases hexit

theorem init_good : init.Good := by
  have hids : ∀ p, (init.flow.ids p) = (MsgIdenty.new (p == Store.askingIdenty)).token := fun _ => rfl
  have hbuf : init.flow.buffer = [] := rfl
  refine ⟨⟨fun c _ => ⟨rfl, rfl, rfl⟩, fun b _ => ⟨rfl, rfl⟩, fun t ht => absurd ht (by simp [init])⟩, ?_⟩
  refine ⟨fun p => ?_, ⟨?_, rfl⟩, fun c p => ?_, fun c => ⟨0, rfl, ?_, rfl, ?_⟩, fun p _ => ⟨rfl, rfl, rfl⟩, ?_, ?_, ?_, ?_,
    fun b _ => rfl⟩
  · rw [hids]
    simp [MsgIdenty.token, MsgIdenty.new]
  · rintro (hmem | hmem | hmem)
    · exact absurd hmem (by rw [hbuf]; simp)
    · exact absurd hmem (by simp [flow, init, Store.init])
    · exact absurd hmem (by decide)
  · constructor
    · intro hc
      rw [hids] at hc
      exact absurd hc (by simp [MsgIdenty.token, MsgIdenty.new, MsgIdenty.zero])
    · intro hmem
      exact absurd hmem (by simp [flow, init, AccessEvent.init])
  · simp [flow, init, AccessEvent.init]
  · intro j p hj
    simp [flow, init, AccessEvent.init] at hj
  · intro p hp
    exact absurd hp (by rw [hbuf]; simp)
  · rw [hbuf]
    exact nodup_nil
  · intro p hp
    exact absurd hp (by rw [hbuf]; simp)
  · intro p hp
    exact absurd hp (by simp [flow, init, Store.init])

end Follow

/-- Every state that the proxy reaches is a good one. -/
theorem run_good (cfg : Config) (ls : List Label) {w : Proxy} (hrun : Lib.run (step cfg) init ls = some w)
    (hexit : w.exited = false) : w.Good := by
  refine Lib.run_inv (I := fun w => w.exited = false → w.Good) (C := fun _ _ => True) ?_ ls init w (fun _ => init_good)
    (Lib.meets_of_forall (fun _ _ => trivial) ls init) hrun hexit
  intro w l w' h _ hs hexit
  have hgood := h (step_exited hs hexit)
  obtain ⟨q, hfol⟩ : ∃ q, Follows False False False ⟨w.flow, 0, 0, false⟩ w' q 0 false :=
    step_follows hgood (fun hf => hf.elim) (fun hf => hf.elim) (fun hf => hf.elim) hs hexit 0
  exact hfol.good hgood.wf

/-- An identity names the client in whose ring it is, a ring holds consecutive indices, and what the
pool hands out is in no ring. -/
theorem identities_owned (cfg : Config) (ls : List Label) {w : Proxy} (hrun : Lib.run (step cfg) init ls = some w)
    (hexit : w.exited = false) :
    (∀ c p, p ∈ (w.clients c).ev.waitRing.toList ↔ (w.st.ids p).pAccessEvent = some (.client c)) ∧
      (∀ c, ∃ base, ∀ j p, (w.clients c).ev.waitRing.toList[j]? = some p → (w.st.ids p).ulIndex = base + j) ∧
      w.st.identyBuffer.toList.Nodup ∧
      ∀ c, ∀ p ∈ (w.clients c).ev.waitRing.toList, p ∉ w.st.identyBuffer.toList ∧ p ∉ w.st.deleted := by
  have h := (run_good cfg ls hrun hexit).wf
  refine ⟨fun c p => (h.client c p).symm, fun c => ?_, h.bufferNodup, ?_⟩
  · obtain ⟨base, hq⟩ := h.queue c
    exact ⟨base, hq.idx⟩
  · intro c p hp
    have hne : ¬ w.flow.Idle p := fun hi => by simpa [(h.idle p hi).1] using (h.client c p).mpr hp
    exact ⟨fun hb => hne (.inl hb), fun hd => hne (.inr (.inl hd))⟩

def oneRequest : List Label :=
  [.addServer (.inProgress 0), .accept 0, .request 0 ⟨[43, 13, 10], by decide⟩ (.forward (some 0))]

theorem oneRequest_run : ∃ w, Lib.run (step ⟨.twem, fun _ => 0⟩) init oneRequest = some w ∧
    (w.exited, (w.clients 0).ev.waitRing.toList) = (false, [1]) := Option.map_eq_some_iff.mp rfl

theorem identities_owned_one : ∃ w, Lib.run (step ⟨.twem, fun _ => 0⟩) init oneRequest = some w ∧
    (w.st.ids 1).pAccessEvent = some (.client 0) := by
  obtain ⟨w, hw, hview⟩ := oneRequest_run
  obtain ⟨hexit, hring⟩ := Prod.mk.inj hview
  exact ⟨w, hw, ((identities_owned _ _ hw hexit).1 0 1).mp (by rw [hring]; simp)⟩

/-- The proxy refines the flow of identities. -/
theorem proxy_refines_flow (cfg : Config) (ls : List Label) {w : Proxy}
    (hrun : Lib.run (step cfg) init ls = some w) (hexit : w.exited = false) :
    ∃ p, FlowSteps False False False ⟨init.flow, 0, 0, false⟩ ⟨w.flow, p, 0, false⟩ := by
  refine (Lib.run_inv (I := fun w => w.exited = false → w.Good ∧
    ∃ p, FlowSteps False False False ⟨init.flow, 0, 0, false⟩ ⟨w.flow, p, 0, false⟩) (C := fun _ _ => True) ?_ ls init w
    (fun _ => ⟨init_good, 0, .refl⟩) (Lib.meets_of_forall (fun _ _ => trivial) ls init) hrun hexit).2
  intro w l w' h _ hs hexit
  obtain ⟨hgood, p, hsteps⟩ := h (step_exited hs hexit)
  obtain ⟨q, hfol⟩ : ∃ q, Follows False False False ⟨w.flow, p, 0, false⟩ w' q 0 false :=
    step_follows hgood (fun hf => hf.elim) (fun hf => hf.elim) (fun hf => hf.elim) hs hexit p
  exact ⟨hfol.good hgood.wf, q, hsteps.trans hfol.steps⟩

theorem proxy_refines_flow_one : ∃ w p, Lib.run (step ⟨.twem, fun _ => 0⟩) init oneRequest = some w ∧
    FlowSteps False False False ⟨init.flow, 0, 0, false⟩ ⟨w.flow, p, 0, false⟩ := by
  obtain ⟨w, hw, hview⟩ := oneRequest_run
  obtain ⟨p, hp⟩ := proxy_refines_flow _ _ hw (Prod.mk.inj hview).1
  exact ⟨w, p, hw, hp⟩

end Proxy

end RedisProxy
