import RedisProxy.Proxy
import RedisProxy.Proofs.RedisEventProofs
import RedisProxy.Proofs.StoreProofs

/-!
# Proofs: what the methods of the proxy can do

One inversion lemma for each method that several invariants have to follow.
-/

namespace RedisProxy

open Option Function

/-! ## Backends -/

namespace RedisEvent

variable {ev ev' : RedisEvent}

theorem popIdenty_some {p : Nat} (h : ev.popIdenty = some (p, ev')) :
    ev.waitRing.toList = p :: ev'.waitRing.toList ∧ ev' = { ev with waitRing := ev.waitRing.popFront.2 } := by
  cases hl : ev.waitRing.toList with
  | nil =>
    have hpair : ev.waitRing.popFront = (none, ev.waitRing.popFront.2) :=
      Prod.ext (by rw [WaitRing.popFront_fst, hl]; rfl) rfl
    unfold popIdenty at h
    rw [hpair] at h
    cases h
  | cons q l =>
    rw [popIdenty_cons hl, some.injEq, Prod.mk.injEq] at h
    obtain ⟨rfl, rfl⟩ := h
    refine ⟨?_, rfl⟩
    rw [WaitRing.popFront_toList, hl, List.tail_cons]

theorem popIdenty_none (h : ev.popIdenty = none) : ev.waitRing.toList = [] := by
  cases hl : ev.waitRing.toList with
  | nil => rfl
  | cons q l =>
    rw [popIdenty_cons hl] at h
    cases h

/-- `SendMsg` of a backend without connection, and of one with. -/
theorem sendMsg_some {pData : Msg} {p : Nat} {r : SendMsgRes} (h : ev.sendMsg pData p = some r) :
    (r = .disconnected ∧ ev.status ≠ .connecting ∧ ev.status ≠ .connected) ∨
      ∃ ev', r = .queued ev' ∧ (ev.status = .connecting ∨ ev.status = .connected) := by
  unfold sendMsg at h
  split_ifs at h with hst hfull
  · left
    exact ⟨(some.inj h).symm, hst⟩
  · right
    have hst' : ev.status = .connecting ∨ ev.status = .connected := by
      by_contra hcon
      exact hst (not_or.mp hcon)
    split at h
    · cases h
    · dsimp only at h
      split_ifs at h
      exact ⟨_, (some.inj h).symm, hst'⟩

/-- `ConnectResult` only acts on a backend that is connecting. -/
theorem connectResult_some {bConnected : Bool} {iRet : Ret} (h : ev.connectResult some bConnected = some (iRet, ev')) :
    (ev.status ≠ .connecting ∧ iRet = .ok ∧ ev' = ev) ∨
      (ev.status = .connecting ∧ iRet = .error ∧ ev' = ev) ∨
      (ev.status = .connecting ∧ iRet = .ok ∧
        ev' = { ev with status := .connected, ulMaxTryConnect := 0, mask := ev.mask.addRead ev.iFD }) := by
  unfold connectResult at h
  split_ifs at h with hst hcon
  · simp only [some.injEq, Prod.mk.injEq] at h
    exact .inl ⟨hst, h.1.symm, h.2.symm⟩
  · simp only [some.injEq, Prod.mk.injEq] at h
    exact .inr (.inl ⟨not_not.mp hst, h.1.symm, h.2.symm⟩)
  · simp only [some.injEq, Prod.mk.injEq] at h
    exact .inr (.inr ⟨not_not.mp hst, h.1.symm, h.2.symm⟩)

/-- What a write event leaves alone. -/
structure Written (ev ev' : RedisEvent) : Prop where
  ring : ev'.waitRing = ev.waitRing
  fd : ev'.iFD = ev.iFD
  status : ev'.status = ev.status

theorem Written.of_eq {sock sock' : Socket} {e : RedisEvent} {r ret : Ret}
    (h : some (r, e, sock) = some (ret, ev', sock')) (he : Written ev e) : Written ev ev' := by
  cases h
  exact he

theorem sendv_written {iov nsend : Nat} {sock sock' : Socket} {ret : Ret}
    (h : ev.sendv iov nsend sock = some (ret, ev', sock')) : Written ev ev' := by
  unfold sendv at h
  split_ifs at h
  dsimp only at h
  split_ifs at h
  · exact .of_eq h ⟨rfl, rfl, rfl⟩
  · exact .of_eq h ⟨rfl, rfl, rfl⟩
  · exact .of_eq h ⟨rfl, rfl, rfl⟩
  · split at h
    · cases h
    · split at h
      · exact .of_eq h ⟨rfl, rfl, rfl⟩
      · exact .of_eq h ⟨rfl, rfl, rfl⟩

theorem writeQueue_written {sock sock' : Socket} {ret : Ret} (h : ev.writeQueue sock = some (ret, ev', sock')) :
    Written ev ev' := by
  unfold writeQueue at h
  split_ifs at h with hidx hempty
  · exact .of_eq h ⟨rfl, rfl, rfl⟩
  by_cases hwrap : ev.lCiovReadIdx % maxRedisMsgIdentyPool < ev.lCiovWriteIdx % maxRedisMsgIdentyPool
  · rw [if_pos hwrap] at h
    exact sendv_written h
  · rw [if_neg hwrap] at h
    split at h
    · cases h
    · rename_i iRet ev₁ sock₁ hs
      have h₁ := sendv_written hs
      split_ifs at h
      · exact .of_eq h h₁
      · exact .of_eq h h₁
      · have h₂ := sendv_written h
        exact ⟨h₂.ring.trans h₁.ring, h₂.fd.trans h₁.fd, h₂.status.trans h₁.status⟩

end RedisEvent

/-! ## The proxy -/

namespace Proxy

variable {w w' : Proxy}

theorem getData_some {sSize pData : Nat} (h : w.getData sSize = some (pData, w')) :
    ∃ mem, w.st.mem.getData sSize = some (pData, mem) ∧ w' = w.setStore { w.st with mem } := by
  obtain ⟨⟨d, mem⟩, hmem, h⟩ := bind_eq_some_iff.mp h
  cases h
  exact ⟨mem, hmem, rfl⟩

theorem releaseData_some {pData : Nat} (h : w.releaseData pData = some w') :
    ∃ mem, w.st.mem.release pData = some mem ∧ w' = w.setStore { w.st with mem } := by
  obtain ⟨mem, hmem, h⟩ := bind_eq_some_iff.mp h
  exact ⟨mem, hmem, (some.inj h).symm⟩

/-- A read cache gets another block, and its old one may be given back. -/
theorem resetCache_some {old sSize pCache : Nat} {bRelease : Bool} (h : w.resetCache old sSize bRelease = some (pCache, w')) :
    ∃ mem mem', w.st.mem.getData sSize = some (pCache, mem) ∧
      (if bRelease then mem.release old else some mem) = some mem' ∧ w' = w.setStore { w.st with mem := mem' } := by
  obtain ⟨⟨d, w₁⟩, h₁, h⟩ := bind_eq_some_iff.mp h
  obtain ⟨mem, hmem, rfl⟩ := getData_some h₁
  cases bRelease with
  | true =>
    obtain ⟨w₂, h₂, h⟩ := bind_eq_some_iff.mp h
    obtain ⟨mem', hmem', rfl⟩ := releaseData_some h₂
    cases h
    exact ⟨mem, mem', hmem, hmem', rfl⟩
  | false =>
    cases h
    exact ⟨mem, mem, hmem, rfl, rfl⟩

theorem resetClientCache_some {c sSize : Nat} {bRelease : Bool} (h : w.resetClientCache c sSize bRelease = some w') :
    ∃ pCache mem mem', w.st.mem.getData sSize = some (pCache, mem) ∧
      (if bRelease then mem.release (w.clients c).ev.pCache else some mem) = some mem' ∧
      w' = (w.setStore { w.st with mem := mem' }).setClient c
        { w.clients c with ev := { (w.clients c).ev with pCache } } := by
  obtain ⟨⟨pCache, w₁⟩, h₁, h⟩ := bind_eq_some_iff.mp h
  obtain ⟨mem, mem', hget, hrel, rfl⟩ := resetCache_some h₁
  exact ⟨pCache, mem, mem', hget, hrel, (some.inj h).symm⟩

theorem resetBackendCache_some {b sSize : Nat} {bRelease : Bool} (h : w.resetBackendCache b sSize bRelease = some w') :
    ∃ pCache mem mem', w.st.mem.getData sSize = some (pCache, mem) ∧
      (if bRelease then mem.release (w.backends b).pCache else some mem) = some mem' ∧
      w' = (w.setStore { w.st with mem := mem' }).setBackend b { w.backends b with pCache } := by
  obtain ⟨⟨pCache, w₁⟩, h₁, h⟩ := bind_eq_some_iff.mp h
  obtain ⟨mem, mem', hget, hrel, rfl⟩ := resetCache_some h₁
  exact ⟨pCache, mem, mem', hget, hrel, (some.inj h).symm⟩

theorem release_some {side : Side} {p : Nat} (h : w.release side p = some w') :
    ∃ st, w.st.release side p = some st ∧ w' = w.setStore st := by
  obtain ⟨st, hst, h⟩ := bind_eq_some_iff.mp h
  exact ⟨st, hst, (some.inj h).symm⟩

/-- What `SendMsg` does first. -/
def setReqData (w : Proxy) (p : Nat) (pData : Option Nat) : Proxy :=
  w.setStore (w.st.setId p { w.st.ids p with pReqData := pData })

/-- The request `d` waits in the backend `b`, whose event is now `ev`. -/
def queued (w : Proxy) (b d p : Nat) (ev : RedisEvent) : Proxy :=
  let w := w.setReqData p (some d)
  (w.setStore (w.st.setId p { w.st.ids p with pRedisEvent := some b })).setBackend b
    { w.backends b with
      ev
      cmds := (w.backends b).cmds ++ [⟨(w.st.ids p).isSelect, (w.data d).bytes⟩]
      tags := (w.backends b).tags ++ [w.serial p] }

/-- The two outcomes of `SendMsg`. -/
theorem sendMsg_some {b p : Nat} {pData : Option Nat} (h : w.sendMsg b pData p = some w') :
    ((w.backends b).ev.status ≠ .connecting ∧ (w.backends b).ev.status ≠ .connected ∧
      w' = (w.setReqData p pData).replyError p .disconnect) ∨
    ∃ d ev, pData = some d ∧ ((w.backends b).ev.status = .connecting ∨ (w.backends b).ev.status = .connected) ∧
      (w.backends b).ev.sendMsg (w.data d) p = some (.queued ev) ∧ w' = w.queued b d p ev := by
  dsimp only [sendMsg, setStore] at h
  cases hs : (w.backends b).ev.sendMsg ((pData.map w.data).getD ⟨[], by decide⟩) p with
  | none =>
    rw [hs] at h
    cases h
  | some r =>
    rw [hs] at h
    rcases RedisEvent.sendMsg_some hs with ⟨rfl, h1, h2⟩ | ⟨ev, rfl, hst⟩
    · exact .inl ⟨h1, h2, (some.inj h).symm⟩
    · right
      cases pData with
      | none => cases h
      | some d => exact ⟨d, ev, rfl, hst, hs, (some.inj h).symm⟩

/-- A server that `Broadcast` cannot reach. -/
def skipped (w : Proxy) (p : Nat) : Proxy :=
  w.setStore (w.st.setId p { w.st.ids p with iGotNum := (w.st.ids p).iGotNum + 1 })

/-- `ConnectOK` of the event of a server, if it has one. -/
def ConnectOK (w : Proxy) : Option Nat → Prop
  | none => False
  | some b => (w.backends b).ev.status = .connecting ∨ (w.backends b).ev.status = .connected

/-- One server of the loop of `Broadcast`. -/
theorem broadcastLoop_cons {p : Nat} {pServer : Option Nat} {l : List (Option Nat)}
    (h : broadcastLoop p (pServer :: l) w = some w') :
    ∃ w₁, broadcastLoop p l w₁ = some w' ∧ (¬w.ConnectOK pServer ∧ w₁ = w.skipped p ∨
      ∃ b d ev, pServer = some b ∧ w.ConnectOK pServer ∧ d = MemPool.flushdbCmd ∧
        (w.backends b).ev.sendMsg (w.data d) p = some (.queued ev) ∧ w₁ = w.queued b d p ev) := by
  unfold broadcastLoop at h
  cases pServer with
  | none => exact ⟨_, h, .inl ⟨id, rfl⟩⟩
  | some b =>
    dsimp only at h
    split_ifs at h with hst
    · obtain ⟨w₁, h₁, h⟩ := bind_eq_some_iff.mp h
      refine ⟨w₁, h, .inr ?_⟩
      rcases sendMsg_some h₁ with ⟨h1, h2, -⟩ | ⟨d, ev, hd, -, hq, rfl⟩
      · exact absurd hst (not_or.mpr ⟨h1, h2⟩)
      · exact ⟨b, d, ev, rfl, hst, (some.inj hd).symm, hq, rfl⟩
    · exact ⟨_, h, .inl ⟨hst, rfl⟩⟩

theorem queued_status {b d p : Nat} {ev : RedisEvent}
    (hq : (w.backends b).ev.sendMsg (w.data d) p = some (.queued ev)) (b' : Nat) :
    ((w.queued b d p ev).backends b').ev.status = (w.backends b').ev.status := by
  unfold queued
  simp only [setBackend, setStore, update_apply]
  split_ifs with hb
  · rw [(RedisEvent.sendMsg_queued hq).status, hb]
  · rfl

/-- `SendMsg` does not open or close connections. -/
theorem sendMsg_fd {b p : Nat} {pData : Option Nat} (h : w.sendMsg b pData p = some w') (b' : Nat) :
    (w'.backends b').ev.iFD = (w.backends b').ev.iFD := by
  rcases sendMsg_some h with ⟨-, -, rfl⟩ | ⟨d, ev, -, -, hq, rfl⟩
  · unfold replyError
    split <;> rfl
  · unfold queued
    simp only [setBackend, setStore, update_apply]
    split_ifs with hb
    · rw [(RedisEvent.sendMsg_queued hq).fd, hb]
    · rfl

theorem connectSuccess_fd {cfg : Config} {b : Nat} (h : w.connectSuccess cfg b = some w') (b' : Nat) :
    (w'.backends b').ev.iFD = (w.backends b').ev.iFD := by
  unfold connectSuccess at h
  split_ifs at h
  · obtain ⟨⟨d, w₁⟩, h₁, h⟩ := bind_eq_some_iff.mp h
    obtain ⟨⟨p, st⟩, h₂, h⟩ := bind_eq_some_iff.mp h
    obtain ⟨mem, -, rfl⟩ := getData_some h₁
    exact sendMsg_fd h b'
  · rw [← some.inj h]

theorem connectResult_fd {cfg : Config} {b : Nat} {bConnected : Bool} {iRet : Ret}
    (h : w.connectResult cfg b bConnected = some (iRet, w')) (b' : Nat) :
    (w'.backends b').ev.iFD = (w.backends b').ev.iFD := by
  obtain ⟨⟨r, ev⟩, h₁, h⟩ := bind_eq_some_iff.mp h
  have hev : ev.iFD = (w.backends b).ev.iFD := by
    rcases RedisEvent.connectResult_some h₁ with ⟨-, -, rfl⟩ | ⟨-, -, rfl⟩ | ⟨-, -, rfl⟩ <;> rfl
  have hset : ((w.setEvent b ev).backends b').ev.iFD = (w.backends b').ev.iFD := by
    simp only [setEvent, setBackend, update_apply]
    split_ifs with hb
    · rw [hb]
      exact hev
    · rfl
  dsimp only at h
  split_ifs at h
  · obtain ⟨w₁, h₂, h⟩ := bind_eq_some_iff.mp h
    cases h
    rw [connectSuccess_fd h₂, hset]
  · cases h
    exact hset

/-- After the connection has been checked. -/
theorem backendWrite_rest {cfg : Config} {b : Nat} {script : List WritevRet} {conn : Connect} {iRet : Ret} {w₁ : Proxy}
    (h : (if iRet ≠ .ok then w₁.backendClose cfg b conn
      else do
        let (iRet, ev, sock) ← (w₁.backends b).ev.writeQueue { (w₁.backends b).sock with script }
        let w := w₁.setBackend b { w₁.backends b with ev, sock }
        if iRet = .error then w.backendClose cfg b conn else return w) = some w') :
    iRet ≠ .ok ∧ w₁.backendClose cfg b conn = some w' ∨
      iRet = .ok ∧ ∃ iRet' ev sock,
        (w₁.backends b).ev.writeQueue { (w₁.backends b).sock with script } = some (iRet', ev, sock) ∧
        (iRet' = .error ∧ (w₁.setBackend b { w₁.backends b with ev, sock }).backendClose cfg b conn = some w' ∨
          iRet' ≠ .error ∧ w' = w₁.setBackend b { w₁.backends b with ev, sock }) := by
  by_cases hok : iRet = .ok
  · rw [if_neg (not_not.mpr hok)] at h
    obtain ⟨⟨iRet', ev, sock⟩, hq, h⟩ := bind_eq_some_iff.mp h
    refine .inr ⟨hok, iRet', ev, sock, hq, ?_⟩
    dsimp only at h
    split_ifs at h with herr
    · exact .inl ⟨herr, h⟩
    · exact .inr ⟨herr, (some.inj h).symm⟩
  · rw [if_pos hok] at h
    exact .inl ⟨hok, h⟩

/-- A write event: first the outcome of `connect`, then the queue. -/
theorem backendWrite_some {cfg : Config} {b : Nat} {bConnected : Bool} {script : List WritevRet} {conn : Connect}
    (h : w.backendWrite cfg b bConnected script conn = some w') :
    ∃ iRet w₁, ((w.backends b).ev.status ≠ .connected ∧ w.connectResult cfg b bConnected = some (iRet, w₁) ∨
        (w.backends b).ev.status = .connected ∧ iRet = .ok ∧ w₁ = w) ∧
      (iRet ≠ .ok ∧ w₁.backendClose cfg b conn = some w' ∨
        iRet = .ok ∧ ∃ iRet' ev sock,
          (w₁.backends b).ev.writeQueue { (w₁.backends b).sock with script } = some (iRet', ev, sock) ∧
          (iRet' = .error ∧ (w₁.setBackend b { w₁.backends b with ev, sock }).backendClose cfg b conn = some w' ∨
            iRet' ≠ .error ∧ w' = w₁.setBackend b { w₁.backends b with ev, sock })) := by
  unfold backendWrite at h
  split_ifs at h with hst
  · obtain ⟨⟨iRet, w₁⟩, h₁, h⟩ := bind_eq_some_iff.mp h
    exact ⟨iRet, w₁, .inl ⟨hst, h₁⟩, backendWrite_rest h⟩
  · exact ⟨.ok, w, .inr ⟨not_not.mp hst, rfl, rfl⟩, backendWrite_rest h⟩

/-- A failed check of the reply to `SELECT`, and one that changes nothing but whether the database is
selected. -/
theorem resultCheck_none {cfg : Config} {b p : Nat} {m : Msg} (h : w.resultCheck cfg b p m = none) :
    cfg.mode = .tiny ∧ (w.backends b).lConnectSuccessTimes = 0 := by
  unfold resultCheck at h
  split_ifs at h with hmode
  · exact ⟨by_contra fun hn => hmode (.inl hn), by_contra fun hn => hmode (.inr hn)⟩
  · exact ⟨by_contra fun hn => hmode (.inl hn), by_contra fun hn => hmode (.inr hn)⟩

theorem resultCheck_some {cfg : Config} {b p : Nat} {m : Msg} (h : w.resultCheck cfg b p m = some w') :
    (w' = w ∧ (cfg.mode = .tiny → (w.backends b).lConnectSuccessTimes ≠ 0)) ∨
      (cfg.mode = .tiny ∧ (w.backends b).lConnectSuccessTimes = 0 ∧ (w.st.ids p).isSelect = true ∧ ∃ bListenFlag,
        w' = { w.setBackend b { w.backends b with lConnectSuccessTimes := 1 } with bListenFlag }) := by
  unfold resultCheck at h
  split_ifs at h with hmode hsel hok
  · refine .inl ⟨(some.inj h).symm, fun ht => ?_⟩
    rcases hmode with hmode | hmode
    · exact absurd ht hmode
    · exact hmode
  · refine .inr ⟨by_contra fun hn => hmode (.inl hn), by_contra fun hn => hmode (.inr hn), ?_, ?_⟩
    · simpa using hsel
    · exact ⟨_, (some.inj h).symm⟩

end Proxy

end RedisProxy
