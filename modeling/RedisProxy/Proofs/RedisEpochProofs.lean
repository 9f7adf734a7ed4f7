import RedisProxy.RedisEpoch
import RedisProxy.Proofs.RedisEventProofs

/-!
# Proofs: the stream and the pairing of one backend connection

The bytes that a connection has written are those that `consume` takes off the payloads in the order
of `SendMsg`; the queue of `m_vCiov` is what `consume` leaves. The wait ring holds the identities
that have not been paired yet.
-/

namespace RedisProxy.Epoch

variable {e : Epoch} {ev' : RedisEvent} {script : List WritevRet}

open Lib RedisEvent List

/-- The calls under which a connection is used as intended: payloads are not empty and the wait ring
has room for them, `writev` does not return zero, and a backend only answers a request that it has
received completely. -/
def Intended (e : Epoch) : Label → Prop
  | .sendMsg pData _ =>
    pData.bytes ≠ [] ∧ e.ev.waitRing.toList.length < maxRedisMsgIdentyPool
  | .write _ script => .zero ∉ script
  | .statusTimer _ => True
  | .reply =>
    e.paired.length < e.payloads.length ∧
      (e.payloads.take (e.paired.length + 1)).flatten.length ≤ e.sock.sent.length

instance (e : Epoch) (l : Label) : Decidable (e.Intended l) := by
  cases l <;> unfold Intended <;> infer_instance

/-- The connection against the history. -/
structure Inv (e : Epoch) : Prop where
  wf : e.ev.WF
  status : e.ev.status = .connecting ∨ e.ev.status = .connected
  ring : e.idents = e.paired ++ e.ev.waitRing.toList
  len : e.payloads.length = e.idents.length
  ne_nil : ∀ x ∈ e.payloads, x ≠ []
  le : e.sock.sent.length ≤ e.payloads.flatten.length
  sent : e.sock.sent = e.payloads.flatten.take e.sock.sent.length
  pending : e.ev.pending = (consume e.sock.sent.length e.payloads).2

theorem start_inv {ev : RedisEvent} (h : Start ev) : (start ev).Inv := by
  have hpend : ev.pending = [] := by simp [RedisEvent.pending, h.readIdx, h.writeIdx]
  refine ⟨⟨h.fd, ?_, ?_, ?_, ?_, ?_⟩, h.status, ?_, rfl, by simp [start], by simp [start], rfl, hpend⟩
  · simp [start, h.readIdx]
  · simp [start, h.writeIdx]
  · simp [start, h.writeIdx]
  · intro i hi
    simp [start, h.writeIdx] at hi
  · simp [start, hpend]
  · simp [start, h.ring]

theorem sendMsg_inv (h : e.Inv) {pData : Msg} {pIdenty : Nat} (hne : pData.bytes ≠ [])
    (hlt : e.ev.waitRing.toList.length < maxRedisMsgIdentyPool) (hs : SendMsgStep e.ev pData pIdenty ev') :
    Inv { e with ev := ev', payloads := e.payloads ++ [pData.bytes], idents := e.idents ++ [pIdenty] } := by
  have hnum := h.wf.num
  have hle := h.le
  have hx : ∀ x ∈ [pData.bytes], x ≠ [] := by
    intro x hx
    rw [mem_singleton.mp hx]
    exact hne
  refine ⟨hs.wf h.wf hlt hne, ?_, ?_, ?_, ?_, ?_, ?_, ?_⟩
  · rw [hs.status]
    exact h.status
  · show e.idents ++ [pIdenty] = e.paired ++ ev'.waitRing.toList
    rw [hs.ring, h.ring, append_assoc]
  · simp [h.len]
  · intro x hmem
    rcases mem_append.mp hmem with hmem | hmem
    · exact h.ne_nil x hmem
    · exact hx x hmem
  · show e.sock.sent.length ≤ (e.payloads ++ [pData.bytes]).flatten.length
    rw [flatten_append, length_append]
    omega
  · show e.sock.sent = (e.payloads ++ [pData.bytes]).flatten.take e.sock.sent.length
    rw [flatten_append, take_append_of_le_length hle]
    exact h.sent
  · show ev'.pending = (consume e.sock.sent.length (e.payloads ++ [pData.bytes])).2
    rw [hs.pending_eq h.wf.le (by omega), h.pending, consume_append _ hx hle]

/-- Bytes that go out keep the connection and the history in step. -/
theorem progress_inv (h : e.Inv) (sock : Socket) {sock' : Socket} (hsock : sock.sent = e.sock.sent)
    {k : Nat} (hp : Progress e.ev sock k ev' sock')
    (hst : ev'.status = .connecting ∨ ev'.status = .connected) (isClosed : Bool) :
    Inv { e with ev := ev', sock := sock', isClosed } := by
  have hle := h.le
  have hflat : e.ev.pending.flatten = e.payloads.flatten.drop e.sock.sent.length := by
    rw [h.pending, consume_flatten]
  have hk := hp.le
  rw [hflat, length_drop] at hk
  have hsent : sock'.sent = e.payloads.flatten.take (e.sock.sent.length + k) := by
    rw [hp.sent, hsock, hflat, take_add, ← h.sent]
  have hlen : sock'.sent.length = e.sock.sent.length + k := by
    rw [hsent, length_take]
    omega
  refine ⟨hp.wf, hst, ?_, h.len, h.ne_nil, ?_, ?_, ?_⟩
  · show e.idents = e.paired ++ ev'.waitRing.toList
    rw [hp.ring]
    exact h.ring
  · show sock'.sent.length ≤ e.payloads.flatten.length
    omega
  · show sock'.sent = e.payloads.flatten.take sock'.sent.length
    rw [hlen]
    exact hsent
  · show ev'.pending = (consume sock'.sent.length e.payloads).2
    rw [hp.pending, h.pending, hlen, consume_add]

/-- A request whose bytes have all gone out is no longer in `m_vCiov`, so its reply leaves the queue
and the wait ring consistent. -/
theorem reply_inv (h : e.Inv) (hlt : e.paired.length < e.payloads.length)
    (hsent : (e.payloads.take (e.paired.length + 1)).flatten.length ≤ e.sock.sent.length) :
    ∃ p ev', e.ev.popIdenty = some (p, ev') ∧ Inv { e with ev := ev', paired := e.paired ++ [p] } := by
  have hdone := le_consume hlt hsent
  have hnum : (consume e.sock.sent.length e.payloads).1 + (e.ev.lCiovWriteIdx - e.ev.lCiovReadIdx) =
      e.payloads.length := by
    rw [← pending_length, h.pending, consume_length]
  have hidents := congrArg List.length h.ring
  rw [length_append, ← h.len] at hidents
  cases hring : e.ev.waitRing.toList with
  | nil =>
    rw [hring, length_nil] at hidents
    omega
  | cons p rest =>
    refine ⟨p, _, popIdenty_cons hring, ?_⟩
    rw [hring, length_cons] at hidents
    refine ⟨⟨h.wf.fd, h.wf.le, h.wf.bound, ?_, h.wf.valid, h.wf.ne_nil⟩, h.status, ?_, h.len, h.ne_nil, h.le,
      h.sent, h.pending⟩
    · show e.ev.lCiovWriteIdx - e.ev.lCiovReadIdx ≤ e.ev.waitRing.popFront.2.toList.length
      rw [WaitRing.popFront_toList, hring, tail_cons]
      omega
    · show e.idents = e.paired ++ [p] ++ e.ev.waitRing.popFront.2.toList
      rw [WaitRing.popFront_toList, hring, tail_cons, h.ring, hring, append_assoc]
      rfl

/-! ## The connection check -/

/-- The status and the mask are no part of the queue. -/
theorem connected_inv (h : e.Inv) (mask : Mask) (ulMaxTryConnect : Nat) :
    Inv { e with ev := { e.ev with status := .connected, ulMaxTryConnect, mask } } :=
  ⟨⟨h.wf.fd, h.wf.le, h.wf.bound, h.wf.num, h.wf.valid, h.wf.ne_nil⟩, .inr rfl, h.ring, h.len, h.ne_nil,
    h.le, h.sent, h.pending⟩

theorem Inv.close (h : e.Inv) (isClosed : Bool) : Inv { e with isClosed } :=
  ⟨h.wf, h.status, h.ring, h.len, h.ne_nil, h.le, h.sent, h.pending⟩

theorem connectResult_inv (h : e.Inv) (bConnected : Bool) :
    ∃ iRet ev', e.ev.connectResult some bConnected = some (iRet, ev') ∧ Inv { e with ev := ev' } ∧
      (iRet = .ok → ev'.status = .connected) := by
  unfold connectResult
  rcases h.status with hst | hst
  · rw [if_neg (not_not.mpr hst)]
    cases bConnected with
    | false => exact ⟨_, _, rfl, h, fun hok => by simp at hok⟩
    | true => exact ⟨_, _, rfl, connected_inv h _ _, fun _ => rfl⟩
  · rw [if_pos (by simp [hst])]
    exact ⟨_, _, rfl, h, fun _ => hst⟩

theorem writeQueue_inv (h : e.Inv) (hz : .zero ∉ script) :
    ∃ iRet ev' sock', e.ev.writeQueue { e.sock with script } = some (iRet, ev', sock') ∧
      ∀ isClosed, Inv { e with ev := ev', sock := sock', isClosed } := by
  obtain ⟨iRet, ev', sock', k, hw, hp⟩ := writeQueue_spec h.wf { e.sock with script } hz
  refine ⟨iRet, ev', sock', hw, fun isClosed => progress_inv h { e.sock with script } rfl hp ?_ isClosed⟩
  rw [hp.status]
  exact h.status

theorem write_inv (h : e.Inv) (bConnected : Bool) (hz : .zero ∉ script) :
    ∃ iRet ev' sock', e.ev.write some bConnected { e.sock with script } = some (iRet, ev', sock') ∧
      ∀ isClosed, Inv { e with ev := ev', sock := sock', isClosed } := by
  unfold RedisEvent.write
  by_cases hst : e.ev.status = .connected
  · rw [if_neg (not_not.mpr hst)]
    exact writeQueue_inv h hz
  · rw [if_pos hst]
    obtain ⟨iRet, ev₁, hc, hinv, hok⟩ := connectResult_inv h bConnected
    rw [hc]
    dsimp only
    by_cases hret : iRet = .ok
    · rw [if_neg (not_not.mpr hret)]
      exact writeQueue_inv hinv hz
    · rw [if_pos hret]
      refine ⟨_, _, _, rfl, fun isClosed => ?_⟩
      exact ⟨hinv.wf, hinv.status, hinv.ring, hinv.len, hinv.ne_nil, hinv.le, hinv.sent, hinv.pending⟩

/-! ## Whole epochs -/

/-- An intended call neither aborts nor breaks the invariant. -/
theorem step_inv (e : Epoch) (l : Label) (h : e.Inv) (hl : e.Intended l) :
    ∃ e', e.step l = some e' ∧ e'.Inv := by
  unfold step
  split_ifs
  · exact ⟨e, rfl, h⟩
  · cases l with
    | sendMsg pData pIdenty =>
      obtain ⟨hne, hlt⟩ := hl
      obtain ⟨ev', hs⟩ := sendMsg_isQueued h.wf.le h.wf.num h.status hlt pData pIdenty
      simp only [hs]
      exact ⟨_, rfl, sendMsg_inv h hne hlt (sendMsg_queued hs)⟩
    | write bConnected script =>
      obtain ⟨iRet, ev', sock', hw, hinv⟩ := write_inv h bConnected hl
      simp only [hw]
      exact ⟨_, rfl, hinv _⟩
    | statusTimer bConnected =>
      obtain ⟨iRet, ev', hc, hinv, -⟩ := connectResult_inv h bConnected
      simp only [hc]
      exact ⟨_, rfl, hinv.close _⟩
    | reply =>
      obtain ⟨p, ev', hpop, hinv⟩ := reply_inv h hl.1 hl.2
      simp only [hpop]
      exact ⟨_, rfl, hinv⟩

/-- Within one connection epoch no intended call aborts, the bytes written are a prefix of the
payloads in the order of `SendMsg`, and the replies are paired with the identities in that order. -/
theorem written_prefix_and_paired {ev : RedisEvent} (hev : Start ev) (ls : List Label)
    (hls : Meets step Intended (start ev) ls) :
    ∃ e, run step (start ev) ls = some e ∧ e.sock.sent <+: e.payloads.flatten ∧
      ∀ k, k < e.paired.length → e.paired[k]? = e.idents[k]? := by
  obtain ⟨e, hrun, hinv⟩ := run_isSome step_inv ls (start ev) (start_inv hev) hls
  refine ⟨e, hrun, ?_, ?_⟩
  · rw [hinv.sent]
    exact take_prefix _ _
  · intro k hk
    rw [hinv.ring, getElem?_append_left hk]

/-- One request that is written in two parts and answered. -/
theorem written_prefix_and_paired_ping :
    ∃ e, run step (start (RedisEvent.init.reInit.connectInProgress 5))
        [.sendMsg ⟨[80, 13, 10], by decide⟩ 7, .write true [.accept 0, .eagain], .write true [.accept 1], .reply] =
          some e ∧ e.sock.sent <+: e.payloads.flatten ∧ ∀ k, k < e.paired.length → e.paired[k]? = e.idents[k]? := by
  exact written_prefix_and_paired (start_connectInProgress _ (by decide)) _ (by decide)

end RedisProxy.Epoch
