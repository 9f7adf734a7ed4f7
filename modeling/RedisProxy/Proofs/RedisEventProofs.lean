import RedisProxy.RedisEvent
import RedisProxy.Proofs.EventProofs

/-!
# Proofs: the request queue of `GR_RedisEvent`

The cells of `m_vCiov` between the two indices are a queue of byte strings, `pending`. `SendMsg` adds
at its back, also when it renormalises the indices; each `Sendv` takes bytes off its front.
-/

namespace RedisProxy.RedisEvent

open Lib List Option Function

/-- What is left to write of the requests in `m_vCiov`, oldest first. -/
def pending (ev : RedisEvent) : List (List UInt8) :=
  window (fun i => (ev.vCiov i).bytes) maxRedisMsgIdentyPool ev.lCiovReadIdx
    (ev.lCiovWriteIdx - ev.lCiovReadIdx)

/-- The indices are in order, and a request that is not written yet still waits for its reply. -/
structure WF (ev : RedisEvent) : Prop where
  fd : 0 < ev.iFD
  le : ev.lCiovReadIdx ≤ ev.lCiovWriteIdx
  bound : ev.lCiovWriteIdx ≤ 0xFFFFFFF
  num : ev.lCiovWriteIdx - ev.lCiovReadIdx ≤ ev.waitRing.toList.length
  valid : ∀ i < ev.lCiovWriteIdx - ev.lCiovReadIdx,
    (ev.vCiov ((ev.lCiovReadIdx + i) % maxRedisMsgIdentyPool)).Valid
  ne_nil : ∀ x ∈ ev.pending, x ≠ []

@[simp] theorem pending_length (ev : RedisEvent) :
    ev.pending.length = ev.lCiovWriteIdx - ev.lCiovReadIdx := by
  simp [pending]

theorem WF.num_le {ev : RedisEvent} (h : ev.WF) :
    ev.lCiovWriteIdx - ev.lCiovReadIdx ≤ maxRedisMsgIdentyPool :=
  h.num.trans ev.waitRing.length_le

/-! ## `SendMsg` -/

/-- Renormalising moves both indices by a multiple of the length of the array. -/
theorem renormalise_spec (ev : RedisEvent) (hle : ev.lCiovReadIdx ≤ ev.lCiovWriteIdx)
    (hnum : ev.lCiovWriteIdx - ev.lCiovReadIdx ≤ maxRedisMsgIdentyPool) :
    ∃ r w, ev.renormalise = { ev with lCiovReadIdx := r, lCiovWriteIdx := w } ∧ r ≤ w ∧
      w - r = ev.lCiovWriteIdx - ev.lCiovReadIdx ∧
      r % maxRedisMsgIdentyPool = ev.lCiovReadIdx % maxRedisMsgIdentyPool ∧ w ≤ 0xFFFFFFF := by
  unfold renormalise
  split_ifs with h
  · refine ⟨_, _, rfl, Nat.le_add_right _ _, Nat.add_sub_cancel_left .., Nat.mod_mod _ _, ?_⟩
    simp only [maxRedisMsgIdentyPool] at *
    omega
  · exact ⟨_, _, rfl, hle, rfl, rfl, Nat.not_lt.mp h⟩

/-- What `SendMsg` does on an open connection whose wait ring is not full. -/
structure SendMsgStep (ev : RedisEvent) (pData : Msg) (pIdenty : Nat) (ev' : RedisEvent) : Prop where
  ring : ev'.waitRing.toList = ev.waitRing.toList ++ [pIdenty]
  num : ev'.lCiovWriteIdx - ev'.lCiovReadIdx = ev.lCiovWriteIdx - ev.lCiovReadIdx + 1
  le : ev'.lCiovReadIdx ≤ ev'.lCiovWriteIdx
  bound : ev'.lCiovWriteIdx ≤ 0xFFFFFFF
  mod : ev'.lCiovReadIdx % maxRedisMsgIdentyPool = ev.lCiovReadIdx % maxRedisMsgIdentyPool
  vCiov : ev'.vCiov = Function.update ev.vCiov (ev.lCiovWriteIdx % maxRedisMsgIdentyPool) pData.iovec
  fd : ev'.iFD = ev.iFD
  status : ev'.status = ev.status
  mask : ev'.mask = ev.mask.addWrite ev.iFD

/-- Every `SendMsg` that queues its request does so in this way. -/
theorem sendMsg_queued {ev ev' : RedisEvent} {pData : Msg} {pIdenty : Nat}
    (h : ev.sendMsg pData pIdenty = some (.queued ev')) : SendMsgStep ev pData pIdenty ev' := by
  unfold sendMsg at h
  split_ifs at h with hst hfull
  · cases h
  split at h
  · cases h
  · rename_i r hadd
    obtain ⟨-, hring, -⟩ := WaitRing.addData_some hadd
    dsimp only at h
    split_ifs at h with hassert
    obtain ⟨i, w, hre, hle, hdiff, hmod, hbound⟩ := renormalise_spec
      { ev with waitRing := r, lCiovWriteIdx := ev.lCiovWriteIdx + 1 } hassert.1.le hassert.2
    rw [hre] at h
    simp only [some.injEq, SendMsgRes.queued.injEq] at h
    subst h
    simp only at hassert hdiff hmod
    exact ⟨hring, by simp only; omega, hle, hbound, hmod, rfl, rfl, rfl, rfl⟩

/-- A queued request fits into `m_vCiov`. -/
theorem sendMsg_num_le {ev ev' : RedisEvent} {pData : Msg} {pIdenty : Nat}
    (h : ev.sendMsg pData pIdenty = some (.queued ev')) :
    ev'.lCiovWriteIdx - ev'.lCiovReadIdx ≤ maxRedisMsgIdentyPool := by
  have hnum := (sendMsg_queued h).num
  unfold sendMsg at h
  split_ifs at h with hst hfull
  · cases h
  split at h
  · cases h
  · dsimp only at h
    split_ifs at h with hassert
    omega

/-- `SendMsg` queues a request unless it finds the connection closed or the wait ring full. -/
theorem sendMsg_isQueued {ev : RedisEvent} (hle : ev.lCiovReadIdx ≤ ev.lCiovWriteIdx)
    (hnum : ev.lCiovWriteIdx - ev.lCiovReadIdx ≤ ev.waitRing.toList.length)
    (hst : ev.status = .connecting ∨ ev.status = .connected)
    (hring : ev.waitRing.toList.length < maxRedisMsgIdentyPool) (pData : Msg) (pIdenty : Nat) :
    ∃ ev', ev.sendMsg pData pIdenty = some (.queued ev') := by
  unfold sendMsg
  rw [if_neg (by rcases hst with h | h <;> simp [h]), if_neg (by omega)]
  cases hadd : ev.waitRing.addData pIdenty with
  | none =>
    have := (ev.waitRing.addData_eq_none_iff pIdenty).mp hadd
    omega
  | some r =>
    dsimp only
    rw [if_pos (by omega)]
    exact ⟨_, rfl⟩

theorem SendMsgStep.pending_eq {ev ev' : RedisEvent} {pData : Msg} {pIdenty : Nat} (hle : ev.lCiovReadIdx ≤ ev.lCiovWriteIdx)
    (hlt : ev.lCiovWriteIdx - ev.lCiovReadIdx < maxRedisMsgIdentyPool)
    (h : SendMsgStep ev pData pIdenty ev') : ev'.pending = ev.pending ++ [pData.bytes] := by
  have hf : (fun i => (ev'.vCiov i).bytes) = update (fun i => (ev.vCiov i).bytes)
      ((ev.lCiovReadIdx + (ev.lCiovWriteIdx - ev.lCiovReadIdx)) % maxRedisMsgIdentyPool) pData.bytes := by
    rw [Nat.add_sub_cancel' hle, h.vCiov]
    funext i
    simp only [update_apply]
    split_ifs
    · exact pData.iovec_bytes
    · rfl
  unfold pending
  rw [h.num, ← window_mod, h.mod, window_mod, hf, window_push _ hlt]

theorem SendMsgStep.wf {ev ev' : RedisEvent} {pData : Msg} {pIdenty : Nat} (hwf : ev.WF)
    (hring : ev.waitRing.toList.length < maxRedisMsgIdentyPool) (hne : pData.bytes ≠ [])
    (h : SendMsgStep ev pData pIdenty ev') : ev'.WF := by
  have hnum := hwf.num
  refine ⟨by rw [h.fd]; exact hwf.fd, h.le, h.bound, ?_, ?_, ?_⟩
  · rw [h.num, h.ring, length_append, length_singleton]
    omega
  · intro i hi
    rw [h.num] at hi
    rw [← Nat.mod_add_mod, h.mod, Nat.mod_add_mod, h.vCiov, update_apply]
    split_ifs with heq
    · exact pData.iovec_valid
    · rcases Nat.lt_succ_iff_lt_or_eq.mp hi with hlt | rfl
      · exact hwf.valid i hlt
      · rw [Nat.add_sub_cancel' hwf.le] at heq
        exact absurd rfl heq
  · rw [h.pending_eq hwf.le (by omega)]
    intro x hx
    rcases mem_append.mp hx with hx | hx
    · exact hwf.ne_nil x hx
    · rw [mem_singleton.mp hx]
      exact hne

/-! ## Replies -/

theorem popIdenty_cons {ev : RedisEvent} {p : Nat} {rest : List Nat} (h : ev.waitRing.toList = p :: rest) :
    ev.popIdenty = some (p, { ev with waitRing := ev.waitRing.popFront.2 }) := by
  have hfst : ev.waitRing.popFront.1 = some p := by simp [h]
  unfold popIdenty
  rw [← Prod.mk.eta (p := ev.waitRing.popFront), hfst]

/-! ## `Sendv` -/

theorem iterOpt_succ (j n : Nat) : iterOpt (fun i : Nat => some (i + 1)) j n = some (n + j) := by
  induction j generalizing n with
  | zero => rfl
  | succ j ih =>
    show iterOpt _ j (n + 1) = _
    rw [ih, Nat.add_assoc, Nat.add_comm 1 j]

/-- The cells that `Write` passes to `Sendv` are the front of the queue. -/
theorem slice_eq_window (v : Nat → Iovec) {r n : Nat}
    (h : r % maxRedisMsgIdentyPool + n ≤ maxRedisMsgIdentyPool) :
    (iovSlice v (r % maxRedisMsgIdentyPool) n).map Iovec.bytes =
      window (fun i => (v i).bytes) maxRedisMsgIdentyPool r n := by
  rw [← window_mod, window_eq_slice h, iovSlice, List.map_map]
  rfl

/-- `k` bytes of the queue went out, and nothing else happened that matters for it. -/
structure Progress (ev : RedisEvent) (sock : Socket) (k : Nat) (ev' : RedisEvent) (sock' : Socket) : Prop where
  le : k ≤ ev.pending.flatten.length
  sent : sock'.sent = sock.sent ++ ev.pending.flatten.take k
  script : sock'.script <:+ sock.script
  pending : ev'.pending = (consume k ev.pending).2
  writeIdx : ev'.lCiovWriteIdx = ev.lCiovWriteIdx
  ring : ev'.waitRing = ev.waitRing
  status : ev'.status = ev.status
  wf : ev'.WF

theorem WF.mask {ev : RedisEvent} (h : ev.WF) (mask : Mask) : { ev with mask }.WF :=
  ⟨h.fd, h.le, h.bound, h.num, h.valid, h.ne_nil⟩

theorem Progress.refl {ev : RedisEvent} (hwf : ev.WF) (sock : Socket) {sock' : Socket} (hsent : sock'.sent = sock.sent)
    (hscript : sock'.script <:+ sock.script) : Progress ev sock 0 ev sock' where
  le := Nat.zero_le _
  sent := by rw [hsent]; simp
  script := hscript
  pending := by rw [consume_zero hwf.ne_nil]
  writeIdx := rfl
  ring := rfl
  status := rfl
  wf := hwf

theorem Progress.trans {ev ev₁ ev₂ : RedisEvent} {sock sock₁ sock₂ : Socket} {k k' : Nat}
    (h : Progress ev sock k ev₁ sock₁) (h' : Progress ev₁ sock₁ k' ev₂ sock₂) :
    Progress ev sock (k + k') ev₂ sock₂ := by
  have hflat : ev₁.pending.flatten = ev.pending.flatten.drop k := by rw [h.pending, consume_flatten]
  have hle' := h'.le
  have hle := h.le
  rw [hflat, length_drop] at hle'
  refine ⟨by omega, ?_, h'.script.trans h.script, ?_, h'.writeIdx.trans h.writeIdx, h'.ring.trans h.ring,
    h'.status.trans h.status, h'.wf⟩
  · rw [h'.sent, h.sent, hflat, append_assoc, ← take_add]
  · rw [h'.pending, h.pending, consume_add]

theorem flatMap_bytes (l : List Iovec) : l.flatMap Iovec.bytes = (l.map Iovec.bytes).flatten := rfl

section Sendv

variable {ev : RedisEvent} {n : Nat}

theorem take_pending (hle : n ≤ ev.lCiovWriteIdx - ev.lCiovReadIdx) :
    ev.pending.take n =
      window (fun i => (ev.vCiov i).bytes) maxRedisMsgIdentyPool ev.lCiovReadIdx n := by
  unfold RedisEvent.pending
  obtain ⟨m, hm⟩ := Nat.exists_eq_add_of_le hle
  rw [hm, window_append, take_left' (window_length ..)]

theorem pending_split (hle : n ≤ ev.lCiovWriteIdx - ev.lCiovReadIdx) :
    ev.pending = ev.pending.take n ++ window (fun i => (ev.vCiov i).bytes) maxRedisMsgIdentyPool
      (ev.lCiovReadIdx + n) (ev.lCiovWriteIdx - ev.lCiovReadIdx - n) := by
  rw [take_pending hle, ← window_append, Nat.add_sub_cancel' hle]
  rfl

/-- The cells behind the front `n` of the queue are none of those that `Sendv` writes. -/
theorem cell_outside (hwf : ev.WF) {n i : Nat}
    (hi : i < ev.lCiovWriteIdx - ev.lCiovReadIdx - n) :
    (ev.lCiovReadIdx + n + i) % maxRedisMsgIdentyPool < ev.lCiovReadIdx % maxRedisMsgIdentyPool ∨
      ev.lCiovReadIdx % maxRedisMsgIdentyPool + n ≤
        (ev.lCiovReadIdx + n + i) % maxRedisMsgIdentyPool := by
  have hnum := hwf.num_le
  rw [Nat.add_assoc]
  exact mod_outside (Nat.le_add_right n i) (by omega)

/-- The loop of `Sendv` after `k` bytes of the front `n` cells went out. -/
theorem sendvLoop_queue (hwf : ev.WF)
    (hslice : ev.lCiovReadIdx % maxRedisMsgIdentyPool + n ≤ maxRedisMsgIdentyPool)
    (hle : n ≤ ev.lCiovWriteIdx - ev.lCiovReadIdx) {k : Nat} (hk : k ≤ (ev.pending.take n).flatten.length)
    (hmax : k ≤ maxRwCount) {ret : Ret} {vCiov : Nat → Iovec} {lCiovReadIdx : Nat}
    (h : sendvLoop (fun i => some (i + 1)) n (ev.lCiovReadIdx % maxRedisMsgIdentyPool) k ev.vCiov
      ev.lCiovReadIdx = some (ret, vCiov, lCiovReadIdx)) :
    { ev with vCiov, lCiovReadIdx }.pending = (consume k ev.pending).2 ∧
      { ev with vCiov, lCiovReadIdx }.WF ∧ (ret = .ok → lCiovReadIdx = ev.lCiovReadIdx + n) := by
  have hvalid : ∀ i, ev.lCiovReadIdx % maxRedisMsgIdentyPool ≤ i →
      i < ev.lCiovReadIdx % maxRedisMsgIdentyPool + n → (ev.vCiov i).Valid := by
    intro i h1 h2
    have := hwf.valid (i - ev.lCiovReadIdx % maxRedisMsgIdentyPool) (by omega)
    rwa [← Nat.mod_add_mod, Nat.add_sub_cancel' h1, Nat.mod_eq_of_lt (by omega)] at this
  have hres := sendvLoop_spec _ _ _ _ _ _ _ hvalid hmax h
  obtain ⟨hsent, hret, hrest, hframe, hval⟩ := hres
  rw [slice_eq_window ev.vCiov hslice, ← take_pending hle] at hsent hret hrest
  have hj : (consume k (ev.pending.take n)).1 ≤ n := by
    have := consume_le k (ev.pending.take n)
    rw [length_take, pending_length] at this
    omega
  set j := (consume k (ev.pending.take n)).1
  have hread : lCiovReadIdx = ev.lCiovReadIdx + j := by
    rw [iterOpt_succ] at hsent
    exact (some.inj hsent).symm
  have hslice' : (iovSlice vCiov (ev.lCiovReadIdx % maxRedisMsgIdentyPool + j) (n - j)).map Iovec.bytes =
      window (fun i => (vCiov i).bytes) maxRedisMsgIdentyPool (ev.lCiovReadIdx + j) (n - j) := by
    rw [← window_mod, ← Nat.mod_add_mod, window_mod, window_eq_slice (by omega), iovSlice, List.map_map]
    rfl
  have hback : window (fun i => (vCiov i).bytes) maxRedisMsgIdentyPool (ev.lCiovReadIdx + n)
      (ev.lCiovWriteIdx - ev.lCiovReadIdx - n) = window (fun i => (ev.vCiov i).bytes)
        maxRedisMsgIdentyPool (ev.lCiovReadIdx + n) (ev.lCiovWriteIdx - ev.lCiovReadIdx - n) := by
    apply window_congr
    intro i hi
    simp only [hframe _ (cell_outside hwf hi)]
  have hpend : { ev with vCiov, lCiovReadIdx }.pending = (consume k ev.pending).2 := by
    rw [pending_split hle, consume_append _ ?_ hk]
    · show window (fun i => (vCiov i).bytes) maxRedisMsgIdentyPool lCiovReadIdx
        (ev.lCiovWriteIdx - lCiovReadIdx) = _
      rw [hread, show ev.lCiovWriteIdx - (ev.lCiovReadIdx + j) =
        (n - j) + (ev.lCiovWriteIdx - ev.lCiovReadIdx - n) by omega, window_append, ← hslice', hrest,
        Nat.add_assoc, Nat.add_sub_cancel' hj, hback]
    · intro x hx
      apply hwf.ne_nil
      rw [pending_split hle]
      exact mem_append_right _ hx
  refine ⟨hpend, ⟨hwf.fd, ?_, hwf.bound, ?_, ?_, ?_⟩, ?_⟩
  · show lCiovReadIdx ≤ ev.lCiovWriteIdx
    have := hwf.le
    omega
  · show ev.lCiovWriteIdx - lCiovReadIdx ≤ ev.waitRing.toList.length
    have := hwf.num
    omega
  · intro i hi
    have hi' : i < ev.lCiovWriteIdx - lCiovReadIdx := hi
    show (vCiov ((lCiovReadIdx + i) % maxRedisMsgIdentyPool)).Valid
    rcases Nat.lt_or_ge (j + i) n with hlt | hge
    · rw [hread, Nat.add_assoc, ← Nat.mod_add_mod, Nat.mod_eq_of_lt (by omega)]
      exact hval _ (by omega) (by omega)
    · have hcell := cell_outside hwf (n := n) (i := j + i - n) (by omega)
      have := hwf.valid (j + i) (by omega)
      rw [show ev.lCiovReadIdx + n + (j + i - n) = ev.lCiovReadIdx + (j + i) by omega] at hcell
      rw [hread, Nat.add_assoc, hframe _ hcell]
      exact this
  · rw [hpend]
    exact consume_ne_nil hwf.ne_nil
  · intro hok
    rw [hret] at hok
    split_ifs at hok with hjn
    rw [hread, hjn]

/-- `Sendv` over the front `n` cells of the queue. -/
theorem sendv_spec (hwf : ev.WF) (hn : 0 < n)
    (hslice : ev.lCiovReadIdx % maxRedisMsgIdentyPool + n ≤ maxRedisMsgIdentyPool)
    (hle : n ≤ ev.lCiovWriteIdx - ev.lCiovReadIdx) (sock : Socket) :
    ∃ ret ev' sock' k, ev.sendv (ev.lCiovReadIdx % maxRedisMsgIdentyPool) n sock = some (ret, ev', sock') ∧
      Progress ev sock k ev' sock' ∧
      (.zero ∉ sock.script → ret = .ok → ev'.lCiovReadIdx = ev.lCiovReadIdx + n) := by
  set iov := iovSlice ev.vCiov (ev.lCiovReadIdx % maxRedisMsgIdentyPool) n with hiov
  have hbytes : iov.flatMap Iovec.bytes = (ev.pending.take n).flatten := by
    rw [flatMap_bytes, slice_eq_window ev.vCiov hslice, take_pending hle]
  have hoff := doSendv_spec iov sock
  set r := (doSendv iov sock).1
  set sock' := (doSendv iov sock).2
  have hdo : doSendv iov sock = (r, sock') := rfl
  unfold sendv
  rw [if_neg (by omega), ← hiov, hdo]
  dsimp only
  rcases hoff.code with ⟨hcode, hsent⟩ | ⟨k, hk, hkoff, hkmax, hsent⟩
  · have hprog := Progress.refl hwf sock hsent hoff.script
    rcases hcode with hcode | hcode
    · rw [hcode, if_pos (by decide), if_neg (by decide)]
      exact ⟨_, _, _, 0, rfl, hprog, fun _ h => by simp at h⟩
    · rw [hcode, if_pos (by decide), if_pos (by decide)]
      exact ⟨_, _, _, 0, rfl, hprog, fun _ h => by simp at h⟩
  · have hklen : k ≤ (ev.pending.take n).flatten.length := by
      rw [← hbytes, ← take_append_drop 512 iov, flatMap_append, length_append]
      omega
    rw [take_offered hkoff, hbytes] at hsent
    have htake : (ev.pending.take n).flatten.take k = ev.pending.flatten.take k := by
      conv_rhs => rw [pending_split hle, flatten_append, take_append_of_le_length hklen]
    rw [htake] at hsent
    have hkall : k ≤ ev.pending.flatten.length := by
      rw [pending_split hle, flatten_append, length_append]
      omega
    rw [hk, if_neg (by omega)]
    split_ifs with h0
    · -- `writev` returned zero although there was something to write
      refine ⟨_, _, _, 0, rfl, Progress.refl hwf sock ?_ hoff.script, fun hz _ => absurd ?_ (hoff.pos hz ?_)⟩
      · rw [hsent]
        simp [show k = 0 by omega]
      · rw [hk, h0]
      · intro hnil
        obtain ⟨m, rfl⟩ := Nat.exists_eq_succ_of_ne_zero (by omega : n ≠ 0)
        rw [hiov, iovSlice_cons, take_succ_cons, flatMap_cons, append_eq_nil_iff] at hnil
        have hmem : (ev.vCiov (ev.lCiovReadIdx % maxRedisMsgIdentyPool)).bytes ∈ ev.pending := by
          rw [pending_split hle, take_pending hle, window_cons]
          exact mem_append_left _ (mem_cons_self ..)
        exact hwf.ne_nil _ hmem hnil.1
    · obtain ⟨⟨ret, vCiov, lCiovReadIdx⟩, hloop⟩ := isSome_iff_exists.mp
        (sendvLoop_isSome (fun i : Nat => some (i + 1)) (fun _ => rfl) n
          (ev.lCiovReadIdx % maxRedisMsgIdentyPool) (k : Int) ev.vCiov ev.lCiovReadIdx)
      obtain ⟨hpend, hwf', hok⟩ := sendvLoop_queue hwf hslice hle hklen hkmax hloop
      rw [hloop]
      cases ret with
      | ok =>
        exact ⟨_, _, _, k, rfl, ⟨hkall, hsent, hoff.script, hpend, rfl, rfl, rfl, hwf'.mask _⟩,
          fun _ _ => hok rfl⟩
      | eagain =>
        exact ⟨_, _, _, k, rfl, ⟨hkall, hsent, hoff.script, hpend, rfl, rfl, rfl, hwf'⟩,
          fun _ h => by simp at h⟩
      | error =>
        exact ⟨_, _, _, k, rfl, ⟨hkall, hsent, hoff.script, hpend, rfl, rfl, rfl, hwf'⟩,
          fun _ h => by simp at h⟩

end Sendv

/-- What `DoSendv` does to the socket is all that `Sendv` does to it, and `Sendv` fails only if `DoSendv`
does. -/
theorem sendv_doSendv {ev ev' : RedisEvent} {iov nsend : Nat} {sock sock' : Socket} {ret : Ret}
    (h : ev.sendv iov nsend sock = some (ret, ev', sock')) :
    sock' = (doSendv (iovSlice ev.vCiov iov nsend) sock).2 ∧
      (ret = .error → (doSendv (iovSlice ev.vCiov iov nsend) sock).1 = grError) := by
  unfold sendv at h
  split_ifs at h
  dsimp only at h
  split_ifs at h with hneg heagain
  · simp only [some.injEq, Prod.mk.injEq] at h
    refine ⟨h.2.2.symm, fun _ => ?_⟩
    rcases (doSendv_spec (iovSlice ev.vCiov iov nsend) sock).code with ⟨hcode | hcode, -⟩ | ⟨k, hk, -⟩
    · exact absurd hcode heagain
    · exact hcode
    · rw [hk] at hneg
      omega
  · simp only [some.injEq, Prod.mk.injEq] at h
    exact ⟨h.2.2.symm, fun he => absurd (h.1.trans he) (by simp)⟩
  · simp only [some.injEq, Prod.mk.injEq] at h
    exact ⟨h.2.2.symm, fun he => absurd (h.1.trans he) (by simp)⟩
  · split at h
    · cases h
    · next r vCiov lCiovReadIdx hloop =>
      cases r with
      | ok =>
        simp only [some.injEq, Prod.mk.injEq] at h
        exact ⟨h.2.2.symm, fun he => absurd (h.1.trans he) (by simp)⟩
      | eagain =>
        simp only [some.injEq, Prod.mk.injEq] at h
        exact ⟨h.2.2.symm, fun he => absurd (h.1.trans he) (by simp)⟩
      | error => exact absurd hloop (sendvLoop_ne_error _ _ _ _ _ _ _ _)

/-- The bytes that `Sendv` writes are added to those written before, and it uses up answers of the
kernel. -/
theorem sendv_sock {ev ev' : RedisEvent} {iov nsend : Nat} {sock sock' : Socket} {ret : Ret}
    (h : ev.sendv iov nsend sock = some (ret, ev', sock')) :
    sock.sent <+: sock'.sent ∧ sock'.script <:+ sock.script := by
  have hspec := doSendv_spec (iovSlice ev.vCiov iov nsend) sock
  rw [(sendv_doSendv h).1]
  refine ⟨?_, hspec.script⟩
  rcases hspec.code with ⟨-, hsent⟩ | ⟨k, -, -, -, hsent⟩
  · rw [hsent]
  · rw [hsent]
    exact prefix_append ..

/-! ## `Write` -/

/-- The part of the array that `Write` passes to the first `Sendv`, and what is left for the second. -/
theorem wrap_cases {ev : RedisEvent} (hle : ev.lCiovReadIdx ≤ ev.lCiovWriteIdx)
    (hnum : ev.lCiovWriteIdx - ev.lCiovReadIdx ≤ maxRedisMsgIdentyPool)
    (hne : ev.lCiovWriteIdx ≠ ev.lCiovReadIdx) :
    let iRead := ev.lCiovReadIdx % maxRedisMsgIdentyPool
    let iWrite := ev.lCiovWriteIdx % maxRedisMsgIdentyPool
    let num := ev.lCiovWriteIdx - ev.lCiovReadIdx
    (iRead < iWrite ∧ iWrite - iRead = num) ∨
      (iWrite ≤ iRead ∧ maxRedisMsgIdentyPool - iRead ≤ num ∧
        num - (maxRedisMsgIdentyPool - iRead) = iWrite) := by
  intro iRead iWrite num
  have hiR : iRead < maxRedisMsgIdentyPool := Nat.mod_lt _ maxRedisMsgIdentyPool_pos
  have hiW : iWrite = (iRead + num) % maxRedisMsgIdentyPool := by
    show ev.lCiovWriteIdx % _ = _
    rw [Nat.mod_add_mod, Nat.add_sub_cancel' hle]
  rcases Nat.lt_or_ge (iRead + num) maxRedisMsgIdentyPool with h | h
  · left
    rw [Nat.mod_eq_of_lt h] at hiW
    omega
  · right
    rw [Nat.mod_eq_sub_mod h, Nat.mod_eq_of_lt (by omega)] at hiW
    omega

/-- A write event on an established connection takes bytes off the front of the queue. -/
theorem writeQueue_spec {ev : RedisEvent} (hwf : ev.WF) (sock : Socket) (hz : .zero ∉ sock.script) :
    ∃ ret ev' sock' k, ev.writeQueue sock = some (ret, ev', sock') ∧ Progress ev sock k ev' sock' := by
  unfold writeQueue
  rw [if_pos ⟨hwf.le, hwf.num_le⟩]
  split_ifs with heq
  · refine ⟨_, _, _, 0, rfl, ?_⟩
    have hprog := Progress.refl hwf sock rfl suffix_rfl
    exact ⟨hprog.le, hprog.sent, hprog.script, hprog.pending, rfl, rfl, rfl, hwf.mask _⟩
  · have hcases := wrap_cases hwf.le hwf.num_le heq
    have hlt := Nat.mod_lt ev.lCiovWriteIdx maxRedisMsgIdentyPool_pos
    have hltR := Nat.mod_lt ev.lCiovReadIdx maxRedisMsgIdentyPool_pos
    rcases hcases with ⟨hrw, hnum⟩ | ⟨hwr, hfirst, hsecond⟩
    · rw [if_pos hrw]
      obtain ⟨ret, ev', sock', k, h, hprog, -⟩ := sendv_spec hwf
        (n := ev.lCiovWriteIdx % maxRedisMsgIdentyPool - ev.lCiovReadIdx % maxRedisMsgIdentyPool)
        (by omega) (by omega) (by omega) sock
      exact ⟨ret, ev', sock', k, h, hprog⟩
    · rw [if_neg (by omega)]
      obtain ⟨ret, ev₁, sock₁, k, h, hprog, hok⟩ := sendv_spec hwf
        (n := maxRedisMsgIdentyPool - ev.lCiovReadIdx % maxRedisMsgIdentyPool)
        (by omega) (by omega) (by omega) sock
      rw [h]
      dsimp only
      by_cases hret : ret = .ok
      · rw [if_neg (not_not.mpr hret)]
        split_ifs with h0
        · exact ⟨_, _, _, k, rfl, hprog⟩
        · -- the first call emptied the array up to its end
          have hread := hok hz hret
          have hmod : ev₁.lCiovReadIdx % maxRedisMsgIdentyPool = 0 := by
            rw [hread, ← Nat.mod_add_mod, Nat.add_sub_cancel' hltR.le, Nat.mod_self]
          obtain ⟨ret', ev₂, sock₂, k', h', hprog', -⟩ := sendv_spec hprog.wf
            (n := ev.lCiovWriteIdx % maxRedisMsgIdentyPool) (by omega) (by rw [hmod]; omega)
            (by rw [hread, hprog.writeIdx]; omega) sock₁
          rw [hmod] at h'
          exact ⟨ret', ev₂, sock₂, k + k', h', hprog.trans hprog'⟩
      · rw [if_pos hret]
        exact ⟨_, _, _, k, rfl, hprog⟩

/-- `Write` fails only if the kernel reports an error, or interrupts it. -/
theorem writeQueue_error {ev ev' : RedisEvent} {sock sock' : Socket}
    (h : ev.writeQueue sock = some (.error, ev', sock')) : .error ∈ sock.script ∨ .eintr ∈ sock.script := by
  unfold writeQueue at h
  split_ifs at h with hidx hempty
  · simp at h
  by_cases hwrap : ev.lCiovReadIdx % maxRedisMsgIdentyPool < ev.lCiovWriteIdx % maxRedisMsgIdentyPool
  · rw [if_pos hwrap] at h
    exact doSendv_error ((sendv_doSendv h).2 rfl)
  · rw [if_neg hwrap] at h
    split at h
    · cases h
    · next iRet ev₁ sock₁ h₁ =>
      split_ifs at h
      · simp only [some.injEq, Prod.mk.injEq] at h
        exact doSendv_error ((sendv_doSendv h₁).2 h.1)
      · simp at h
      · have hsub := (sendv_sock h₁).2.subset
        exact (doSendv_error ((sendv_doSendv h).2 rfl)).imp (fun he => hsub he) (fun he => hsub he)

end RedisProxy.RedisEvent
