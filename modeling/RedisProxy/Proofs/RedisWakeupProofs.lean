import RedisProxy.RedisEpoch
import RedisProxy.Proofs.RedisEventProofs

/-!
# Proofs: write interest of a backend connection

`Write` may call `Sendv` twice, for the cells up to the end of `m_vCiov` and for those at its start,
and each call drops the write interest on its own. Unsent requests keep the write interest as long as
the two calls agree; a run that ends otherwise is `wrapped_write_drops_interest`.
-/

namespace RedisProxy

open Lib RedisEvent List

/-- `DoSendv` takes every byte of the cells `iov`. -/
def TakesAll (iov : List Iovec) (sock : Socket) : Prop :=
  0 < (doSendv iov sock).1 ∧ (doSendv iov sock).1 = (iov.flatMap Iovec.bytes).length

instance (iov : List Iovec) (sock : Socket) : Decidable (TakesAll iov sock) :=
  inferInstanceAs (Decidable (_ ∧ _))

namespace RedisEvent

/-! ## One `Sendv` -/

/-- The outcomes of `Sendv` over the cells `iov, …, iov + n - 1`. -/
inductive SendvCase (ev : RedisEvent) (iov n : Nat) (sock : Socket) : Ret → RedisEvent → Prop
  | error : (doSendv (iovSlice ev.vCiov iov n) sock).1 = grError → SendvCase ev iov n sock .error ev
  | eagain : (doSendv (iovSlice ev.vCiov iov n) sock).1 = grEagain → SendvCase ev iov n sock .eagain ev
  | zero : (doSendv (iovSlice ev.vCiov iov n) sock).1 = 0 → SendvCase ev iov n sock .ok ev
  | all (vCiov : Nat → Iovec) : TakesAll (iovSlice ev.vCiov iov n) sock →
    SendvCase ev iov n sock .ok
      { ev with vCiov, lCiovReadIdx := ev.lCiovReadIdx + n, mask := ev.mask.delWrite ev.iFD }
  | part (vCiov : Nat → Iovec) (j : Nat) : j < n → ¬ TakesAll (iovSlice ev.vCiov iov n) sock →
    0 < (doSendv (iovSlice ev.vCiov iov n) sock).1 →
    SendvCase ev iov n sock .eagain { ev with vCiov, lCiovReadIdx := ev.lCiovReadIdx + j }

/-- The cells that `Sendv` leaves alone, and those that it keeps valid. -/
structure SendvFrame (ev : RedisEvent) (iov n : Nat) (ev' : RedisEvent) : Prop where
  outside : ∀ i, i < iov ∨ iov + n ≤ i → ev'.vCiov i = ev.vCiov i
  valid : ∀ i, iov ≤ i → i < iov + n → (ev'.vCiov i).Valid

theorem sendv_cases (ev : RedisEvent) (iov : Nat) {n : Nat} (hn : 0 < n) (sock : Socket)
    (hv : ∀ i, iov ≤ i → i < iov + n → (ev.vCiov i).Valid) :
    ∃ ret ev', ev.sendv iov n sock = some (ret, ev', (doSendv (iovSlice ev.vCiov iov n) sock).2) ∧
      SendvCase ev iov n sock ret ev' ∧ SendvFrame ev iov n ev' := by
  have hframe : SendvFrame ev iov n ev := ⟨fun _ _ => rfl, hv⟩
  have hspec := doSendv_spec (iovSlice ev.vCiov iov n) sock
  set r := (doSendv (iovSlice ev.vCiov iov n) sock).1 with hr
  set sock' := (doSendv (iovSlice ev.vCiov iov n) sock).2
  have hdo : doSendv (iovSlice ev.vCiov iov n) sock = (r, sock') := rfl
  unfold sendv
  rw [if_neg (by omega), hdo]
  dsimp only
  rcases hspec.code with ⟨hcode | hcode, -⟩ | ⟨k, hk, hkoff, hkmax, -⟩
  · rw [hcode, if_pos (by decide), if_neg (by decide)]
    exact ⟨_, _, rfl, .eagain hcode, hframe⟩
  · rw [hcode, if_pos (by decide), if_pos (by decide)]
    exact ⟨_, _, rfl, .error hcode, hframe⟩
  · rw [hk, if_neg (by omega)]
    split_ifs with h0
    · exact ⟨_, _, rfl, .zero (by rw [← hr, hk, h0]), hframe⟩
    · obtain ⟨⟨ret, vCiov, lCiovReadIdx⟩, hloop⟩ := Option.isSome_iff_exists.mp
        (sendvLoop_isSome (fun i : Nat => some (i + 1)) (fun _ => rfl) n iov (k : Int) ev.vCiov
          ev.lCiovReadIdx)
      have hres := sendvLoop_spec _ _ _ _ _ _ _ hv hkmax hloop
      have hlen : ((iovSlice ev.vCiov iov n).map Iovec.bytes).length = n := by simp
      have hle := consume_le k ((iovSlice ev.vCiov iov n).map Iovec.bytes)
      have hall := consume_all_iff (k := k) (l := (iovSlice ev.vCiov iov n).map Iovec.bytes)
      rw [hlen] at hle hall
      have hread := hres.sent
      rw [iterOpt_succ] at hread
      cases hread
      have hbytes : ((iovSlice ev.vCiov iov n).map Iovec.bytes).flatten.length =
          ((iovSlice ev.vCiov iov n).flatMap Iovec.bytes).length := rfl
      have hkle : k ≤ ((iovSlice ev.vCiov iov n).flatMap Iovec.bytes).length := by
        conv_rhs => rw [← take_append_drop 512 (iovSlice ev.vCiov iov n), flatMap_append,
          length_append]
        omega
      have hret := hres.ret_eq
      rw [hloop]
      split_ifs at hret with hj
      · subst hret
        refine ⟨_, _, rfl, ?_, hres.frame, hres.valid⟩
        rw [hj]
        exact .all vCiov ⟨by rw [← hr, hk]; omega, by rw [← hr, hk]; omega⟩
      · subst hret
        refine ⟨_, _, rfl, .part vCiov _ (by omega) ?_ (by rw [← hr, hk]; omega), hres.frame, hres.valid⟩
        rintro ⟨-, hT⟩
        apply hj
        apply hall.mpr
        omega

end RedisEvent

namespace Epoch

variable {ev ev' : RedisEvent} {iov n i m : Nat} {sock : Socket} {ret : Ret} {bConnected : Bool} {e : Epoch}

/-! ## `Write` -/

/-- The answer `a` covers every byte of the cells `iov`, of which a single `writev` is offered the
first 512. -/
def Covers (a : WritevRet) (iov : List Iovec) : Prop :=
  match a with
  | .accept n =>
    0 < (iov.flatMap Iovec.bytes).length ∧ (iov.flatMap Iovec.bytes).length ≤ n + 1 ∧
      (iov.flatMap Iovec.bytes).length ≤ maxRwCount ∧ (iov.drop 512).flatMap Iovec.bytes = []
  | _ => False

instance (a : WritevRet) (iov : List Iovec) : Decidable (Covers a iov) := by
  cases a <;> unfold Covers <;> infer_instance

theorem takesAll_iff (iov : List Iovec) (sock : Socket) :
    TakesAll iov sock ↔ Covers (lastAnswer sock.script).1 iov := by
  have hsplit : (iov.flatMap Iovec.bytes).length =
      ((iov.take 512).flatMap Iovec.bytes).length + ((iov.drop 512).flatMap Iovec.bytes).length := by
    conv_lhs => rw [← take_append_drop 512 iov, flatMap_append, length_append]
  unfold TakesAll
  rw [(doSendv_answer iov sock).1]
  cases (lastAnswer sock.script).1 with
  | accept n =>
    simp only [answerValue, Covers, ← length_eq_zero_iff]
    omega
  | zero => simp [answerValue, Covers]
  | eintr => simp [answerValue, Covers, grError]
  | eagain => simp [answerValue, Covers, grEagain]
  | error => simp [answerValue, Covers, grError]

/-- The two calls of `Sendv` agree. A `Write` that finds the unsent requests wrapped round the end
of `m_vCiov`, with some at its start, is not served for all cells up to the end but only for a part
of those at the start; nor is it served for all cells at the start after a `writev` that returned
zero. -/
def SendvAgree (ev : RedisEvent) (script : List WritevRet) : Prop :=
  let iReadIdx := ev.lCiovReadIdx % maxRedisMsgIdentyPool
  let iWriteIdx := ev.lCiovWriteIdx % maxRedisMsgIdentyPool
  let front := iovSlice ev.vCiov iReadIdx (maxRedisMsgIdentyPool - iReadIdx)
  let back := iovSlice ev.vCiov 0 iWriteIdx
  let (first, script) := lastAnswer script
  let (second, _) := lastAnswer script
  ev.lCiovReadIdx < ev.lCiovWriteIdx → 0 < iWriteIdx → iWriteIdx ≤ iReadIdx →
    (Covers first front → Covers second back ∨ second = .error) ∧
    (answerValue ((front.take 512).flatMap Iovec.bytes) first = 0 → ¬ Covers second back)

instance (ev : RedisEvent) (script : List WritevRet) : Decidable (SendvAgree ev script) := by
  unfold SendvAgree
  infer_instance

/-- The condition on a step: in a write event the two calls of `Sendv` agree. -/
def WriteAgrees (e : Epoch) : Label → Prop
  | .write _ script => SendvAgree e.ev script
  | _ => True

instance (e : Epoch) : (l : Label) → Decidable (e.WriteAgrees l)
  | .write _ script => inferInstanceAs (Decidable (SendvAgree e.ev script))
  | .sendMsg .. | .statusTimer _ | .reply => isTrue trivial

/-- Unsent requests keep the write interest of an open connection. -/
structure WakeInv (ev : RedisEvent) : Prop where
  fd : 0 < ev.iFD
  le : ev.lCiovReadIdx ≤ ev.lCiovWriteIdx
  num : ev.lCiovWriteIdx - ev.lCiovReadIdx ≤ maxRedisMsgIdentyPool
  valid : ∀ i < ev.lCiovWriteIdx - ev.lCiovReadIdx,
    (ev.vCiov ((ev.lCiovReadIdx + i) % maxRedisMsgIdentyPool)).Valid

/-- The write interest is registered as long as requests are unsent. -/
def Awake (ev : RedisEvent) : Prop := ev.lCiovReadIdx < ev.lCiovWriteIdx → ev.mask.writable = true

theorem sendMsg_wake (h : WakeInv ev) {pData : Msg} {pIdenty : Nat} (hs : SendMsgStep ev pData pIdenty ev')
    (hnum : ev'.lCiovWriteIdx - ev'.lCiovReadIdx ≤ maxRedisMsgIdentyPool) : WakeInv ev' ∧ Awake ev' := by
  refine ⟨⟨by rw [hs.fd]; exact h.fd, hs.le, hnum, ?_⟩, ?_⟩
  · intro i hi
    rw [hs.num] at hi
    rw [← Nat.mod_add_mod, hs.mod, Nat.mod_add_mod, hs.vCiov, Function.update_apply]
    split_ifs with heq
    · exact pData.iovec_valid
    · rcases Nat.lt_succ_iff_lt_or_eq.mp hi with hlt | rfl
      · exact h.valid i hlt
      · rw [Nat.add_sub_cancel' h.le] at heq
        exact absurd rfl heq
  · intro _
    rw [hs.mask]
    exact Mask.addWrite_writable _ h.fd

/-- A `Sendv` over cells of the queue advances the read index by at most their number. -/
theorem sendv_wake (h : WakeInv ev) (hn : n ≤ ev.lCiovWriteIdx - ev.lCiovReadIdx)
    (hc : SendvCase ev iov n sock ret ev') (hf : SendvFrame ev iov n ev') : WakeInv ev' := by
  have hle := h.le
  have hnum := h.num
  have hcell : ∀ i, (ev.vCiov i).Valid → (ev'.vCiov i).Valid := by
    intro i hi
    rcases Nat.lt_or_ge i iov with h1 | h1
    · rw [hf.outside i (.inl h1)]
      exact hi
    · rcases Nat.lt_or_ge i (iov + n) with h2 | h2
      · exact hf.valid i h1 h2
      · rw [hf.outside i (.inr h2)]
        exact hi
  have hadv : ∀ j ≤ n, ∀ i < ev.lCiovWriteIdx - (ev.lCiovReadIdx + j),
      (ev'.vCiov ((ev.lCiovReadIdx + j + i) % maxRedisMsgIdentyPool)).Valid := by
    intro j hj i hi
    rw [Nat.add_assoc]
    exact hcell _ (h.valid (j + i) (by omega))
  cases hc with
  | error _ => exact h
  | eagain _ => exact h
  | zero _ => exact h
  | all vCiov _ => exact ⟨h.fd, by simp only; omega, by simp only; omega, hadv n le_rfl⟩
  | part vCiov j hj _ _ => exact ⟨h.fd, by simp only; omega, by simp only; omega, hadv j hj.le⟩

/-- The queue cells in front of the end of the array, or at its start, hold requests. -/
theorem WakeInv.slice_valid (h : WakeInv ev) {j : Nat} (hj : (ev.lCiovReadIdx + j) % maxRedisMsgIdentyPool = iov)
    (hn : j + n ≤ ev.lCiovWriteIdx - ev.lCiovReadIdx) (hend : iov + n ≤ maxRedisMsgIdentyPool) :
    ∀ i, iov ≤ i → i < iov + n → (ev.vCiov i).Valid := by
  intro i h1 h2
  have := h.valid (j + (i - iov)) (by omega)
  rwa [← Nat.add_assoc, ← Nat.mod_add_mod, hj, Nat.add_sub_cancel' h1, Nat.mod_eq_of_lt (by omega)] at this

/-- A `Sendv` that does not drop the write interest too early. -/
theorem sendv_awake (ha : Awake ev) (hlt : ev.lCiovReadIdx < ev.lCiovWriteIdx) (hc : SendvCase ev iov n sock ret ev')
    (hall : TakesAll (iovSlice ev.vCiov iov n) sock → ev.lCiovWriteIdx ≤ ev.lCiovReadIdx + n) : Awake ev' := by
  cases hc with
  | error _ => exact ha
  | eagain _ => exact ha
  | zero _ => exact ha
  | all vCiov h => exact fun hlt' => absurd (hall h) (Nat.not_le.mpr hlt')
  | part vCiov j _ _ _ => exact fun _ => ha hlt

/-- A `Sendv` that takes all its cells, or fails. -/
theorem sendv_takesAll (hc : SendvCase ev iov n sock ret ev') (hret : ret ≠ .error)
    (hall : TakesAll (iovSlice ev.vCiov iov n) sock ∨ (doSendv (iovSlice ev.vCiov iov n) sock).1 = grError) :
    ev'.lCiovReadIdx = ev.lCiovReadIdx + n ∧ ev'.lCiovWriteIdx = ev.lCiovWriteIdx := by
  have hcode : ∀ r : Int, (doSendv (iovSlice ev.vCiov iov n) sock).1 = r → r ≠ grError → 0 < r := by
    rintro r hr hne
    rcases hall with ⟨hpos, -⟩ | herr
    · rwa [hr] at hpos
    · exact absurd (hr.symm.trans herr) hne
  cases hc with
  | error _ => exact absurd rfl hret
  | eagain h => exact absurd (hcode _ h (by decide)) (by decide)
  | zero h => exact absurd (hcode _ h (by decide)) (by decide)
  | all vCiov _ => exact ⟨rfl, rfl⟩
  | part vCiov j _ hnot hpos =>
    rcases hall with hall | herr
    · exact absurd hall hnot
    · rw [herr] at hpos
      exact absurd hpos (by decide)

theorem writeQueue_wake (h : WakeInv ev) (ha : Awake ev) {sock' : Socket} (hagree : SendvAgree ev sock.script)
    (hw : ev.writeQueue sock = some (ret, ev', sock')) : WakeInv ev' ∧ (ret ≠ .error → Awake ev') := by
  unfold writeQueue at hw
  rw [if_pos ⟨h.le, h.num⟩] at hw
  split_ifs at hw with heq
  · cases hw
    exact ⟨⟨h.fd, h.le, h.num, h.valid⟩, fun _ hlt => absurd heq.symm (Nat.ne_of_lt hlt)⟩
  · have hcases := wrap_cases h.le h.num heq
    have hlt : ev.lCiovReadIdx < ev.lCiovWriteIdx := by have := h.le; omega
    have hltR := Nat.mod_lt ev.lCiovReadIdx maxRedisMsgIdentyPool_pos
    have hltW := Nat.mod_lt ev.lCiovWriteIdx maxRedisMsgIdentyPool_pos
    unfold SendvAgree at hagree
    dsimp only at hcases hw hagree
    set iRead := ev.lCiovReadIdx % maxRedisMsgIdentyPool
    set iWrite := ev.lCiovWriteIdx % maxRedisMsgIdentyPool
    rcases hcases with ⟨hrw, hn⟩ | ⟨hwr, hfirst, hsecond⟩
    · -- one call for all unsent requests
      rw [if_pos hrw] at hw
      obtain ⟨ret₁, ev₁, hs, hc, hf⟩ := sendv_cases ev iRead (n := iWrite - iRead) (by omega) sock
        (h.slice_valid (j := 0) rfl (by omega) (by omega))
      rw [hs] at hw
      cases hw
      exact ⟨sendv_wake h (by omega) hc hf, fun _ => sendv_awake ha hlt hc fun _ => by omega⟩
    · rw [if_neg (by omega)] at hw
      obtain ⟨ret₁, ev₁, hs, hc, hf⟩ := sendv_cases ev iRead (n := maxRedisMsgIdentyPool - iRead)
        (by omega) sock (h.slice_valid (j := 0) rfl (by omega) (by omega))
      have hw₁ := sendv_wake h hfirst hc hf
      have hback : (ev.lCiovReadIdx + (maxRedisMsgIdentyPool - iRead)) % maxRedisMsgIdentyPool = 0 := by
        rw [← Nat.mod_add_mod, Nat.add_sub_cancel' hltR.le, Nat.mod_self]
      rw [hs] at hw
      dsimp only at hw
      split_ifs at hw with hret h0
      · cases hw
        refine ⟨hw₁, fun _ => ?_⟩
        cases hc with
        | error _ => exact ha
        | eagain _ => exact ha
        | zero _ => exact ha
        | all vCiov _ => exact absurd rfl hret
        | part vCiov j _ _ _ => exact fun _ => ha hlt
      · cases hw
        exact ⟨hw₁, fun _ => sendv_awake ha hlt hc fun _ => by omega⟩
      · -- the second call, for the cells at the start of the array
        have hag := hagree hlt (by omega) hwr
        have hfront := doSendv_answer (iovSlice ev.vCiov iRead (maxRedisMsgIdentyPool - iRead)) sock
        rw [← hfront.1, ← hfront.2, ← takesAll_iff] at hag
        have hslice : iovSlice ev₁.vCiov 0 iWrite = iovSlice ev.vCiov 0 iWrite :=
          iovSlice_congr fun j _ hj => hf.outside j (.inl (by omega))
        have hvalid : ∀ i, 0 ≤ i → i < 0 + iWrite → (ev₁.vCiov i).Valid := by
          intro i h1 h2
          rw [hf.outside i (.inl (by omega))]
          exact h.slice_valid hback (by omega) (by omega) i h1 h2
        obtain ⟨ret₂, ev₂, hs₂, hc₂, hf₂⟩ := sendv_cases ev₁ 0 (by omega)
          (doSendv (iovSlice ev.vCiov iRead (maxRedisMsgIdentyPool - iRead)) sock).2 hvalid
        rw [hs₂] at hw
        cases hw
        cases hc with
        | error _ => exact absurd (by simp) hret
        | eagain _ => exact absurd (by simp) hret
        | part vCiov j _ _ _ => exact absurd (by simp) hret
        | zero hzero =>
          exact ⟨sendv_wake h (by omega) hc₂ hf₂,
            fun _ => sendv_awake ha hlt hc₂ fun hall => absurd ((takesAll_iff _ _).mp hall) (hag.2 hzero)⟩
        | all vCiov hall =>
          refine ⟨sendv_wake hw₁ (by simp only; omega) hc₂ hf₂, fun hret₂ hlt₂ => ?_⟩
          have hdone := sendv_takesAll hc₂ hret₂ (by
            rw [hslice, takesAll_iff, (doSendv_answer (iovSlice ev.vCiov 0 iWrite) _).1]
            rcases hag.1 hall with hcov | herr
            · exact .inl hcov
            · rw [herr]
              exact .inr rfl)
          simp only at hdone
          omega

/-! ## Runs -/

/-- The invariant of an epoch: while the connection is open, unsent requests keep the write interest. -/
structure WakeEpoch (e : Epoch) : Prop where
  wake : WakeInv e.ev
  awake : e.isClosed = false → Awake e.ev

theorem connectResult_wake (hc : ev.connectResult some bConnected = some (ret, ev')) : (WakeInv ev → WakeInv ev')
    ∧ (Awake ev → Awake ev') ∧ ∀ script, SendvAgree ev script → SendvAgree ev' script := by
  unfold connectResult at hc
  split_ifs at hc
  · cases hc
    exact ⟨id, id, fun _ => id⟩
  · cases hc
    exact ⟨id, id, fun _ => id⟩
  · cases hc
    refine ⟨fun h => ⟨h.fd, h.le, h.num, h.valid⟩, fun h hlt => ?_, fun _ => id⟩
    have := h hlt
    unfold Mask.addRead
    split_ifs
    · exact this
    · exact this

theorem step_wake (e : Epoch) (l : Label) (e' : Epoch) (h : WakeEpoch e) (hl : e.WriteAgrees l)
    (hs : e.step l = some e') : WakeEpoch e' := by
  unfold step at hs
  split_ifs at hs with hclosed
  · cases hs
    exact h
  · have ha := h.awake (by simpa using hclosed)
    cases l with
    | sendMsg pData pIdenty =>
      dsimp only at hs
      split at hs
      · cases hs
      · cases hs
        exact h
      · rename_i ev' hq
        cases hs
        have hstep := sendMsg_queued hq
        obtain ⟨hw, ha'⟩ := sendMsg_wake h.wake hstep (sendMsg_num_le hq)
        exact ⟨hw, fun _ => ha'⟩
    | write bConnected script =>
      dsimp only at hs
      split at hs
      · cases hs
      · rename_i iRet ev' sock' hw
        cases hs
        unfold RedisEvent.write at hw
        have hkey : ∀ ev₁, WakeInv ev₁ → Awake ev₁ → SendvAgree ev₁ script →
            ev₁.writeQueue { e.sock with script } = some (iRet, ev', sock') →
            WakeEpoch { e with ev := ev', sock := sock', isClosed := iRet == .error } := by
          intro ev₁ h₁ ha₁ hag hq
          obtain ⟨hw', ha'⟩ := writeQueue_wake h₁ ha₁ hag hq
          exact ⟨hw', fun hne => ha' (by simpa using hne)⟩
        split_ifs at hw with hst
        · split at hw
          · cases hw
          · rename_i iRet₁ ev₁ hc
            obtain ⟨h₁, ha₁, hag⟩ := connectResult_wake hc
            split_ifs at hw with hret
            · cases hw
              exact ⟨h₁ h.wake, fun hne => by simp at hne⟩
            · exact hkey ev₁ (h₁ h.wake) (ha₁ ha) (hag _ hl) hw
        · exact hkey e.ev h.wake ha hl hw
    | statusTimer bConnected =>
      dsimp only at hs
      split at hs
      · cases hs
      · rename_i iRet ev' hc
        cases hs
        obtain ⟨h₁, ha₁, -⟩ := connectResult_wake hc
        exact ⟨h₁ h.wake, fun _ => ha₁ ha⟩
    | reply =>
      dsimp only at hs
      split at hs
      · cases hs
      · rename_i p ev' hp
        cases hs
        unfold popIdenty at hp
        split at hp
        · cases hp
        · cases hp
          exact ⟨⟨h.wake.fd, h.wake.le, h.wake.num, h.wake.valid⟩, fun _ => ha⟩

/-- In every run in which the two calls of `Sendv` always agree, an open connection with unsent
requests has its write interest registered. -/
theorem unsent_keeps_write_interest {ev : RedisEvent} (hev : Start ev) (ls : List Label) (e : Epoch)
    (hls : Meets step WriteAgrees (start ev) ls) (hrun : run step (start ev) ls = some e)
    (hopen : e.isClosed = false) (hunsent : e.ev.lCiovReadIdx < e.ev.lCiovWriteIdx) : e.ev.mask.writable = true := by
  have hinit : WakeEpoch (start ev) := by
    refine ⟨⟨hev.fd, ?_, ?_, ?_⟩, fun _ hlt => ?_⟩
    · simp [start, hev.readIdx]
    · simp [start, hev.writeIdx]
    · intro i hi
      simp [start, hev.writeIdx] at hi
    · simp [start, hev.writeIdx] at hlt
  exact (run_inv step_wake ls (start ev) e hinit hls hrun).awake hopen hunsent

theorem unsent_keeps_write_interest_one : (∃ e, run step (start (RedisEvent.init.reInit.connectInProgress 5))
      [.sendMsg ⟨[80, 13, 10], by decide⟩ 7, .write true [.accept 0]] = some e ∧ e.isClosed = false ∧
        e.ev.lCiovReadIdx < e.ev.lCiovWriteIdx ∧ e.ev.mask.writable = true) := by
  refine ⟨_, rfl, by decide, by decide, ?_⟩
  exact unsent_keeps_write_interest (start_connectInProgress RedisEvent.init (by decide : 0 < 5))
    [.sendMsg ⟨[80, 13, 10], by decide⟩ 7, .write true [.accept 0]] _ (by decide) rfl (by decide) (by decide)

/-! ## A run that loses the write interest -/

/-- A connected backend with `k` unsent one-byte requests from cell `i` on, and `m` unanswered ones. -/
structure At (e : Epoch) (i k m : Nat) : Prop where
  isOpen : e.isClosed = false
  status : e.ev.status = .connected
  fd : 0 < e.ev.iFD
  le : e.ev.lCiovReadIdx ≤ e.ev.lCiovWriteIdx
  num : e.ev.lCiovWriteIdx - e.ev.lCiovReadIdx = k
  mod : e.ev.lCiovReadIdx % maxRedisMsgIdentyPool = i
  ring : e.ev.waitRing.toList.length = m
  cell : ∀ j < k, e.ev.vCiov ((i + j) % maxRedisMsgIdentyPool) = ⟨[80], 1⟩

/-- A request of one byte. -/
def oneByte : Msg := ⟨[80], by decide⟩

theorem at_sendMsg {k : Nat} (h : At e i k m) (hk : k ≤ m) (hm : m < maxRedisMsgIdentyPool) :
    ∃ e', e.step (.sendMsg oneByte 7) = some e' ∧ At e' i (k + 1) (m + 1) := by
  obtain ⟨ev', hq⟩ := sendMsg_isQueued h.le (by rw [h.num, h.ring]; exact hk) (.inr h.status)
    (by rw [h.ring]; exact hm) oneByte 7
  have hs := sendMsg_queued hq
  refine ⟨{ e with ev := ev', payloads := e.payloads ++ [[80]], idents := e.idents ++ [7] }, ?_, ?_⟩
  · simp only [step, h.isOpen, hq]
    rfl
  · refine ⟨h.isOpen, hs.status.trans h.status, hs.fd.symm ▸ h.fd, hs.le, by rw [← h.num]; exact hs.num,
      hs.mod.trans h.mod, by rw [← h.ring]; simp [hs.ring], ?_⟩
    intro j hj
    have hw : (i + k) % maxRedisMsgIdentyPool = e.ev.lCiovWriteIdx % maxRedisMsgIdentyPool := by
      rw [← h.mod, ← h.num, Nat.mod_add_mod, Nat.add_sub_cancel' h.le]
    rw [hs.vCiov, Function.update_apply]
    split_ifs with heq
    · rfl
    · rcases Nat.lt_succ_iff_lt_or_eq.mp hj with hlt | rfl
      · exact h.cell j hlt
      · exact absurd hw heq

theorem at_reply (h : At e i 0 (m + 1)) : ∃ e', e.step .reply = some e' ∧ At e' i 0 m := by
  cases hring : e.ev.waitRing.toList with
  | nil =>
    have := h.ring
    simp [hring] at this
  | cons p rest =>
    refine ⟨{ e with ev := { e.ev with waitRing := e.ev.waitRing.popFront.2 }, paired := e.paired ++ [p] },
      by simp only [step, h.isOpen, popIdenty_cons hring]; rfl, ?_⟩
    refine ⟨h.isOpen, h.status, h.fd, h.le, h.num, h.mod, ?_, fun j hj => by omega⟩
    have := h.ring
    simp only [WaitRing.popFront_toList, hring, tail_cons, length_cons] at this ⊢
    omega

/-- One unsent byte and a kernel that takes it. -/
theorem takesAll_oneByte {v : Nat → Iovec} (h : v i = ⟨[80], 1⟩) (script : List WritevRet) (sent : List UInt8) :
    doSendv (iovSlice v i 1) ⟨.accept 0 :: script, sent⟩ = (1, ⟨script, sent ++ [80]⟩) := by
  have hs : iovSlice v i 1 = [⟨[80], 1⟩] := by
    rw [iovSlice_cons, h]
    rfl
  rw [hs]
  rfl

theorem oneByte_valid : (⟨[80], 1⟩ : Iovec).Valid := ⟨by decide, by decide⟩

/-- `Sendv` of one unsent byte that the kernel takes. -/
theorem sendv_oneByte (h : ev.vCiov i = ⟨[80], 1⟩) (script : List WritevRet) (sent : List UInt8) :
    ∃ vCiov, ev.sendv i 1 ⟨.accept 0 :: script, sent⟩ =
      some (.ok, { ev with vCiov, lCiovReadIdx := ev.lCiovReadIdx + 1, mask := ev.mask.delWrite ev.iFD },
        ⟨script, sent ++ [80]⟩) ∧ ∀ j, j ≠ i → vCiov j = ev.vCiov j := by
  have hdo := takesAll_oneByte h script sent
  obtain ⟨ret, ev', hs, hc, hf⟩ := sendv_cases ev i Nat.one_pos
    ⟨.accept 0 :: script, sent⟩ (by
      intro j h1 h2
      rw [show j = i by omega, h]
      exact oneByte_valid)
  rw [hdo] at hs
  have hcode : (doSendv (iovSlice ev.vCiov i 1) ⟨.accept 0 :: script, sent⟩).1 = 1 := by rw [hdo]
  have hall : TakesAll (iovSlice ev.vCiov i 1) ⟨.accept 0 :: script, sent⟩ := by
    refine ⟨by rw [hcode]; decide, ?_⟩
    rw [hcode, iovSlice_cons, h]
    rfl
  cases hc with
  | error he => exact absurd (hcode.symm.trans he) (by decide)
  | eagain he => exact absurd (hcode.symm.trans he) (by decide)
  | zero he => exact absurd (hcode.symm.trans he) (by decide)
  | all vCiov _ => exact ⟨vCiov, hs, fun j hj => hf.outside j (by omega)⟩
  | part vCiov j _ hnot _ => exact absurd hall hnot

theorem step_write (hopen : e.isClosed = false) {script : List WritevRet} 
    (hw : e.ev.write some bConnected { e.sock with script } = some (ret, ev, sock)) :
    e.step (.write bConnected script) = some { e with ev, sock, isClosed := ret == .error } := by
  unfold step
  rw [hopen]
  simp only [hw]
  rfl

theorem at_write (h : At e i 1 m) (hi : i + 1 < maxRedisMsgIdentyPool) :
    ∃ e', e.step (.write true [.accept 0]) = some e' ∧ At e' (i + 1) 0 m := by
  have hcell := h.cell 0 Nat.one_pos
  have hnum := h.num
  rw [Nat.add_zero, Nat.mod_eq_of_lt (by omega)] at hcell
  have hW : e.ev.lCiovWriteIdx % maxRedisMsgIdentyPool = i + 1 := by
    rw [show e.ev.lCiovWriteIdx = e.ev.lCiovReadIdx + 1 by omega, ← Nat.mod_add_mod, h.mod,
      Nat.mod_eq_of_lt hi]
  obtain ⟨vCiov, hs, -⟩ := sendv_oneByte hcell [] e.sock.sent
  have hwrite : e.ev.write some true { e.sock with script := [.accept 0] } =
      some (.ok,
        { e.ev with
          vCiov
          lCiovReadIdx := e.ev.lCiovReadIdx + 1
          mask := e.ev.mask.delWrite e.ev.iFD },
        ⟨[], e.sock.sent ++ [80]⟩) := by
    unfold RedisEvent.write writeQueue
    rw [if_neg (not_not.mpr h.status), if_pos ⟨h.le, by have := maxRedisMsgIdentyPool_pos; omega⟩,
      if_neg (by omega)]
    dsimp only
    rw [h.mod, hW, if_pos (Nat.lt_succ_self i), Nat.add_sub_cancel_left]
    exact hs
  refine ⟨_, step_write h.isOpen hwrite, ?_⟩
  refine ⟨rfl, h.status, h.fd, ?_, ?_, ?_, h.ring, fun j hj => by omega⟩
  · show e.ev.lCiovReadIdx + 1 ≤ e.ev.lCiovWriteIdx
    omega
  · show e.ev.lCiovWriteIdx - (e.ev.lCiovReadIdx + 1) = 0
    omega
  · show (e.ev.lCiovReadIdx + 1) % maxRedisMsgIdentyPool = i + 1
    rw [← hW]
    congr 1
    omega

/-- Any cell but the last can be reached with nothing unsent and nothing unanswered. -/
theorem at_reachable (i : Nat) (hi : i < maxRedisMsgIdentyPool) : ∃ ls e,
    run step (start (RedisEvent.init.reInit.connectInProgress 5)) ls = some e ∧ At e i 0 0 := by
  induction i with
  | zero =>
    refine ⟨[.statusTimer true], _, rfl, ?_⟩
    exact ⟨rfl, rfl, by decide, le_rfl, rfl, rfl, rfl, fun j hj => by omega⟩
  | succ i ih =>
    obtain ⟨ls, e, hrun, hat⟩ := ih (by omega)
    obtain ⟨e₁, hs₁, hat₁⟩ := at_sendMsg hat le_rfl maxRedisMsgIdentyPool_pos
    obtain ⟨e₂, hs₂, hat₂⟩ := at_write hat₁ hi
    obtain ⟨e₃, hs₃, hat₃⟩ := at_reply hat₂
    refine ⟨ls ++ [.sendMsg oneByte 7, .write true [.accept 0], .reply], e₃, ?_, hat₃⟩
    rw [run_append, hrun]
    simp [hs₁, hs₂, hs₃]

/-- Two unsent requests in the last and in the first cell; the kernel takes the first and has no room
for the second. -/
theorem at_wrapped (h : At e (maxRedisMsgIdentyPool - 1) 2 m) :
    ∃ e', e.step (.write true [.accept 0, .eagain]) = some e' ∧ e'.isClosed = false ∧
      e'.ev.status = .connected ∧ e'.ev.lCiovReadIdx < e'.ev.lCiovWriteIdx ∧ e'.ev.mask.writable = false := by
  have hpos := maxRedisMsgIdentyPool_pos
  have hcell := h.cell 0 (by omega)
  have hnum := h.num
  rw [Nat.add_zero, Nat.mod_eq_of_lt (by omega)] at hcell
  have hW : e.ev.lCiovWriteIdx % maxRedisMsgIdentyPool = 1 := by
    rw [show e.ev.lCiovWriteIdx = e.ev.lCiovReadIdx + 2 by have := h.le; omega, ← Nat.mod_add_mod, h.mod]
    rfl
  obtain ⟨vCiov, hs, -⟩ := sendv_oneByte hcell [.eagain] e.sock.sent
  have hmask : (e.ev.mask.delWrite e.ev.iFD).writable = false := by simp [Mask.delWrite, h.fd]
  have hwrite : e.ev.write some true { e.sock with script := [.accept 0, .eagain] } =
      some (.eagain,
        { e.ev with
          vCiov
          lCiovReadIdx := e.ev.lCiovReadIdx + 1
          mask := e.ev.mask.delWrite e.ev.iFD },
        ⟨[], e.sock.sent ++ [80]⟩) := by
    unfold RedisEvent.write writeQueue
    rw [if_neg (not_not.mpr h.status), if_pos ⟨h.le, by rw [h.num]; decide⟩, if_neg (by omega)]
    dsimp only
    rw [h.mod, hW, if_neg (by decide), show maxRedisMsgIdentyPool - (maxRedisMsgIdentyPool - 1) = 1 by rfl, hs]
    rfl
  refine ⟨_, step_write h.isOpen hwrite, rfl, h.status, ?_, hmask⟩
  show e.ev.lCiovReadIdx + 1 < e.ev.lCiovWriteIdx
  omega

/-- With 65536 one-byte requests, the last two of which lie in the last and in the first cell of
`m_vCiov`, a write event that the kernel serves only in part leaves an unsent request behind without
write interest. -/
theorem wrapped_write_drops_interest : ∃ ls e,
    run step (start (RedisEvent.init.reInit.connectInProgress 5)) ls = some e ∧ e.isClosed = false ∧
      e.ev.status = .connected ∧ e.ev.lCiovReadIdx < e.ev.lCiovWriteIdx ∧ e.ev.mask.writable = false := by
  obtain ⟨ls, e, hrun, hat⟩ := at_reachable (maxRedisMsgIdentyPool - 1) (by decide)
  obtain ⟨e₁, hs₁, hat₁⟩ := at_sendMsg hat le_rfl maxRedisMsgIdentyPool_pos
  obtain ⟨e₂, hs₂, hat₂⟩ := at_sendMsg hat₁ le_rfl (by decide)
  obtain ⟨e₃, hs₃, hbad⟩ := at_wrapped hat₂
  refine ⟨ls ++ [.sendMsg oneByte 7, .sendMsg oneByte 7, .write true [.accept 0, .eagain]], e₃, ?_, hbad⟩
  rw [run_append, hrun]
  simp [hs₁, hs₂, hs₃]

end Epoch

end RedisProxy
