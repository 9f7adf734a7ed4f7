import RedisProxy.Replica
import RedisProxy.Proofs.MsgBufferProofs
import RedisProxy.Proofs.CStringProofs

/-!
# The handshake comes to its end

Each reply is consumed and takes the handshake to the next state, or closes the connection: without a password, and if the
replies come one by one. With a password the handshake stops in a state that `PrepareSync` has no case for.
-/

namespace RedisProxy

open Lib Resp List Option Byte

/-! ## Lines -/

theorem lf_notMem_of_digits {ds : List UInt8} (h : Digits ds) : Byte.lf ∉ ds := by
  intro hm
  have := h.2 _ hm
  cases this

/-- The first line of a value. It has at least three bytes, and a simple string has no other line. -/
theorem value_line {v : List UInt8} (h : Value Canonical v) : ∃ us rs, v = us ++ Byte.lf :: rs ∧ Byte.lf ∉ us ∧
    2 ≤ us.length ∧ (v.head? = some Byte.plus → rs = []) := by
  have hcr : lf ≠ cr := by decide
  cases h with
  | @simple s h =>
    have hs : lf ∉ s := fun hm => (h _ hm).2 rfl
    refine ⟨plus :: s ++ [cr], [], by simp [crlf], ?_, by simp, fun _ => rfl⟩
    simp [hs, hcr]
    decide
  | @error s h =>
    have hs : lf ∉ s := fun hm => (h _ hm).2 rfl
    refine ⟨sub :: s ++ [cr], [], by simp [crlf], ?_, by simp, fun _ => rfl⟩
    simp [hs, hcr]
    decide
  | @integer s h =>
    have hs : lf ∉ s := by
      rcases h with h | ⟨sign, ds, rfl, hsign, h⟩
      · exact lf_notMem_of_digits h
      · rcases hsign with rfl | rfl
        · simp [lf_notMem_of_digits h]
          decide
        · simp [lf_notMem_of_digits h]
          decide
    refine ⟨Byte.colon :: s ++ [Byte.cr], [], by simp [crlf], ?_, by simp, fun _ => rfl⟩
    simp [hs, hcr]
    decide
  | @bulk ds s h hlen =>
    refine ⟨usd :: ds ++ [cr], s ++ crlf, by simp [crlf], ?_, by simp, fun hh => absurd (some.inj hh) (by decide)⟩
    simp [lf_notMem_of_digits h.1, hcr]
    decide
  | nilBulk => exact ⟨[usd, sub, one, cr], [], rfl, by decide, by decide, fun _ => rfl⟩
  | @array ds vs h hlen hvs =>
    refine ⟨star :: ds ++ [cr], vs.flatten, by simp [crlf], ?_, by simp, fun hh => absurd (some.inj hh) (by decide)⟩
    simp [lf_notMem_of_digits h.1, hcr]
    decide
  | nilArray => exact ⟨[star, sub, one, cr], [], rfl, by decide, by decide, fun _ => rfl⟩

namespace Replica

variable {cfg : ReplicaConfig} {env : Env} {s : Replica} {bs : List UInt8} {k : Int}
variable {n : Nat} {wait : Prop} {s' : Replica}

/-- The two agree on the handshake. -/
structure Same (s t : Replica) : Prop where
  status : t.status = s.status
  replState : t.replState = s.replState
  entered : t.entered = s.entered

/-- The reply is complete. -/
theorem readReply_eq (h : s.toReader.AtRest k) (hv : Value Canonical bs) (hk : 0 ≤ k) (hlt : k + 2 * bs.length < 2 ^ 31) :
    ∃ t : Replica, t.toReader.Complete bs.length (k + bs.length) ∧ Same s t ∧
      ∀ K, (s.received bs).readReply bs.length K = K s.readCache.szMsgStart t := by
  obtain ⟨m, h1, h2, h3, h4⟩ := h.parseRsp hv hk hlt
  refine ⟨{ s.received bs with readMsg := m }, h4, ⟨rfl, rfl, rfl⟩, fun K => ?_⟩
  have h1' : ((s.received bs).readMsg.expand bs.length).parseRsp (s.received bs).mem = some (.ok, m) := h1
  unfold readReply
  rw [h1']
  simp only [ne_eq, not_true_eq_false, if_false, h2, h3]

/-- A command has been sent, or not. -/
theorem sendCommand_eq (s : Replica) (sendOk : Bool) (args : List (List UInt8)) :
    ∃ t : Replica, s.sendCommand sendOk args = t ∧ Same s t ∧ t.toReader = s.toReader := by
  refine ⟨_, rfl, ?_⟩
  cases sendOk with
  | true => exact ⟨⟨rfl, rfl, rfl⟩, rfl⟩
  | false => exact ⟨⟨rfl, rfl, rfl⟩, rfl⟩

/-- `StartNext` after a reply. -/
theorem next_eq (h : s.toReader.Complete n k) (hint : Int) :
    ∃ r : Reader, r.AtRest k ∧ s.next hint = some (.ok, { s with toReader := r }) := by
  obtain ⟨r, h1, h2⟩ := h.startNext hint
  exact ⟨r, h2, by rw [next, h1]; rfl⟩

/-- The block is full: the bytes are moved. -/
theorem move_eq (hcap : s.readCache.pData.sCapacity = redisMsgInitBuffer) (iRet : ReplicaRet) (hint : Int) :
    ∃ r : Reader, s.move iRet hint = some { s with toReader := r } := by
  unfold move
  dsimp only
  split_ifs with h1 h2
  · have hsize : int32 (if (0 : Int) < 0 ∨ (s.readCache.pData.sCapacity : Int) * 4 < 0 then 0
        else s.readCache.pData.sCapacity * 4) = 4096 := by
      rw [hcap]
      decide
    unfold MsgBufferMgr.expand MsgBufferMgr.resetMemPool
    rw [hsize, if_neg (by decide)]
    exact ⟨_, rfl⟩
  · exact ⟨s.toReader, rfl⟩
  · exact ⟨_, rfl⟩

/-- The block is full, and the cache is empty. -/
theorem move_empty (h : s.toReader.Empty) (hint : Int) : s.move .ok hint =
    some { s with toReader := s.toReader.moved (s.readCache.resetBuffer s.mem) } := by
  have hleft : s.readCache.leftCapcity = 1024 := by
    unfold MsgBufferMgr.leftCapcity
    rw [h.empty, h.cap, sub_self]
    decide
  unfold move
  rw [hleft, h.cap, if_neg (by decide), if_neg nofun]

/-- A call of `read` that returns `bs`, during the handshake. -/
theorem recv_eq (hne : bs ≠ []) (hfit : (bs.length : Int) ≤ s.iLeft) (hstate : handles s.replState = true) :
    s.recv cfg env (.data bs) =
      ((s.received bs).prepareSync cfg env bs.length).bind (finish bs.length s.iLeft env.hint) := by
  have htake : bs.take s.iLeft.toNat = bs := take_of_length_le (by omega)
  have hnot : ¬ (s.replState = .connected ∨ s.replState = .transfer) := by
    rintro (h | h)
    · rw [h] at hstate
      cases hstate
    · rw [h] at hstate
      cases hstate
  unfold recv
  dsimp only
  rw [htake, if_neg hne, process, if_neg (by exact hnot)]

/-- The handshake is at the `n`-th of its states. -/
def At (n : Nat) (s : Replica) : Prop := s.entered = order.take (n + 1) ∧ order[n]? = some s.replState

theorem At.same {t : Replica} (h : At n s) (hst : Same s t) : At n t :=
  ⟨hst.entered.trans h.1, h.2.trans (congrArg some hst.replState.symm)⟩

/-- The next state of the handshake. -/
theorem At.enter (h : At n s) {st : ReplState} (hst : order[n + 1]? = some st) : At (n + 1) (s.enter st) := by
  refine ⟨?_, hst⟩
  show s.entered ++ [st] = _
  rw [h.1, take_add_one (i := n + 1), hst]
  rfl

/-- What a step leaves of the handshake at its `n`-th state: the connection is closed, or the reader is ready for the next
reply. The handshake has gone on, or `wait` holds. -/
def Rests (n : Nat) (wait : Prop) (s : Replica) : Prop :=
  ∃ n', At n' s ∧ n ≤ n' ∧ (s.status = .closed ∨ s.status = .opened ∧ n' ≠ 1 ∧ (n < n' ∨ wait) ∧ s.toReader.Empty ∧
    (n' < 5 → ∃ k, s.toReader.AtRest k ∧ 0 ≤ k ∧ k ≤ redisMsgInitBuffer * n'))

/-- What `PrepareSync` returns, at the `n`-th state of the handshake. -/
def Outcome (n : Nat) (wait : Prop) (r : ReplicaRet × Replica) : Prop :=
  (r.1 = .error ∧ r.2.status ≠ .aborted ∧ ∃ n', At n' r.2 ∧ n ≤ n') ∨
    (r.1 = .ok ∧ r.2.readCache.pData.sCapacity = redisMsgInitBuffer ∧ Rests n wait r.2)

theorem Outcome.finish {r : ReplicaRet × Replica} (h : Outcome n wait r) (iRead iLeft hint : Int) :
    ∃ s', Replica.finish iRead iLeft hint r = some s' ∧ Rests n wait s' := by
  obtain ⟨iRet, s⟩ := r
  rcases h with ⟨hret, halive, n', hat, hle⟩ | ⟨hret, hcap, hrests⟩
  · obtain rfl : iRet = .error := hret
    exact ⟨s.close, congrArg some (if_neg halive), n', hat, hle, .inl rfl⟩
  · obtain rfl : iRet = .ok := hret
    unfold Replica.finish
    dsimp only
    by_cases hlt : iRead < iLeft
    · rw [if_pos hlt]
      exact ⟨s, rfl, hrests⟩
    · rw [if_neg hlt]
      obtain ⟨n', hat, hle, hclosed | ⟨hopen, hne, hgo, hempty, hrest⟩⟩ := hrests
      · obtain ⟨r, hr⟩ := move_eq hcap .ok hint
        exact ⟨_, hr, n', hat, hle, .inl hclosed⟩
      · refine ⟨_, move_empty hempty hint, n', hat, hle, .inr ⟨hopen, hne, hgo, hempty.resetBuffer, fun hlt => ?_⟩⟩
        obtain ⟨k, hrest, hk⟩ := hrest hlt
        exact ⟨k, hrest.resetBuffer, hk⟩

/-- The reply has been read, the next command is sent and the next state is entered. -/
theorem next_outcome {n' : Nat} {m : Nat} (hc : s.toReader.Complete m k) (hat : At n' s) (hlt : n < n')
    (hne : n' ≠ 1) (hstatus : s.status = .opened ∨ s.status = .closed) (hk : 0 ≤ k)
    (hbound : n' < 5 → k ≤ redisMsgInitBuffer * n') (hint : Int) : ∃ r, s.next hint = some r ∧ Outcome n wait r := by
  obtain ⟨r, hrest, hnext⟩ := next_eq hc hint
  refine ⟨_, hnext, .inr ⟨rfl, hrest.cap, n', hat, hlt.le, ?_⟩⟩
  rcases hstatus with hopen | hclosed
  · exact .inr ⟨hopen, hne, .inl hlt, hrest.toEmpty, fun h5 => ⟨k, hrest, hk, hbound h5⟩⟩
  · exact .inl hclosed

section Reply

variable {wait : Prop} (hopen : s.status = .opened) (hrest : s.toReader.AtRest k) (hk : 0 ≤ k)
  (hv : Value Canonical bs) (hlen : bs.length ≤ redisMsgInitBuffer)

include hopen hrest hk hv hlen

/-- The reply to `PING`. -/
theorem prepareSync_pong (hauth : cfg.masterAuth = []) (hat : At 0 s) (hbound : k ≤ redisMsgInitBuffer * 0) :
    ∃ r, (s.received bs).prepareSync cfg env bs.length = some r ∧ Outcome 0 wait r := by
  have hstate : (s.received bs).replState = .receivePong := (some.inj hat.2).symm
  simp only [redisMsgInitBuffer] at hlen hbound
  obtain ⟨t, hc, hsame, hreply⟩ := readReply_eq hrest hv hk (by omega)
  unfold prepareSync
  rw [hstate]
  dsimp only
  rw [hreply]
  split_ifs with hpong
  · refine ⟨_, rfl, .inl ⟨rfl, ?_, 0, hat.same hsame, le_refl _⟩⟩
    rw [hsame.status, hopen]
    simp
  · -- without a password `SendAuth` sends the port
    have hat1 : At 1 (t.enter .sendAuth) := (hat.same hsame).enter rfl
    obtain ⟨u, hu, husame, hur⟩ := sendCommand_eq (t.enter .sendAuth) env.sendOk
      [ascii "REPLCONF", ascii "listening-port", decimalText cfg.usPort]
    unfold sendAuth
    rw [if_neg (fun h => h.2 hauth), if_neg (fun h => h hauth), hu]
    have hat2 : At 2 (u.enter .receivePort) := (hat1.same husame).enter rfl
    cases env.sendOk with
    | true =>
      refine next_outcome (hur ▸ hc) hat2 Nat.zero_lt_two (by omega) (.inl ?_) (by omega) ?_ env.hint
      · exact husame.status.trans (hsame.status.trans hopen)
      · intro _
        simp only [redisMsgInitBuffer]
        omega
    | false => exact ⟨_, rfl, .inl ⟨rfl, (by rintro ⟨⟩), 1, (show At 1 u from hat1.same husame), Nat.zero_le 1⟩⟩

/-- The reply to `REPLCONF listening-port`. -/
theorem prepareSync_port (hat : At 2 s) (hbound : k ≤ redisMsgInitBuffer * 2) :
    ∃ r, (s.received bs).prepareSync cfg env bs.length = some r ∧ Outcome 2 wait r := by
  have hstate : (s.received bs).replState = .receivePort := (some.inj hat.2).symm
  simp only [redisMsgInitBuffer] at hlen hbound
  obtain ⟨t, hc, hsame, hreply⟩ := readReply_eq hrest hv hk (by omega)
  obtain ⟨u, hu, husame, hur⟩ := sendCommand_eq t env.sendOk [ascii "REPLCONF", ascii "ip-address", cfg.strIP]
  unfold prepareSync
  rw [hstate]
  dsimp only
  rw [hreply, sendIP, hu]
  have hat2 : At 2 u := (hat.same hsame).same husame
  have hat3 : At 3 (u.enter .receiveIp) := hat2.enter rfl
  cases env.sendOk with
  | true =>
    refine next_outcome (hur ▸ hc) hat3 (Nat.lt_succ_self 2) (by omega) (.inl ?_) (by omega) ?_ env.hint
    · exact husame.status.trans (hsame.status.trans hopen)
    · intro _
      simp only [redisMsgInitBuffer]
      omega
  | false => exact ⟨_, rfl, .inl ⟨rfl, (by rintro ⟨⟩), 2, (show At 2 u from hat2), le_refl 2⟩⟩

/-- The replies to the commands after that: the next command may fail, and then the connection is closed as well. -/
theorem send_outcome {n : Nat} {st : ReplState} (hat : At n s) (hn : 2 < n) (hst : order[n + 1]? = some st)
    (hbound : k ≤ redisMsgInitBuffer * n) (hn5 : n < 5) : ∃ t : Replica,
      (∀ K, (s.received bs).readReply bs.length K = K s.readCache.szMsgStart t) ∧
      ∀ args, ∃ r, (((if env.sendOk then t.sendCommand env.sendOk args else (t.sendCommand env.sendOk args).close).enter st).next
        env.hint) = some r ∧ Outcome n wait r := by
  simp only [redisMsgInitBuffer] at hlen hbound
  obtain ⟨t, hc, hsame, hreply⟩ := readReply_eq hrest hv hk (by omega)
  refine ⟨t, hreply, fun args => ?_⟩
  obtain ⟨u, hu, husame, hur⟩ := sendCommand_eq t env.sendOk args
  rw [hu]
  have hatu : At n u := (hat.same hsame).same husame
  have hbound' : n + 1 < 5 → k + bs.length ≤ redisMsgInitBuffer * (n + 1 : Nat) := by
    intro _
    simp only [redisMsgInitBuffer]
    push_cast
    omega
  cases env.sendOk with
  | true =>
    refine next_outcome (hur ▸ hc) (At.enter hatu hst) (Nat.lt_succ_self n) (by omega) (.inl ?_) (by omega)
      hbound' env.hint
    exact husame.status.trans (hsame.status.trans hopen)
  | false =>
    exact next_outcome (hur ▸ hc) (At.enter (s := u.close) hatu hst) (Nat.lt_succ_self n)
      (by omega) (.inr rfl) (by omega) hbound' env.hint

/-- The reply to `REPLCONF ip-address`. -/
theorem prepareSync_ip (hat : At 3 s) (hbound : k ≤ redisMsgInitBuffer * 3) :
    ∃ r, (s.received bs).prepareSync cfg env bs.length = some r ∧ Outcome 3 wait r := by
  have hstate : (s.received bs).replState = .receiveIp := (some.inj hat.2).symm
  obtain ⟨t, hreply, hsend⟩ := send_outcome hopen hrest hk hv hlen hat (by omega) rfl hbound (by omega)
  unfold prepareSync
  rw [hstate]
  dsimp only
  rw [hreply]
  exact hsend _

/-- The reply to `REPLCONF capa`. -/
theorem prepareSync_capa (hat : At 4 s) (hbound : k ≤ redisMsgInitBuffer * 4) :
    ∃ r, (s.received bs).prepareSync cfg env bs.length = some r ∧ Outcome 4 wait r := by
  have hstate : (s.received bs).replState = .receiveCapa := (some.inj hat.2).symm
  obtain ⟨t, hreply, hsend⟩ := send_outcome hopen hrest hk hv hlen hat (by omega) rfl hbound (by omega)
  unfold prepareSync
  rw [hstate]
  dsimp only
  rw [hreply]
  exact hsend _

end Reply

/-! ### The reply to `PSYNC` -/

/-- A text without a newline that stands where the bytes do is the beginning of them. -/
theorem prefix_of_strncmpEq {rd : Int → UInt8} {p : Int} {us rs text : List UInt8}
    (hb : bytesAt rd p (us ++ Byte.lf :: rs).length = us ++ Byte.lf :: rs) (ht : strncmpEq rd p text = true)
    (hlf : Byte.lf ∉ text) : text <+: us := by
  have htext : bytesAt rd p text.length = text := beq_iff_eq.mp ht
  by_cases hlen : text.length ≤ us.length
  · obtain ⟨n, hn⟩ := Nat.exists_eq_add_of_le hlen
    have hus := Layer.bytesAt_left hb
    rw [hn, RedisMsg.bytesAt_add, htext] at hus
    exact ⟨_, hus⟩
  · -- otherwise the newline would be in the text
    exfalso
    obtain ⟨n, hn⟩ := Nat.exists_eq_add_of_lt (Nat.lt_of_not_le hlen)
    rw [append_cons] at hb
    have hus := Layer.bytesAt_left hb
    rw [length_append, length_singleton] at hus
    rw [show text.length = us.length + 1 + n by omega, RedisMsg.bytesAt_add, hus] at htext
    exact hlf (htext ▸ by simp)

/-- `+FULLRESYNC` leaves the reader as it is. -/
theorem fullResync_eq (s : Replica) (p : Int) :
    ∃ t : Replica, s.fullResync p = t ∧ Same s t ∧ t.toReader = s.toReader := by
  refine ⟨_, rfl, ?_⟩
  unfold fullResync
  dsimp only
  split
  · split_ifs
    · exact ⟨⟨rfl, rfl, rfl⟩, rfl⟩
    · exact ⟨⟨rfl, rfl, rfl⟩, rfl⟩
  · exact ⟨⟨rfl, rfl, rfl⟩, rfl⟩

section Psync

variable {us rs : List UInt8} (hopen : s.status = .opened) (hempty : s.toReader.Empty) (hat : At 5 s)
  (hfit : ((us ++ Byte.lf :: rs).length : Int) ≤ s.iLeft)

theorem received_bytes (hempty : s.toReader.Empty) (bs : List UInt8) :
    bytesAt (s.received bs).mem s.readCache.szMsgStart bs.length = bs := by
  show bytesAt (writeAt s.mem s.readCache.szMsgEnd bs) _ _ = _
  rw [hempty.empty, bytesAt_writeAt]

include hempty hfit

/-- The line that `ProcPsyncResult` finds. -/
theorem strchr_received (hlf : Byte.lf ∉ us) (hnull : 0 ∉ us) :
    strchr (s.received (us ++ Byte.lf :: rs)).mem Byte.lf ((s.received (us ++ Byte.lf :: rs)).room s.readCache.szMsgStart)
      s.readCache.szMsgStart = some (s.readCache.szMsgStart + us.length) := by
  refine strchr_eq (received_bytes hempty _) hlf hnull ?_
  show us.length < (s.readCache.pData.uszEnd - s.readCache.szMsgStart).toNat
  have hleft : s.iLeft = s.readCache.pData.uszEnd - s.readCache.szMsgStart := by
    rw [Reader.iLeft, hempty.empty]
  rw [hleft, length_append, length_cons] at hfit
  omega

/-- One line has been read and consumed. -/
theorem empty_consume (hrs : rs = []) :
    ((s.received (us ++ Byte.lf :: rs)).consume (us.length + 1)).toReader.Empty := by
  subst hrs
  obtain ⟨p, hp⟩ := hempty.start
  have hlo := hempty.lo
  have hleft : s.iLeft = s.readCache.pData.uszEnd - s.readCache.szMsgStart := by
    rw [Reader.iLeft, hempty.empty]
  rw [hleft, length_append, length_singleton] at hfit
  refine ⟨⟨p, hp.expand _⟩, ?_, ?_, ?_, hempty.cap⟩
  · show s.readCache.szMsgEnd + (us ++ [lf]).length = s.readCache.szMsgStart + (us.length + 1)
    rw [hempty.empty, length_append, length_singleton]
    rfl
  · show s.readCache.pData.uszData ≤ s.readCache.szMsgStart + (us.length + 1)
    omega
  · show s.readCache.szMsgStart + (us.length + 1) ≤ s.readCache.pData.uszEnd
    omega

/-- `ProcPsyncResult`, with the line found. -/
theorem procPsyncResult_eq (hlf : Byte.lf ∉ us) (hnull : 0 ∉ us) :
    (s.received (us ++ Byte.lf :: rs)).procPsyncResult =
      let szMsgStart := s.readCache.szMsgStart
      let t := (s.received (us ++ lf :: rs)).consume (us.length + 1)
      let iPassLen : Int := us.length + 1
      if iPassLen < 3 then (.waitReply, iPassLen, t)
      else if strncmpEq t.mem szMsgStart (ascii "+FULLRESYNC") then (.fullResync, iPassLen, t.fullResync szMsgStart)
      else if strncmpEq t.mem szMsgStart (ascii "+CONTINUE") then (.partialSync, iPassLen, t.partialSync szMsgStart)
      else if strncmpEq t.mem szMsgStart (ascii "-NOMASTERLINK") || strncmpEq t.mem szMsgStart (ascii "-LOADING") then
        (.tryLater, iPassLen, t)
      else (.notSupported, iPassLen, t) := by
  have hline := strchr_received hempty hfit hlf hnull
  have hlen : s.readCache.szMsgStart + (us.length : Int) - s.readCache.szMsgStart + 1 = us.length + 1 := by omega
  unfold procPsyncResult
  dsimp only
  rw [show (s.received (us ++ lf :: rs)).readCache.szMsgStart = s.readCache.szMsgStart from rfl, hline]
  dsimp only
  rw [hlen]

include hopen hat

/-- A newline instead of the reply. -/
theorem prepareSync_newline (hus : us = []) (hrs : rs = []) :
    ∃ r, (s.received (us ++ Byte.lf :: rs)).prepareSync cfg env (us ++ Byte.lf :: rs).length = some r ∧ Outcome 5 True r := by
  have hstate : (s.received (us ++ lf :: rs)).replState = .receivePsync := (some.inj hat.2).symm
  have hconsumed := empty_consume hempty hfit hrs
  have hshort : (us.length : Int) + 1 < 3 := by simp [hus]
  unfold prepareSync
  rw [hstate]
  rw [procPsyncResult_eq hempty hfit (by simp [hus]) (by simp [hus])]
  rw [if_pos hshort]
  exact ⟨_, rfl, .inr ⟨rfl, hempty.cap, 5, hat, le_refl 5, .inr ⟨hopen, by omega, .inr trivial, hconsumed, by omega⟩⟩⟩

/-- The reply to `PSYNC`. -/
theorem prepareSync_psync {wait : Prop} (hlf : Byte.lf ∉ us) (hnull : 0 ∉ us) (hlong : 2 ≤ us.length)
    (hplus : (us ++ Byte.lf :: rs).head? = some Byte.plus → rs = []) (hcont : ¬ ascii "+CONTINUE" <+: us ++ Byte.lf :: rs) :
    ∃ r, (s.received (us ++ Byte.lf :: rs)).prepareSync cfg env (us ++ Byte.lf :: rs).length = some r ∧ Outcome 5 wait r := by
  have hstate : (s.received (us ++ lf :: rs)).replState = .receivePsync := (some.inj hat.2).symm
  have hbytes := received_bytes hempty (us ++ lf :: rs)
  unfold prepareSync
  rw [hstate]
  rw [procPsyncResult_eq hempty hfit hlf hnull]
  dsimp only
  rw [if_neg (by omega)]
  split_ifs with hfull hpart hlater
  · -- the line is all that has been read
    have hpre : ascii "+FULLRESYNC" <+: us := prefix_of_strncmpEq hbytes hfull (by decide)
    obtain ⟨t, ht⟩ := hpre
    obtain rfl : rs = [] := hplus (by rw [← ht]; rfl)
    have hconsumed := empty_consume hempty hfit rfl
    obtain ⟨u, hu, husame, hur⟩ := fullResync_eq ((s.received (us ++ [lf])).consume (us.length + 1))
      s.readCache.szMsgStart
    have hat6 : At 6 (u.enter .transfer) := At.enter (hat.same ⟨husame.status, husame.replState, husame.entered⟩) rfl
    obtain ⟨r, hr, hrest⟩ := (hur ▸ hconsumed : u.toReader.Empty).startNext env.hint
    rw [hu]
    dsimp only
    rw [if_neg (by simp), next, show (u.enter .transfer).toReader = u.toReader from rfl, hr]
    refine ⟨_, rfl, .inr ⟨rfl, hrest.cap, 6, hat6, by omega, .inr ⟨?_, by omega, .inl (by omega), hrest, by omega⟩⟩⟩
    exact husame.status.trans hopen
  · have hpre : ascii "+CONTINUE" <+: us := prefix_of_strncmpEq hbytes hpart (by decide)
    exact absurd (hpre.trans (prefix_append _ _)) hcont
  · exact ⟨_, rfl, .inr ⟨rfl, hempty.cap, 5, hat, le_refl 5, .inl rfl⟩⟩
  · exact ⟨_, rfl, .inr ⟨rfl, hempty.cap, 5, hat, le_refl 5, .inl rfl⟩⟩

end Psync

/-! ## Runs -/

/-- The handshake has not stopped: the connection is closed, or the reader waits for the reply to the last command. -/
def Inv (s : Replica) : Prop :=
  ∃ n, At n s ∧ (s.status = .closed ∨ s.status = .opened ∧ (n = 6 ∨ n ≠ 1 ∧ s.toReader.Empty ∧
    (n < 5 → ∃ k, s.toReader.AtRest k ∧ 0 ≤ k ∧ k ≤ redisMsgInitBuffer * n)))

theorem inv_connectSuccess (mem : Int → UInt8) (uszData : Int) (masterId : List UInt8) (replOffSet : Int) :
    (connectSuccess mem uszData masterId replOffSet).Inv :=
  ⟨0, ⟨rfl, rfl⟩, .inr ⟨rfl, .inr ⟨nofun, (Reader.atRest_init mem uszData).toEmpty,
    fun _ => ⟨0, Reader.atRest_init mem uszData, le_refl _, le_refl _⟩⟩⟩⟩

theorem Rests.inv (h : Rests n wait s) : s.Inv := by
  obtain ⟨n', hat, -, hclosed | ⟨hopen, hne, -, hempty, hrest⟩⟩ := h
  · exact ⟨n', hat, .inl hclosed⟩
  · exact ⟨n', hat, .inr ⟨hopen, .inr ⟨hne, hempty, hrest⟩⟩⟩

theorem At.lt (h : At n s) : n < 7 := (List.getElem?_eq_some_iff.mp h.2).1

/-- The states for which `PrepareSync` has a case. -/
theorem At.handles (h : At n s) (h1 : n ≠ 1) (h6 : n ≠ 6) : handles s.replState = true := by
  have hlt := h.lt
  have hst := h.2
  interval_cases n
  all_goals first
    | exact absurd rfl h1
    | exact absurd rfl h6
    | exact congrArg Replica.handles (some.inj hst).symm

/-- A reply during the handshake. -/
theorem reply_rests (hauth : cfg.masterAuth = []) (hopen : s.status = .opened) (hat : At n s) (h1 : n ≠ 1)
    (h6 : n ≠ 6) (hempty : s.toReader.Empty)
    (hrest : n < 5 → ∃ k, s.toReader.AtRest k ∧ 0 ≤ k ∧ k ≤ redisMsgInitBuffer * n) (hone : s.OneReply bs) :
    ∃ s', s.recv cfg env (.data bs) = some s' ∧ Rests n (bs = [Byte.lf]) s' := by
  have hlt := hat.lt
  obtain ⟨hfit, hbs⟩ := hone
  have hlen : bs.length ≤ redisMsgInitBuffer := by
    have hlo := hempty.lo
    have hcap := hempty.cap
    have hleft : s.iLeft = s.readCache.pData.uszData + s.readCache.pData.sCapacity - s.readCache.szMsgStart := by
      rw [Reader.iLeft, hempty.empty]
      rfl
    omega
  have hout : ∃ r, (s.received bs).prepareSync cfg env bs.length = some r ∧ Outcome n (bs = [lf]) r := by
    rcases hbs with ⟨hv, hpsync⟩ | ⟨hst, rfl⟩
    · by_cases h5 : n < 5
      · obtain ⟨k, hk, hk0, hbound⟩ := hrest h5
        interval_cases n
        · exact prepareSync_pong hopen hk hk0 hv hlen hauth hat hbound
        · exact absurd rfl h1
        · exact prepareSync_port hopen hk hk0 hv hlen hat hbound
        · exact prepareSync_ip hopen hk hk0 hv hlen hat hbound
        · exact prepareSync_capa hopen hk hk0 hv hlen hat hbound
      · obtain rfl : n = 5 := by omega
        obtain ⟨us, rs, rfl, hlf, hlong, hplus⟩ := value_line hv
        obtain ⟨hcont, hnull⟩ := hpsync (some.inj hat.2).symm
        exact prepareSync_psync hopen hempty hat hfit hlf (fun hm => hnull (mem_append_left _ hm)) hlong hplus hcont
    · obtain rfl : n = 5 := by
        have hst' := hat.2
        rw [hst] at hst'
        interval_cases n <;> first | rfl | cases hst'
      have hfit' : (([] ++ lf :: [] : List UInt8).length : Int) ≤ s.iLeft := hfit
      obtain ⟨r, hr, hr'⟩ := prepareSync_newline hopen hempty hat hfit' rfl rfl
      exact ⟨r, hr, by simpa using hr'⟩
  obtain ⟨r, hr, hr'⟩ := hout
  have hne : bs ≠ [] := by
    rcases hbs with ⟨hv, -⟩ | ⟨-, rfl⟩
    · exact Scan.value_ne_nil hv
    · exact nofun
  rw [recv_eq hne hfit (hat.handles h1 h6), hr]
  exact hr'.finish _ _ _

/-- Moving the bytes leaves the handshake as it is. -/
theorem move_same {iRet : ReplicaRet} {hint : Int} (h : s.move iRet hint = some s') : Same s s' := by
  unfold move at h
  dsimp only at h
  split_ifs at h
  · obtain ⟨r, -, rfl⟩ := map_eq_some_iff.mp h
    exact ⟨rfl, rfl, rfl⟩
  · cases h
    exact ⟨rfl, rfl, rfl⟩
  · cases h
    exact ⟨rfl, rfl, rfl⟩

/-- When the handshake is over, the state is left to other code. -/
theorem recv_transfer {ret : ReadRet} (hst : s.replState = .transfer) (hopen : s.status = .opened)
    (h : s.recv cfg env ret = some s') :
    s'.replState = s.replState ∧ s'.entered = s.entered ∧ (s'.status = .opened ∨ s'.status = .closed) := by
  cases ret with
  | eintr | eagain =>
    cases h
    exact ⟨rfl, rfl, .inl hopen⟩
  | failed =>
    cases h
    exact ⟨rfl, rfl, .inr rfl⟩
  | data bs =>
    unfold recv at h
    dsimp only at h
    split_ifs at h with hnil
    · cases h
      exact ⟨rfl, rfl, .inr rfl⟩
    · rw [process, if_pos (.inr (by exact hst)), bind_some] at h
      unfold finish at h
      split at h
      · rename_i t heq
        obtain ⟨-, rfl⟩ := Prod.mk.injEq .. ▸ heq
        have hna : ¬ s.status = .aborted := by rw [hopen]; exact nofun
        rw [if_neg (by exact hna)] at h
        cases h
        exact ⟨rfl, rfl, .inr rfl⟩
      · rename_i t _ heq
        obtain ⟨-, rfl⟩ := Prod.mk.injEq .. ▸ heq
        split_ifs at h
        · cases h
          exact ⟨rfl, rfl, .inl hopen⟩
        · have hsame := move_same h
          exact ⟨hsame.replState, hsame.entered, .inl (hsame.status.trans hopen)⟩

/-- One step. -/
theorem step_inv {l : ReadRet × Env} (h : s.Inv) (hp : Plain cfg s l) (hs : s.step cfg l = some s') : s'.Inv := by
  obtain ⟨ret, env⟩ := l
  obtain ⟨n, hat, hclosed | ⟨hopen, hn⟩⟩ := h
  · rw [step, if_neg (by rw [hclosed]; exact nofun)] at hs
    cases hs
    exact ⟨n, hat, .inl hclosed⟩
  · rw [step, if_pos hopen] at hs
    by_cases h6 : n = 6
    · subst h6
      obtain ⟨hst, hent, hstatus⟩ := recv_transfer (some.inj hat.2).symm hopen hs
      refine ⟨6, ⟨hent.trans hat.1, hat.2.trans (congrArg some hst.symm)⟩, ?_⟩
      rcases hstatus with ho | hc
      · exact .inr ⟨ho, .inl rfl⟩
      · exact .inl hc
    · obtain ⟨h1, hempty, hrest⟩ := hn.resolve_left h6
      cases ret with
      | eintr | eagain =>
        cases hs
        exact ⟨n, hat, .inr ⟨hopen, hn⟩⟩
      | failed =>
        cases hs
        exact ⟨n, hat, .inl rfl⟩
      | data bs =>
        obtain ⟨s1, hs1, hr⟩ : ∃ s1, s.recv cfg env (.data bs) = some s1 ∧ Rests n (bs = [lf]) s1 :=
          reply_rests hp.1 hopen hat h1 h6 hempty hrest (hp.2 bs rfl hopen (hat.handles h1 h6))
        rw [hs1] at hs
        cases hs
        exact hr.inv

/-- Without a password and with replies that come one by one, the states of the handshake are entered in their order, an
open connection is in a state for which `PrepareSync` has a case or is done with the handshake, and each reply is consumed
and takes the handshake on or closes the connection. -/
theorem handshake_advances {mem : Int → UInt8} {uszData : Int} {masterId : List UInt8} {replOffSet : Int}
    {ls : List (ReadRet × Env)} {s : Replica}
    (hm : Meets (step cfg) (Plain cfg) (connectSuccess mem uszData masterId replOffSet) ls)
    (hr : run (step cfg) (connectSuccess mem uszData masterId replOffSet) ls = some s) :
    s.status ≠ .aborted ∧ s.entered <+: order ∧
      (s.status = .opened → handles s.replState = true ∨ s.replState = .transfer) ∧
      ∀ bs env, s.status = .opened → handles s.replState = true → Plain cfg s (.data bs, env) →
        ∃ s', s.step cfg (.data bs, env) = some s' ∧ (s'.status = .closed ∨
          s'.readCache.szMsgEnd = s'.readCache.szMsgStart ∧ (s.entered.length < s'.entered.length ∨ bs = [Byte.lf])) := by
  have hinv : s.Inv := run_inv (fun _ _ _ h hp hs => step_inv h hp hs) ls _ s
    (inv_connectSuccess mem uszData masterId replOffSet) hm hr
  obtain ⟨n, hat, hstatus⟩ := hinv
  refine ⟨?_, ?_, ?_, ?_⟩
  · rcases hstatus with hc | ⟨ho, -⟩
    · rw [hc]; exact nofun
    · rw [ho]; exact nofun
  · rw [hat.1]
    exact take_prefix _ _
  · intro ho
    rcases hstatus with hc | ⟨-, h6 | ⟨h1, -⟩⟩
    · rw [hc] at ho
      cases ho
    · subst h6
      exact .inr (some.inj hat.2).symm
    · by_cases h6 : n = 6
      · subst h6
        exact .inr (some.inj hat.2).symm
      · exact .inl (hat.handles h1 h6)
  · intro bs env ho hh hp
    have h6 : n ≠ 6 := by
      rintro rfl
      rw [← some.inj hat.2] at hh
      cases hh
    rcases hstatus with hc | ⟨-, h6' | ⟨h1, hempty, hrest⟩⟩
    · rw [hc] at ho
      cases ho
    · exact absurd h6' h6
    · obtain ⟨s', hs', n', hat', hle, hrests⟩ : ∃ s', s.recv cfg env (.data bs) = some s' ∧ Rests n (bs = [lf]) s' :=
        reply_rests hp.1 ho hat h1 h6 hempty hrest (hp.2 bs rfl ho hh)
      refine ⟨s', by rw [step, if_pos ho]; exact hs', ?_⟩
      rcases hrests with hc | ⟨-, -, hgo, hempty', -⟩
      · exact .inl hc
      · refine .inr ⟨hempty'.empty, ?_⟩
        rcases hgo with hgo | hgo
        · have hlt' := hat'.lt
          rw [hat.1, hat'.1, length_take, length_take]
          simp only [order, length_cons, length_nil]
          omega
        · exact .inr hgo

/-- `+PONG` has been read; `+OK` is read next. -/
theorem handshake_advances_eval :
    ∃ s s', run (step ⟨[], [], 6379, 19000, ascii "10.0.0.1"⟩) (connectSuccess (fun _ => 0) 0 (ascii "?") (-1))
        [(.data (ascii "+PONG\r\n"), ⟨true, 4096, .ok⟩)] = some s ∧ s.entered <+: order ∧
      s.step ⟨[], [], 6379, 19000, ascii "10.0.0.1"⟩ (.data (ascii "+OK\r\n"), ⟨true, 4096, .ok⟩) = some s' ∧
      (s'.status = .closed ∨ s'.readCache.szMsgEnd = s'.readCache.szMsgStart ∧
        (s.entered.length < s'.entered.length ∨ ascii "+OK\r\n" = [Byte.lf])) := by
  have heval : (run (step ⟨[], [], 6379, 19000, ascii "10.0.0.1"⟩) (connectSuccess (fun _ => 0) 0 (ascii "?") (-1))
      [(.data (ascii "+PONG\r\n"), ⟨true, 4096, .ok⟩)]).map (fun s => (s.status, s.replState, s.iLeft)) =
      some (.opened, .receivePort, 1024) := by
    decide
  obtain ⟨s, hs, hst⟩ := map_eq_some_iff.mp heval
  obtain ⟨ho, hst, hleft⟩ : s.status = .opened ∧ s.replState = .receivePort ∧ s.iLeft = 1024 := by
    simpa only [Prod.mk.injEq] using hst
  have hpong : Value Canonical (ascii "+PONG\r\n") := Value.simple (s := ascii "PONG") (by unfold Text; decide +kernel)
  have hok : Value Canonical (ascii "+OK\r\n") := Value.simple (s := ascii "OK") (by unfold Text; decide +kernel)
  have hm : Meets (step ⟨[], [], 6379, 19000, ascii "10.0.0.1"⟩) (Plain ⟨[], [], 6379, 19000, ascii "10.0.0.1"⟩)
      (connectSuccess (fun _ => 0) 0 (ascii "?") (-1)) [(.data (ascii "+PONG\r\n"), ⟨true, 4096, .ok⟩)] := by
    refine ⟨⟨rfl, ?_⟩, fun _ _ => trivial⟩
    intro bs hbs _ _
    obtain rfl := ReadRet.data.inj hbs
    exact ⟨by decide, .inl ⟨hpong, nofun⟩⟩
  obtain ⟨-, hent, -, hnext⟩ := handshake_advances hm hs
  obtain ⟨s', hs', h⟩ := hnext (ascii "+OK\r\n") ⟨true, 4096, .ok⟩ ho (by rw [hst]; rfl) ⟨rfl, fun bs hbs _ _ => by
    obtain rfl := ReadRet.data.inj hbs
    exact ⟨by rw [hleft]; decide, .inl ⟨hok, fun h => by rw [hst] at h; cases h⟩⟩⟩
  exact ⟨s, s', hs, hent, hs', h⟩

/-- With a password the handshake stops: `AUTH` has been sent, the state is one `PrepareSync` has no case for, and the
reply to `AUTH` stays in the cache. -/
theorem handshake_stops_at_auth :
    (run (step ⟨[], ascii "secret", 6379, 19000, ascii "10.0.0.1"⟩) (connectSuccess (fun _ => 0) 0 (ascii "?") (-1))
      [(.data (ascii "+PONG\r\n"), ⟨true, 4096, .ok⟩), (.data (ascii "+OK\r\n"), ⟨true, 4096, .ok⟩)]).map
        (fun s => ((s.status, s.replState, handles s.replState), s.sent, s.readCache.content s.mem)) =
      some ((.opened, .sendAuth, false), [[ascii "PING"], [ascii "AUTH", ascii "secret"]], ascii "+OK\r\n") := by
  decide

end Replica

end RedisProxy
