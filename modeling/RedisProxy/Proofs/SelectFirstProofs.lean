import RedisProxy.Proofs.ReconnectProofs

/-!
# Proofs: a tiny backend selects its database first

`ConnectSuccess` queues `SELECT` when the connection is established. Nothing is queued in front of it
as long as no request comes while the backend is connecting.
-/

namespace RedisProxy

variable {cfg : Config} {l l' : Links}

/-! ## The front of the queue -/

namespace RedisEvent

variable {ev ev' : RedisEvent} {sock sock' : Socket} {ret : Ret}

/-- `Write` only adds to the bytes that were written. -/
theorem writeQueue_sent (h : ev.writeQueue sock = some (ret, ev', sock')) : sock.sent <+: sock'.sent := by
  unfold writeQueue at h
  split_ifs at h with hidx hempty
  · simp only [Option.some.injEq, Prod.mk.injEq] at h
    rw [h.2.2]
  by_cases hwrap : ev.lCiovReadIdx % maxRedisMsgIdentyPool < ev.lCiovWriteIdx % maxRedisMsgIdentyPool
  · rw [if_pos hwrap] at h
    exact (sendv_sock h).1
  · rw [if_neg hwrap] at h
    split at h
    · cases h
    · next iRet ev₁ sock₁ h₁ =>
      split_ifs at h
      · simp only [Option.some.injEq, Prod.mk.injEq] at h
        rw [← h.2.2]
        exact (sendv_sock h₁).1
      · simp only [Option.some.injEq, Prod.mk.injEq] at h
        rw [← h.2.2]
        exact (sendv_sock h₁).1
      · exact (sendv_sock h₁).1.trans (sendv_sock h).1

/-- The rest of the bytes `cmd` is in the first cell, which is next. -/
structure Front (cmd : List UInt8) (ev : RedisEvent) (sent : List UInt8) : Prop where
  readIdx : ev.lCiovReadIdx % maxRedisMsgIdentyPool = 0
  lt : ev.lCiovReadIdx < ev.lCiovWriteIdx
  le : ev.lCiovWriteIdx - ev.lCiovReadIdx ≤ maxRedisMsgIdentyPool
  valid : (ev.vCiov 0).Valid
  split : sent ++ (ev.vCiov 0).bytes = cmd

namespace Front

variable {cmd : List UInt8}
variable {sent : List UInt8}

/-- The command is the first one in the queue, or it has been written. -/
theorem sendv {n : Nat} (h : Front cmd ev sock.sent) (hs : ev.sendv 0 (n + 1) sock = some (ret, ev', sock')) :
    Front cmd ev' sock'.sent ∨ cmd <+: sock'.sent := by
  set offered := ((iovSlice ev.vCiov 0 (n + 1)).take 512).flatMap Iovec.bytes with hoff
  have hcell : ∃ rest, offered = (ev.vCiov 0).bytes ++ rest := by
    refine ⟨((iovSlice ev.vCiov 1 n).take 511).flatMap Iovec.bytes, ?_⟩
    rw [hoff, iovSlice_cons, List.take_succ_cons, List.flatMap_cons]
  obtain ⟨rest, hcell⟩ := hcell
  have hsame : ∀ sock'' : Socket, sock''.sent = sock.sent → Front cmd ev sock''.sent := by
    intro sock'' heq
    rw [heq]
    exact h
  unfold RedisEvent.sendv at hs
  rw [if_neg (Nat.succ_ne_zero n)] at hs
  dsimp only at hs
  rcases (doSendv_spec (iovSlice ev.vCiov 0 (n + 1)) sock).code with ⟨hcode, hsent⟩ | ⟨k, hk, -, hmax, hsent⟩
  · have hneg : (doSendv (iovSlice ev.vCiov 0 (n + 1)) sock).1 < 0 := by
      rcases hcode with hcode | hcode <;> rw [hcode] <;> decide
    left
    split_ifs at hs <;>
    · cases hs
      exact hsame _ hsent
  · rw [hk, if_neg (by omega)] at hs
    rw [← hoff, hcell] at hsent
    split_ifs at hs with hzero
    · cases hs
      left
      apply hsame
      rw [hsent, show k = 0 by omega]
      simp
    have hlen := h.valid.length_bytes
    by_cases hlt : k < (ev.vCiov 0).iovLen
    · -- a part of the first cell went out
      left
      have hint : int32 ((k : Int) - (ev.vCiov 0).iovLen) = (k : Int) - (ev.vCiov 0).iovLen := by
        have hlt31 := h.valid.len_lt
        exact int32_eq (by omega) (by omega)
      rw [sendvLoop] at hs
      rw [hint, if_pos (by omega), if_neg (by omega)] at hs
      cases hs
      have hskip := Iovec.bytes_skip h.valid k
      have h1 : ((k : Int) - (ev.vCiov 0).iovLen + (ev.vCiov 0).iovLen).toNat = k := by omega
      have h2 : (-((k : Int) - (ev.vCiov 0).iovLen)).toNat = (ev.vCiov 0).iovLen - k := by omega
      refine ⟨h.readIdx, h.lt, h.le, ?_, ?_⟩
      · simp only [Function.update_self, h1, h2]
        exact hskip.2
      · simp only [Function.update_self, h1, h2]
        rw [hskip.1, hsent, List.take_append_of_le_length (by omega), List.append_assoc, List.take_append_drop]
        exact h.split
    · right
      have hsock : sock'.sent = sock.sent ++ ((ev.vCiov 0).bytes ++ rest).take k := by
        rw [← hsent]
        split at hs
        · exact absurd hs (by simp)
        · split at hs <;>
          · simp only [Option.some.injEq, Prod.mk.injEq] at hs
            rw [← hs.2.2]
      rw [hsock, List.take_append, List.take_of_length_le (by omega), ← List.append_assoc, h.split]
      exact List.prefix_append ..

/-- The cell behind the queue. -/
theorem writeIdx (h : Front cmd ev sent) :
    ev.lCiovWriteIdx % maxRedisMsgIdentyPool = (ev.lCiovWriteIdx - ev.lCiovReadIdx) % maxRedisMsgIdentyPool := by
  have hlt := h.lt
  have hread := h.readIdx
  have hsum : ev.lCiovReadIdx + (ev.lCiovWriteIdx - ev.lCiovReadIdx) = ev.lCiovWriteIdx := by omega
  rw [← hsum, Nat.add_mod, hread, Nat.zero_add, Nat.mod_mod, hsum]

theorem writeQueue (h : Front cmd ev sock.sent) (hs : ev.writeQueue sock = some (ret, ev', sock')) :
    Front cmd ev' sock'.sent ∨ cmd <+: sock'.sent := by
  have hidx := h.lt
  unfold RedisEvent.writeQueue at hs
  rw [if_pos ⟨hidx.le, h.le⟩, if_neg hidx.ne', h.readIdx, h.writeIdx] at hs
  rcases h.le.lt_or_eq with hlt | heq
  · rw [Nat.mod_eq_of_lt hlt, if_pos (Nat.sub_pos_of_lt hidx), Nat.sub_zero] at hs
    obtain ⟨n, hn⟩ := Nat.exists_eq_succ_of_ne_zero (Nat.sub_pos_of_lt hidx).ne'
    rw [hn] at hs
    exact h.sendv hs
  · -- the queue is full: all cells up to the end of the array are written, and there is no second part
    rw [heq, Nat.mod_self, if_neg (lt_irrefl 0), Nat.sub_zero] at hs
    split at hs
    · cases hs
    · next iRet ev₁ sock₁ h₁ =>
      have h₁' : Front cmd ev₁ sock₁.sent ∨ cmd <+: sock₁.sent := h.sendv h₁
      rw [if_pos rfl] at hs
      split_ifs at hs <;>
      · cases hs
        exact h₁'

/-- `SendMsg` puts its request behind the command. -/
theorem sendMsg (h : Front cmd ev sent) {m : Msg} {p : Nat} (hq : ev.sendMsg m p = some (.queued ev')) :
    Front cmd ev' sent := by
  have hsend := sendMsg_queued hq
  have hle := sendMsg_num_le hq
  have hnum := hsend.num
  have hlt := h.lt
  have hcell : ev'.vCiov 0 = ev.vCiov 0 := by
    rw [hsend.vCiov, h.writeIdx, Nat.mod_eq_of_lt (by omega)]
    exact Function.update_of_ne (Nat.sub_pos_of_lt hlt).ne ..
  exact ⟨by rw [hsend.mod]; exact h.readIdx, by omega, hle, by rw [hcell]; exact h.valid, by rw [hcell]; exact h.split⟩

end Front

/-- `SendMsg` into an empty queue. -/
theorem sendMsg_front (hr : ev.lCiovReadIdx = 0) (hw : ev.lCiovWriteIdx = 0) {m : Msg} {p : Nat}
    (hq : ev.sendMsg m p = some (.queued ev')) : Front m.bytes ev' [] := by
  have hsend := sendMsg_queued hq
  have hnum := hsend.num
  have hcell : ev'.vCiov 0 = m.iovec := by
    rw [hsend.vCiov, hw]
    exact Function.update_self ..
  refine ⟨?_, by omega, sendMsg_num_le hq, by rw [hcell]; exact m.iovec_valid, ?_⟩
  · rw [hsend.mod, hr]
    exact Nat.zero_mod _
  · rw [hcell, List.nil_append, m.iovec_bytes]

end RedisEvent

/-! ## Epochs -/

/-- An epoch in which the command `cmd` has been queued first, and written before anything else. -/
def EpochLog.Led (cmd : List UInt8) (e : EpochLog) : Prop :=
  e.sent ≠ [] → ∃ rest, e.cmds = ⟨true, cmd⟩ :: rest ∧ (e.sent <+: cmd ∨ cmd <+: e.sent)

/-- The present epoch of a tiny backend. -/
inductive Backend.Phase (cmd : List UInt8) (x : Backend) : Prop
  | down (hfd : x.ev.iFD = 0) (hst : ¬x.ev.status.Live) (hring : x.ev.waitRing.toList = [])
      (hled : EpochLog.Led cmd ⟨x.cmds, x.sock.sent⟩)
  /-- The connection is not established. -/
  | early (hst : x.ev.status ≠ .connected) (hring : x.ev.waitRing.toList = []) (htimes : x.lConnectSuccessTimes = 0)
      (hread : x.ev.lCiovReadIdx = 0) (hwrite : x.ev.lCiovWriteIdx = 0) (hcmds : x.cmds = []) (hsent : x.sock.sent = [])
  | led (rest : List Cmd) (hst : x.ev.status = .connected) (hcmds : x.cmds = ⟨true, cmd⟩ :: rest)
      (hfront : x.ev.Front cmd x.sock.sent ∨ cmd <+: x.sock.sent)

namespace Backend.Phase

variable {cmd : List UInt8} {x : Backend}
variable {ev : RedisEvent}

theorem epoch_led (h : Phase cmd x) : EpochLog.Led cmd ⟨x.cmds, x.sock.sent⟩ := by
  cases h with
  | down _ _ _ hled => exact hled
  | early _ _ _ _ _ _ hsent => exact fun hne => absurd hsent hne
  | led rest _ hcmds hfront =>
    refine fun _ => ⟨rest, hcmds, ?_⟩
    rcases hfront with hfront | hfront
    · left
      rw [← hfront.split]
      exact List.prefix_append ..
    · exact .inr hfront

/-- Writes keep the order. -/
theorem write (h : Phase cmd x) (hfd : x.ev.iFD ≠ 0) {script : List WritevRet} {iRet : Ret}
    {sock : Socket} (hw : x.ev.writeQueue { x.sock with script } = some (iRet, ev, sock)) :
    Phase cmd { x with ev, sock } := by
  have hwr := RedisEvent.writeQueue_written hw
  cases h with
  | down hfd' => exact absurd hfd' hfd
  | early hst hring htimes hread hwrite hcmds hsent =>
    -- there is nothing to write
    unfold RedisEvent.writeQueue at hw
    rw [hread, hwrite, if_pos ⟨le_rfl, Nat.zero_le _⟩, if_pos rfl] at hw
    cases hw
    exact .early hst hring htimes rfl rfl hcmds hsent
  | led rest hst hcmds hfront =>
    refine .led rest (by rw [hwr.status]; exact hst) hcmds ?_
    rcases hfront with hfront | hfront
    · have hfront' : x.ev.Front cmd ({ x.sock with script } : Socket).sent := hfront
      exact hfront'.writeQueue hw
    · have hsent : ({ x.sock with script } : Socket).sent <+: sock.sent := RedisEvent.writeQueue_sent hw
      exact .inr (hfront.trans hsent)

/-- A request that is queued on an established connection comes after the command. -/
theorem push (h : Phase cmd x) (hst : x.ev.status = .connected) {m : Msg} {p tag : Nat} {isSelect : Bool}
     (hq : x.ev.sendMsg m p = some (.queued ev)) : Phase cmd (x.push ev isSelect m tag) := by
  have hsend := RedisEvent.sendMsg_queued hq
  cases h with
  | down _ hlive => exact absurd (.inr hst) hlive
  | early hne => exact absurd hst hne
  | led rest _ hcmds hfront =>
    refine .led (rest ++ [⟨isSelect, m.bytes⟩]) (hsend.status.trans hst) ?_ ?_
    · show x.cmds ++ _ = _
      rw [hcmds]
      rfl
    · exact hfront.imp (fun hf => hf.sendMsg hq) id

end Backend.Phase

/-- The invariant of runs in which no request meets a backend that is connecting. -/
structure Selects (iDB : Nat → Nat) (l : Links) : Prop where
  past : ∀ b, ∀ e ∈ (l.backends b).past, e.Led (selectCmd (iDB b)).bytes
  phase : ∀ b, (l.backends b).Phase (selectCmd (iDB b)).bytes
  timer : ∀ t ∈ l.timers, (l.backends t.server).lConnectSuccessTimes = 0

namespace Selects

variable {iDB : Nat → Nat} {l l' : Links} {b : Nat}
variable {x : Backend}

/-- A write to a backend, and to the timers. -/
theorem write (h : Selects iDB l) {ts : List Timer}
    (hpast : ∀ e ∈ x.past, e.Led (selectCmd (iDB b)).bytes) (hphase : x.Phase (selectCmd (iDB b)).bytes)
    (hothers : ∀ t ∈ ts, t.server ≠ b → t ∈ l.timers) (hmine : (∃ t ∈ ts, t.server = b) → x.lConnectSuccessTimes = 0) :
    Selects iDB { l.set b x with timers := ts } := by
  refine ⟨fun b' => ?_, fun b' => ?_, fun t ht => ?_⟩
  · show ∀ e ∈ ((l.set b x).backends b').past, _
    by_cases hb : b' = b
    · rw [hb, Quiet.set_self]
      exact hpast
    · rw [Quiet.set_ne _ hb]
      exact h.past b'
  · show ((l.set b x).backends b').Phase _
    by_cases hb : b' = b
    · rw [hb, Quiet.set_self]
      exact hphase
    · rw [Quiet.set_ne _ hb]
      exact h.phase b'
  · show ((l.set b x).backends t.server).lConnectSuccessTimes = 0
    by_cases hb : t.server = b
    · rw [hb, Quiet.set_self]
      exact hmine ⟨t, ht, hb⟩
    · rw [Quiet.set_ne _ hb]
      exact h.timer t (hothers t ht hb)

/-- A write that keeps the history. -/
theorem keep (h : Selects iDB l) (hpast : x.past = (l.backends b).past) (hphase : x.Phase (selectCmd (iDB b)).bytes)
    (htimes : x.lConnectSuccessTimes = (l.backends b).lConnectSuccessTimes ∨ ∀ t ∈ l.timers, t.server ≠ b) :
    Selects iDB (l.set b x) := by
  refine h.write ?_ hphase (fun t ht _ => ht) ?_
  · rw [hpast]
    exact h.past b
  · rintro ⟨t, ht, rfl⟩
    rcases htimes with htimes | htimes
    · rw [htimes]
      exact h.timer t ht
    · exact absurd rfl (htimes t ht)

/-- A backend that no timer waits for is closed. -/
theorem closed (h : Selects iDB l) {y : Backend} (hy : Backend.Closed (l.backends b) y)
    (hfree : ∀ t ∈ l.timers, t.server ≠ b) : Selects iDB (l.set b y) := by
  refine h.keep hy.past (.down hy.fd ?_ hy.ring ?_) (.inr hfree)
  · rw [hy.status]
    exact Quiet.not_live_closed
  · rw [hy.cmds, hy.sock]
    exact (h.phase b).epoch_led

/-- `ReConnect` of a backend without connection. -/
theorem reConnects (h : Selects iDB l) {pMeta : Option Nat} (hfd : (l.backends b).ev.iFD = 0)
    (hst : ¬(l.backends b).ev.status.Live) (htimes : (l.backends b).lConnectSuccessTimes = 0) {only : Prop}
    (hr : ReConnects .tiny only l b pMeta l') : Selects iDB l' := by
  have hothers : ∀ {ts : List Timer}, (∀ t ∈ ts, t.server = b) → ∀ t ∈ ts ++ l.timers, t.server ≠ b → t ∈ l.timers := by
    intro ts hts t ht hne
    rcases List.mem_append.mp ht with ht | ht
    · exact absurd (hts t ht) hne
    · exact ht
  have hring : ∀ n, ((l.backends b).again n).waitRing.toList = [] := fun n => WaitRing.toList_reInit _
  have hrenewed : ∀ e ∈ (l.backends b).past ++ [⟨(l.backends b).cmds, (l.backends b).sock.sent⟩],
      e.Led (selectCmd (iDB b)).bytes := by
    intro e he
    rcases List.mem_append.mp he with he | he
    · exact h.past b e he
    · rw [List.mem_singleton.mp he]
      exact (h.phase b).epoch_led
  cases hr with
  | later ht _ =>
    have hself : l.set b (l.backends b) = l := by
      unfold Links.set
      rw [Function.update_eq_self]
    have hset := h.write (h.past b) (h.phase b) (hothers ht) (fun _ => htimes)
    rw [hself] at hset
    exact hset
  | retry ht _ =>
    exact h.write (h.past b) (.down hfd hst (hring _) (h.phase b).epoch_led) (hothers ht) (fun _ => htimes)
  | @opens n ev hev _ =>
    refine h.write hrenewed ?_ (fun t ht _ => (List.mem_filter.mp ht).1) (fun _ => htimes)
    cases hev with
    | inProgress k => exact .early (by simp [RedisEvent.connectInProgress, Backend.renew]) (hring n) htimes rfl rfl rfl rfl
    | connected k => exact .early (fun hc => hst (.inr hc)) (hring n) htimes rfl rfl rfl rfl
  | @refused n ts y hy ht _ =>
    have hsent : y.sock.sent = [] := by rw [hy.sock]; rfl
    refine h.write ?_ (.down hy.fd ?_ hy.ring (fun hne => absurd hsent hne)) (hothers ht) (fun _ => ?_)
    · rw [hy.past]
      exact hrenewed
    · rw [hy.status]
      exact Quiet.not_live_closed
    · rcases hy.times with heq | heq
      · exact heq.trans htimes
      · exact heq

end Selects

/-- What one step of the links preserves. -/
theorem LinkStep.selects (hmode : cfg.mode = .tiny) (hs : LinkStep cfg True True l l') (hq : Quiet cfg.mode l)
    (h : Selects cfg.iDB l) : Selects cfg.iDB l' := by
  cases hs with
  | @push b p tag m isSelect ev hst hcalm hsend =>
    exact h.keep rfl ((h.phase b).push (hcalm trivial hmode) hsend) (.inl rfl)
  | @online b hst hnot =>
    cases h.phase b with
    | down _ hlive => exact absurd (.inl hst) hlive
    | early _ _ htimes => exact absurd ⟨hmode, htimes⟩ hnot
    | led _ hst' => exact absurd (hst.symm.trans hst') (by simp)
  | @select b p tag ev hst hsend =>
    refine h.keep rfl ?_ (.inl rfl)
    cases h.phase b with
    | down _ hlive => exact absurd (.inl hst) hlive
    | early _ _ _ hread hwrite hcmds hsent =>
      have hstatus := (RedisEvent.sendMsg_queued hsend).status
      have hempty : (l.backends b).online.lCiovReadIdx = 0 ∧ (l.backends b).online.lCiovWriteIdx = 0 := ⟨hread, hwrite⟩
      have hfront : ev.Front (selectCmd (cfg.iDB b)).bytes [] := RedisEvent.sendMsg_front hempty.1 hempty.2 hsend
      refine .led [] hstatus ?_ (.inl ?_)
      · show (l.backends b).cmds ++ _ = _
        rw [hcmds]
        rfl
      · show ev.Front _ (l.backends b).sock.sent
        rw [hsent]
        exact hfront
    | led _ hst' => exact absurd (hst.symm.trans hst') (by simp)
  | @pop b p n ev tags hp _ =>
    obtain ⟨hcons, rfl⟩ := RedisEvent.popIdenty_some hp
    cases h.phase b with
    | down _ _ hring => rw [hring] at hcons; exact nomatch hcons
    | early _ hring => rw [hring] at hcons; exact nomatch hcons
    | led rest hst hcmds hfront =>
      refine h.keep rfl (.led rest hst hcmds ?_) (.inr (hq.server_ne (.inr (.inr hst))))
      exact hfront.imp (fun hf => ⟨hf.readIdx, hf.lt, hf.le, hf.valid, hf.split⟩) id
  | @write b script iRet ev sock hfd hw => exact h.keep rfl ((h.phase b).write hfd hw) (.inl rfl)
  | @cache b pCache =>
    refine h.keep rfl ?_ (.inl rfl)
    cases h.phase b with
    | down hfd hst hring hled => exact .down hfd hst hring hled
    | early hst hring htimes hread hwrite hcmds hsent => exact .early hst hring htimes hread hwrite hcmds hsent
    | led rest hst hcmds hfront => exact .led rest hst hcmds hfront
  | @close b y hfd hy => exact h.closed hy (hq.server_ne (.inl hfd))
  | @restart b y l' hfd hy _ htimes hr =>
    have hself : (l.set b y).backends b = y := Quiet.set_self ..
    rw [hmode] at hr
    refine (h.closed hy (hq.server_ne (.inl hfd))).reConnects ?_ ?_ ?_ hr
    · rw [hself]
      exact hy.fd
    · rw [hself, hy.status]
      exact Quiet.not_live_closed
    · rw [hself]
      exact htimes hmode
  | @timer t l' ht hr =>
    obtain ⟨hfd, hst⟩ := hq.idle t ht
    rw [hmode] at hr
    exact h.reConnects hfd hst (h.timer t ht) hr
  | @retime f hf =>
    refine ⟨h.past, h.phase, fun t ht => ?_⟩
    obtain ⟨u, hu, rfl⟩ := List.mem_map.mp ht
    rw [(hf u).2]
    exact h.timer u hu
  | @add x hx =>
    have hnew : ∀ e ∈ x.past, e.Led (selectCmd (cfg.iDB l.nBackends)).bytes := by
      intro e he
      rw [hx.past e he]
      exact fun hne => absurd rfl hne
    have hset : Selects cfg.iDB { l.set l.nBackends x with timers := l.timers } := h.write hnew
      (.early hx.status hx.ring hx.times hx.readIdx hx.writeIdx hx.cmds hx.sent) (fun t ht _ => ht) (fun _ => hx.times)
    exact ⟨hset.past, hset.phase, hset.timer⟩

/-- What any number of steps preserves. -/
theorem LinkSteps.selects (hmode : cfg.mode = .tiny) (hs : LinkSteps cfg True True l l') (hq : Quiet cfg.mode l)
    (h : Selects cfg.iDB l) : Quiet cfg.mode l' ∧ Selects cfg.iDB l' := by
  induction hs with
  | refl => exact ⟨hq, h⟩
  | tail _ hstep ih =>
    obtain ⟨hq, h⟩ := ih
    exact ⟨hstep.quiet hq, hstep.selects hmode hq h⟩

namespace Proxy

open Lib List Option Function

/-- Timers of tiny backends need no condition. -/
theorem onlyOK_of_tiny {cfg : Config} (hmode : cfg.mode = .tiny) (w : Proxy) (l : Label) : w.OnlyOK cfg l := by
  cases l with
  | reconnectTimer k conn =>
    dsimp only [OnlyOK]
    cases w.timers[k]? with
    | none => trivial
    | some t =>
      intro htwem
      exact absurd (hmode.symm.trans htwem) (by simp)
  | _ => trivial

theorem init_selects (iDB : Nat → Nat) : Selects iDB init.links := by
  refine ⟨fun b e he => ?_, fun b => ?_, fun t ht => ?_⟩
  · exact absurd he not_mem_nil
  · exact .down rfl (by rintro (h | h) <;> cases h) rfl (fun hne => absurd rfl hne)
  · exact absurd ht not_mem_nil

/-- In every state that a tiny proxy reaches, each epoch of each backend, past or present, has written
nothing yet, or has `SELECT` as its first command and has written that first. -/
theorem select_first (cfg : Config) (hmode : cfg.mode = .tiny) (ls : List Label) {w : Proxy}
    (hok : Meets (step cfg) (CalmOK cfg) init ls) (hrun : run (step cfg) init ls = some w) (b : Nat) :
    ∀ e ∈ (w.backends b).past ++ [⟨(w.backends b).cmds, (w.backends b).sock.sent⟩], e.sent ≠ [] →
      ∃ rest, e.cmds = ⟨true, (selectCmd (cfg.iDB b)).bytes⟩ :: rest ∧
        (e.sent <+: (selectCmd (cfg.iDB b)).bytes ∨ (selectCmd (cfg.iDB b)).bytes <+: e.sent) := by
  have hinv : Quiet cfg.mode w.links ∧ Selects cfg.iDB w.links := by
    refine run_inv (I := fun w => Quiet cfg.mode w.links ∧ Selects cfg.iDB w.links) (C := CalmOK cfg) ?_ ls init w
      ⟨init_quiet cfg.mode, init_selects cfg.iDB⟩ hok hrun
    rintro w l w' ⟨hq, h⟩ hl hs
    have hsteps : LinkSteps cfg True True w.links w'.links :=
      step_links (fun _ => hl) (fun _ => onlyOK_of_tiny hmode w l) hs
    exact hsteps.selects hmode hq h
  obtain ⟨-, hsel⟩ := hinv
  intro e he
  rcases mem_append.mp he with he | he
  · exact hsel.past b e he
  · rw [mem_singleton.mp he]
    exact (hsel.phase b).epoch_led

instance decidableCalmAt (cfg : Config) (w : Proxy) (b : Nat) : Decidable (CalmAt cfg w b) :=
  inferInstanceAs (Decidable (_ → _))

instance decidableCalmReq (cfg : Config) (w : Proxy) : ∀ req, Decidable (CalmReq cfg w req)
  | .forward (some b) => decidableCalmAt cfg w b
  | .reset =>
    decidable_of_iff (∀ x ∈ w.vServers, ∀ b ∈ x, CalmAt cfg w b)
      ⟨fun h b hb => h _ hb b rfl, fun h x hx b hb => h b (by rw [← Option.mem_def.mp hb]; exact hx)⟩
  | .forward none | .answer _ | .clusterSlots _ => isTrue trivial

instance decidableCalmOK (cfg : Config) (w : Proxy) : ∀ l, Decidable (w.CalmOK cfg l)
  | .request _ _ req => decidableCalmReq cfg w req
  | .addServer _ | .reroute _ | .accept _ | .growClient .. | .clientWrite .. | .clientClose _ | .reply ..
  | .growBackend .. | .backendWrite .. | .backendClose .. | .statusTimer .. | .reconnectTimer .. | .tick _ => isTrue trivial

/-- A proxy for tiny servers with the database 0. -/
def tinyConfig : Config := ⟨.tiny, fun _ => 0⟩

theorem select_first_one :
    let ls : List Label := [.addServer (.inProgress 0), .backendWrite 0 true [.accept 9] .socketError, .accept 0,
      .request 0 crlfMsg (.forward (some 0))]
    Meets (step tinyConfig) (CalmOK tinyConfig) init ls ∧
      ∃ w, run (step tinyConfig) init ls = some w ∧
        (w.backends 0).cmds = [⟨true, (selectCmd 0).bytes⟩, ⟨false, crlfMsg.bytes⟩] ∧
        ∃ e ∈ (w.backends 0).past ++ [⟨(w.backends 0).cmds, (w.backends 0).sock.sent⟩], e.sent ≠ [] ∧
          ∃ rest, e.cmds = ⟨true, (selectCmd 0).bytes⟩ :: rest ∧
            (e.sent <+: (selectCmd 0).bytes ∨ (selectCmd 0).bytes <+: e.sent) := by
  intro ls
  have hok : Meets (step tinyConfig) (CalmOK tinyConfig) init ls := by decide
  obtain ⟨w, hw, hview⟩ : ∃ w, run (step tinyConfig) init ls = some w ∧
      ((w.backends 0).cmds, (w.backends 0).sock.sent.length) =
        ([⟨true, (selectCmd 0).bytes⟩, ⟨false, crlfMsg.bytes⟩], 10) := map_eq_some_iff.mp rfl
  obtain ⟨hcmds, hlen⟩ := Prod.mk.inj hview
  have hsent : (w.backends 0).sock.sent ≠ [] := by
    intro hnil
    rw [hnil] at hlen
    exact absurd hlen (by simp)
  have hmem : ⟨(w.backends 0).cmds, (w.backends 0).sock.sent⟩ ∈
      (w.backends 0).past ++ [⟨(w.backends 0).cmds, (w.backends 0).sock.sent⟩] :=
    mem_append_right _ mem_cons_self
  exact ⟨hok, w, hw, hcmds, _, hmem, hsent, select_first tinyConfig rfl ls hok hw 0 _ hmem hsent⟩

/-- A backend reconnects, and a request comes before the connection is established: the request is
written first. -/
theorem request_before_select :
    let ls : List Label := [.addServer (.inProgress 0), .backendWrite 0 true [.accept 100] .socketError,
      .reply 0 okMsg .plain .socketError, .tick 100, .backendClose 0 (.inProgress 1), .accept 0,
      .request 0 crlfMsg (.forward (some 0)), .backendWrite 0 true [.accept 1] .socketError]
    ∃ w, run (step tinyConfig) init ls = some w ∧ w.exited = false ∧
      (w.backends 0).cmds = [⟨false, crlfMsg.bytes⟩, ⟨true, (selectCmd 0).bytes⟩] ∧
      (w.backends 0).sock.sent = crlfMsg.bytes := by
  intro ls
  obtain ⟨w, hw, hview⟩ : ∃ w, run (step tinyConfig) init ls = some w ∧
      (w.exited, (w.backends 0).cmds, (w.backends 0).sock.sent) =
        (false, [⟨false, crlfMsg.bytes⟩, ⟨true, (selectCmd 0).bytes⟩], crlfMsg.bytes) := map_eq_some_iff.mp rfl
  simp only [Prod.mk.injEq] at hview
  obtain ⟨hexit, hcmds, hsent⟩ := hview
  exact ⟨w, hw, hexit, hcmds, hsent⟩

end Proxy

end RedisProxy
