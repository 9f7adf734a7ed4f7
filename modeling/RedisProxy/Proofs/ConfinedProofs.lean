import RedisProxy.Proofs.BackendReadProofs
import RedisProxy.Proofs.ClientReadProofs
import RedisProxy.Proofs.ProxyFlowProofs

/-!
# A connection that fails

A message that the parser refuses ends the process, whether a client or a server has sent it. As long as no connection
sends one, and no server sends a reply that nobody has asked for, no `ASSERT` of the readers is reached. When a connection
is closed, the clients that have no request on it keep their wait rings, their replies and the identities of their
requests.
-/

namespace RedisProxy

open Lib List Option Function

/-! ## The readers -/

/-- A client that makes no mistake does not end the process. -/
theorem ClientRead.not_aborted (cfg : ReadConfig) (mem : Int → UInt8) (uszData : Int) {ls : List ClientRead.Label}
    (hls : Meets (ClientRead.step cfg) (fun s l => s.Orderly l ∧ s.Faultless l) (.init mem uszData) ls) :
    ∃ s, run (ClientRead.step cfg) (.init mem uszData) ls = some s ∧ s.status ≠ .aborted := by
  obtain ⟨s, hrun, -, hst⟩ := run_isSome (I := fun s => ClientRead.Inv s ∧ s.status ≠ .aborted) (fun s l hI hl => by
    obtain ⟨s', hs, hinv'⟩ := hI.1.step hl.1 cfg
    refine ⟨s', hs, hinv', fun ha => ?_⟩
    cases hI.1.served hl.1 hs with
    | still hmsg hcache hcontent htaken hreceived hstatus => exact hI.2 (hstatus ha)
    | moved hphase hmove hcontent htaken hreceived hstatus => exact hI.2 (hstatus ▸ ha)
    | @processed bs hints k iRet s₁ ts phase hphase hp hspec hcontent =>
      by_cases hret : iRet = .abort
      · obtain ⟨us, d, hus, hfail⟩ := hspec.failed hret
        have hall : Scan.Faultless s₁.received := by
          rw [hspec.received]
          exact hl.2
        rw [show s₁.received = _ from hinv'.received] at hall
        refine (hall.drop fun v hv => ?_).not_failed hus hfail
        obtain ⟨t, ht, rfl⟩ := mem_map.mp hv
        exact (hinv'.whole t ht).message
      · replace ha : (if iRet = .abort then _ else s₁.status) = ReadStatus.aborted := ha
        rw [if_neg hret, hspec.status] at ha
        exact hI.2 ha) ls _ ⟨ClientRead.inv_init mem uszData, by exact nofun⟩ hls
  exact ⟨s, hrun, hst⟩

/-- A server that answers requests and makes no mistake does not end the process. -/
theorem BackendRead.not_aborted (mem : Int → UInt8) (uszData : Int) {ls : List BackendRead.Label}
    (hls : Meets BackendRead.step (fun s l => s.Orderly l ∧ s.Answers l) (.init mem uszData) ls) :
    ∃ s, run BackendRead.step (.init mem uszData) ls = some s ∧ s.status ≠ .aborted := by
  obtain ⟨s, hrun, -, hst⟩ := run_isSome (I := fun s => BackendRead.Inv s ∧ s.status ≠ .aborted) (fun s l hI hl => by
    obtain ⟨s', hs, hinv'⟩ := hI.1.step hl.1
    refine ⟨s', hs, hinv', fun ha => ?_⟩
    obtain ⟨bs, hints, added, s₁, vs, phase, rfl, rfl, hspec, hcontent⟩ := hI.1.aborts hl.1 hs hI.2 ha
    obtain ⟨hclear, hfault, hring⟩ := hl.2
    have hrec : s.received ++ bs.take s.iLeft.toNat = s₁.replies.flatten ++ s₁.content :=
      hspec.received.symm.trans hinv'.received
    rw [hrec] at hfault
    rw [hrec] at hclear
    rcases hspec.aborted ha with hst | ⟨us, d, hus, hfail⟩ | hnull | ⟨⟨n, d, hd⟩, hlen⟩
    · exact hI.2 hst
    · exact (hfault.drop hinv'.messages).not_failed hus hfail
    · exact hnull (Along.mono (fun _ _ hb => hb.2) (Scan.Throughout.drop hinv'.messages hclear))
    · -- there would be more replies than requests
      have hcount := Scan.messages_flatten hspec.consumed.messages s₁.content
      have hone := Scan.messages_message hd (s₁.content.drop n)
      rw [take_append_drop] at hone
      rw [← hspec.consumed.content, hcontent] at hcount
      replace hlen : s.ring ≤ vs.length := hlen
      omega) ls _ ⟨BackendRead.inv_init mem uszData, by exact nofun⟩ hls
  exact ⟨s, hrun, hst⟩

/-! ## The other connections -/

namespace Proxy

variable {cfg : Config} {w w' : Proxy} {b c p : Nat}
variable {conn : Connect} {c' : Nat}

/-- The client `c` has the same connection, with its wait ring and its replies, and the identities of its requests are the
same. -/
structure Untouched (w w' : Proxy) (c : Nat) : Prop where
  conn : w'.clients c = w.clients c
  ids : ∀ p, (w.st.ids p).pAccessEvent = some (.client c) → w'.st.ids p = w.st.ids p

theorem untouched_refl (w : Proxy) (c : Nat) : Untouched w w c := ⟨rfl, fun _ _ => rfl⟩

theorem Untouched.trans {w₁ : Proxy} (h : Untouched w w₁ c) (h' : Untouched w₁ w' c) : Untouched w w' c := by
  refine ⟨h'.conn.trans h.conn, fun p hp => ?_⟩
  have hids := h.ids p hp
  exact (h'.ids p (by rw [hids]; exact hp)).trans hids

/-- The requests `ps` are not those of the client `c`. -/
def NotOf (w : Proxy) (c : Nat) (ps : List Nat) : Prop := ∀ p ∈ ps, (w.st.ids p).pAccessEvent ≠ some (.client c)

/-- Only the identity `p` has changed, and the clients but `c` may have changed; no client has got the identity. -/
structure Besides (w w' : Proxy) (c p : Nat) : Prop where
  conn : w'.clients c = w.clients c
  ids : ∀ q, q ≠ p → w'.st.ids q = w.st.ids q
  access : (w'.st.ids p).pAccessEvent = (w.st.ids p).pAccessEvent ∨ (w'.st.ids p).pAccessEvent = none

theorem Besides.untouched (h : Besides w w' c p) (hp : (w.st.ids p).pAccessEvent ≠ some (.client c)) : Untouched w w' c := by
  refine ⟨h.conn, fun q hq => h.ids q ?_⟩
  rintro rfl
  exact hp hq

theorem Besides.notOf (h : Besides w w' c p) {ps : List Nat} (hps : w.NotOf c ps) : w'.NotOf c ps := by
  intro q hq
  by_cases hqp : q = p
  · subst hqp
    rcases h.access with hacc | hacc
    · rw [hacc]
      exact hps q hq
    · rw [hacc]
      exact nofun
  · rw [h.ids q hqp]
    exact hps q hq

theorem doReply_ids (st : Store) (ev : AccessEvent) (m : Msg) (p : Nat) :
    (∀ q, q ≠ p → (AccessEvent.doReply st ev m p).1.ids q = st.ids q) ∧
      ((AccessEvent.doReply st ev m p).1.ids p).pAccessEvent = (st.ids p).pAccessEvent := by
  by_cases hpart : AccessEvent.Partial (st.ids p)
  · rw [AccessEvent.doReply_partial m hpart]
    constructor
    · intro q hq
      exact Store.setId_ids_ne _ hq _
    · rw [Store.setId_ids_self]
      rfl
  · obtain ⟨mask, hreply, -⟩ : ∃ mask, AccessEvent.doReply st ev m p = _ ∧ _ := AccessEvent.doReply_complete m hpart
    rw [hreply]
    constructor
    · intro q hq
      exact Store.setId_ids_ne _ hq _
    · rw [Store.setId_ids_self]
      rfl

/-- `ReplyError` reaches the client of the identity only. -/
theorem replyError_besides (hp : (w.st.ids p).pAccessEvent ≠ some (.client c)) (iErr : RspErr) :
    Besides w (w.replyError p iErr) c p := by
  unfold replyError
  split
  · rename_i c' hc'
    have hne : c ≠ c' := by
      rintro rfl
      exact hp hc'
    obtain ⟨hids, hacc⟩ := doReply_ids (w.st.setId p { w.st.ids p with pData := none }) (w.clients c').ev (getErrMsg iErr) p
    refine ⟨update_of_ne hne _ _, fun q hq => ?_, .inl ?_⟩
    · exact (hids q hq).trans (Store.setId_ids_ne _ hq _)
    · rw [Store.setId_ids_self] at hacc
      exact hacc
  · exact ⟨rfl, fun _ _ => rfl, .inl rfl⟩

theorem release_besides {side : Side} (hs : w.release side p = some w') (c : Nat) : Besides w w' c p := by
  obtain ⟨st, hst, rfl⟩ := release_some hs
  refine ⟨rfl, (Store.release_some hst).other, ?_⟩
  have hflow := congrArg (fun v : Flow => (v.ids p).pAccessEvent) (release_flow hs).1
  have hacc : ((w.flow.release side p).ids p).pAccessEvent = (w.flow.ids p).pAccessEvent ∨
      ((w.flow.release side p).ids p).pAccessEvent = none := by
    have hgo : ((w.flow.ids p).letGo side).pAccessEvent = (w.flow.ids p).pAccessEvent ∨
        ((w.flow.ids p).letGo side).pAccessEvent = none := by
      cases side with
      | access => exact .inr rfl
      | redis => exact .inl rfl
    by_cases hfree : ((w.flow.ids p).letGo side).pAccessEvent = none ∧ ((w.flow.ids p).letGo side).pRedisEvent = none
    · right
      unfold Flow.release Flow.recycle
      dsimp only
      rw [if_pos hfree]
      split_ifs
      · simpa using hfree.1
      · simpa using hfree.1
      · simp [MsgIdenty.token, MsgIdenty.zero]
    · unfold Flow.release
      dsimp only
      rw [if_neg hfree]
      simpa using hgo
  rw [← hflow] at hacc
  exact hacc

/-! ### A backend is closed -/

theorem drain_untouched (b : Nat) : ∀ (n : Nat) (w w' : Proxy), w.NotOf c (w.backends b).ev.waitRing.toList →
    drain b n w = some w' → Untouched w w' c := by
  intro n
  induction n with
  | zero =>
    intro w w' _ hd
    cases hd
    exact untouched_refl w c
  | succ n ih =>
    intro w w' hnot hd
    unfold drain at hd
    cases hpop : (w.backends b).ev.popIdenty with
    | none =>
      rw [hpop] at hd
      cases hd
      exact untouched_refl w c
    | some r =>
      obtain ⟨p, ev⟩ := r
      rw [hpop] at hd
      obtain ⟨w₂, h₂, hd⟩ := bind_eq_some_iff.mp hd
      obtain ⟨hring, -⟩ := RedisEvent.popIdenty_some hpop
      rw [hring] at hnot
      set w₁ := w.setBackend b { w.backends b with ev, tags := (w.backends b).tags.tail } with hw₁
      have hp : (w₁.st.ids p).pAccessEvent ≠ some (.client c) := hnot p mem_cons_self
      have hreply : Besides w₁ (w₁.replyError p .disconnect) c p := replyError_besides hp .disconnect
      have hrel := release_besides h₂ c
      have hrest : w₁.NotOf c ev.waitRing.toList := fun q hq => hnot q (mem_cons_of_mem p hq)
      have hring₂ : (w₂.backends b).ev.waitRing.toList = ev.waitRing.toList := by
        obtain ⟨st, -, rfl⟩ := release_some h₂
        obtain ⟨hback, -⟩ := replyError_frame w₁ p .disconnect
        show ((w₁.replyError p .disconnect).backends b).ev.waitRing.toList = _
        rw [hback, hw₁]
        simp [setBackend]
      have hnot₂ : w₂.NotOf c (w₂.backends b).ev.waitRing.toList := by
        rw [hring₂]
        exact hrel.notOf (hreply.notOf hrest)
      have hp₂ : ((w₁.replyError p .disconnect).st.ids p).pAccessEvent ≠ some (.client c) := by
        rcases hreply.access with hacc | hacc
        · rw [hacc]
          exact hp
        · rw [hacc]
          simp
      have hstart : Untouched w w₁ c := ⟨rfl, fun _ _ => rfl⟩
      exact hstart.trans ((hreply.untouched hp).trans ((hrel.untouched hp₂).trans (ih w₂ w' hnot₂ hd)))

theorem redisClose_untouched (hnot : w.NotOf c (w.backends b).ev.waitRing.toList) (hs : w.redisClose b = some w') :
    Untouched w w' c := by
  unfold redisClose at hs
  dsimp only at hs
  split_ifs at hs with hfd
  · cases hs
    exact untouched_refl w c
  · set w₁ := w.setEvent b { (w.backends b).ev with iFD := 0, mask := .none, status := .closed } with hw₁
    have hring : (w₁.backends b).ev.waitRing = (w.backends b).ev.waitRing := by
      rw [hw₁]
      simp [setEvent, setBackend]
    have hstart : Untouched w w₁ c := ⟨rfl, fun _ _ => rfl⟩
    refine hstart.trans (drain_untouched b _ w₁ w' ?_ hs)
    rw [hring]
    exact hnot

theorem reConnectLater_untouched (w : Proxy) (b : Nat) (pMeta : Option Nat) (c : Nat) :
    Untouched w (w.reConnectLater b pMeta) c := by
  cases pMeta <;> exact ⟨rfl, fun _ _ => rfl⟩

theorem reConnectRetry_untouched (w : Proxy) (b tmpMS : Nat) (pMeta : Option Nat) (c : Nat) :
    Untouched w (w.reConnectRetry b tmpMS pMeta) c := by
  cases pMeta <;> exact ⟨rfl, fun _ _ => rfl⟩

theorem reConnectDone_untouched (w : Proxy) (pMeta : Option Nat) (c : Nat) : Untouched w (w.reConnectDone pMeta) c := by
  cases pMeta <;> exact ⟨rfl, fun _ _ => rfl⟩

theorem reConnectSoon_untouched (hs : w.reConnectSoon b = some w') (c : Nat) : Untouched w w' c := by
  unfold reConnectSoon at hs
  split_ifs at hs
  cases hs
  exact reConnectLater_untouched w b none c

theorem connectFailed_untouched (hnot : w.NotOf c (w.backends b).ev.waitRing.toList) (hs : w.connectFailed cfg b = some w') :
    Untouched w w' c := by
  obtain ⟨w₁, h₁, hs⟩ := bind_eq_some_iff.mp hs
  have hclose := redisClose_untouched hnot h₁
  cases hm : cfg.mode with
  | tiny =>
    rw [hm] at hs
    cases hs
    exact hclose.trans ⟨rfl, fun _ _ => rfl⟩
  | cluster =>
    rw [hm] at hs
    cases hs
    exact hclose
  | twem =>
    rw [hm] at hs
    obtain ⟨w₂, h₂, hs⟩ := bind_eq_some_iff.mp hs
    exact hclose.trans ((reConnectSoon_untouched h₂ c).trans (reConnectSoon_untouched hs c))

/-- `ReConnect` starts with an empty wait ring. -/
theorem reConnect_untouched {pMeta : Option Nat} (hs : w.reConnect cfg b pMeta conn = some w') (c : Nat) :
    Untouched w w' c := by
  unfold reConnect at hs
  dsimp only at hs
  split_ifs at hs with hnow
  · cases hs
    exact reConnectLater_untouched w b pMeta c
  · cases conn with
    | socketError =>
      cases hs
      refine Untouched.trans ?_ (reConnectRetry_untouched _ b _ pMeta c)
      exact ⟨rfl, fun _ _ => rfl⟩
    | inProgress n =>
      cases hs
      refine Untouched.trans ?_ (reConnectDone_untouched _ pMeta c)
      exact ⟨rfl, fun _ _ => rfl⟩
    | connected n =>
      cases hs
      refine Untouched.trans ?_ (reConnectDone_untouched _ pMeta c)
      exact ⟨rfl, fun _ _ => rfl⟩
    | refused n =>
      obtain ⟨w₂, h₂, hs⟩ := bind_eq_some_iff.mp hs
      cases hs
      refine Untouched.trans ?_ (reConnectRetry_untouched w₂ b _ pMeta c)
      refine Untouched.trans ?_ (connectFailed_untouched ?_ h₂)
      · exact ⟨rfl, fun _ _ => rfl⟩
      · intro p hp
        refine absurd hp ?_
        simp [startEpoch, setBackend, RedisEvent.reInit]

/-- Closing the backend `b` only touches the clients with a request in its wait ring. -/
theorem backendClose_untouched (hnot : w.NotOf c (w.backends b).ev.waitRing.toList)
    (hs : w.backendClose cfg b conn = some w') : Untouched w w' c := by
  unfold backendClose at hs
  cases hm : cfg.mode with
  | twem =>
    rw [hm] at hs
    dsimp only at hs
    split_ifs at hs
    · cases hs
      exact untouched_refl w c
    · obtain ⟨w₁, h₁, hs⟩ := bind_eq_some_iff.mp hs
      exact (redisClose_untouched hnot h₁).trans (reConnect_untouched hs c)
  | cluster =>
    rw [hm] at hs
    exact redisClose_untouched hnot hs
  | tiny =>
    rw [hm] at hs
    dsimp only at hs
    set w₀ := w.setBackend b { w.backends b with lConnectSuccessTimes := 0 } with hw₀
    have hstart : Untouched w w₀ c := ⟨rfl, fun _ _ => rfl⟩
    have hring : (w₀.backends b).ev.waitRing = (w.backends b).ev.waitRing := by
      rw [hw₀]
      simp [setBackend]
    split_ifs at hs
    · obtain ⟨w₁, h₁, hs⟩ := bind_eq_some_iff.mp hs
      cases hs
      exact (redisClose_untouched hnot h₁).trans ⟨rfl, fun _ _ => rfl⟩
    · obtain rfl := some.inj hs
      exact hstart
    · obtain ⟨w₁, h₁, hs⟩ := bind_eq_some_iff.mp hs
      refine hstart.trans ((redisClose_untouched ?_ h₁).trans (reConnect_untouched hs c))
      rw [hring]
      exact hnot

/-! ### A client is closed -/

theorem drainClient_untouched (hne : c ≠ c') : ∀ (n : Nat) (w w' : Proxy),
    w.NotOf c (w.clients c').ev.waitRing.toList → drainClient c' n w = some w' → Untouched w w' c := by
  intro n
  induction n with
  | zero =>
    intro w w' _ hd
    cases hd
    exact untouched_refl w c
  | succ n ih =>
    intro w w' hnot hd
    have hpair : (w.clients c').ev.waitRing.popFront =
        ((w.clients c').ev.waitRing.toList.head?, (w.clients c').ev.waitRing.popFront.2) :=
      Prod.ext (WaitRing.popFront_fst _) rfl
    unfold drainClient at hd
    rw [hpair] at hd
    cases hl : (w.clients c').ev.waitRing.toList with
    | nil =>
      rw [hl] at hd
      cases hd
      exact untouched_refl w c
    | cons p l =>
      rw [hl] at hd hnot
      obtain ⟨w₂, h₂, hrest⟩ := bind_eq_some_iff.mp hd
      set ring := (w.clients c').ev.waitRing.popFront.2 with hring
      set w₁ := w.setClient c' { w.clients c' with ev := { (w.clients c').ev with waitRing := ring } } with hw₁
      have htail : ring.toList = l := by rw [hring, WaitRing.popFront_toList, hl, tail_cons]
      have hstart : Untouched w w₁ c := ⟨update_of_ne hne _ _, fun _ _ => rfl⟩
      have hrel := release_besides h₂ c
      have hnotl : w₁.NotOf c l := fun q hq => hnot q (mem_cons_of_mem p hq)
      have hring₂ : (w₂.clients c').ev.waitRing.toList = l := by
        obtain ⟨st, -, rfl⟩ := release_some h₂
        show (w₁.clients c').ev.waitRing.toList = l
        rw [hw₁]
        simpa [setClient] using htail
      have hnot₂ : w₂.NotOf c (w₂.clients c').ev.waitRing.toList := by
        rw [hring₂]
        exact hrel.notOf hnotl
      exact hstart.trans ((hrel.untouched (hnot p mem_cons_self)).trans (ih w₂ w' hnot₂ hrest))

theorem clientClose_untouched (hne : c ≠ c') (hnot : w.NotOf c (w.clients c').ev.waitRing.toList)
    (hs : w.clientClose c' = some w') : Untouched w w' c := by
  unfold clientClose at hs
  dsimp only at hs
  split_ifs at hs with hfd
  · cases hs
    exact untouched_refl w c
  · obtain ⟨w₂, h₂, hs⟩ := bind_eq_some_iff.mp hs
    obtain ⟨mem, -, rfl⟩ := releaseData_some hs
    set w₁ := w.setClient c' { w.clients c' with ev := { (w.clients c').ev with iFD := 0, mask := .none } } with hw₁
    have hring : (w₁.clients c').ev.waitRing = (w.clients c').ev.waitRing := by
      rw [hw₁]
      simp [setClient]
    have hstart : Untouched w w₁ c := ⟨update_of_ne hne _ _, fun _ _ => rfl⟩
    have hdrain : Untouched w₁ w₂ c := drainClient_untouched hne _ w₁ w₂ (by rw [hring]; exact hnot) h₂
    exact hstart.trans (hdrain.trans ⟨rfl, fun _ _ => rfl⟩)

end Proxy

/-! ## Both together -/

end RedisProxy
