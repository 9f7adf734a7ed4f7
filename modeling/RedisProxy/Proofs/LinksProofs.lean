import RedisProxy.Links
import RedisProxy.Proofs.AccessEventProofs
import RedisProxy.Proofs.ProxyProofs

/-!
# Proofs: the proxy follows the links

What clients, identities and memory do leaves the links alone; everything else is a number of steps of
the links.
-/

namespace RedisProxy

open List Option Function

namespace Proxy

variable {w w' : Proxy} {p c d : Nat}

/-! ## Code that leaves the links alone -/

theorem replyError_links (w : Proxy) (p : Nat) (iErr : RspErr) : (w.replyError p iErr).links = w.links := by
  unfold replyError
  split <;> rfl

theorem getReply_links (w : Proxy) (p d : Nat) : (w.getReply p d).links = w.links := by
  unfold getReply
  split <;> rfl

theorem release_links {side : Side} (hs : w.release side p = some w') : w'.links = w.links := by
  obtain ⟨st, -, rfl⟩ := release_some hs
  rfl

theorem getData_links {sSize : Nat} (hs : w.getData sSize = some (d, w')) : w'.links = w.links := by
  obtain ⟨mem, -, rfl⟩ := getData_some hs
  rfl

theorem resetClientCache_links {sSize : Nat} {bRelease : Bool} (hs : w.resetClientCache c sSize bRelease = some w') :
    w'.links = w.links := by
  obtain ⟨pCache, mem, mem', -, -, rfl⟩ := resetClientCache_some hs
  rfl

theorem accept_links {iFD : Nat} (hs : w.accept iFD = some w') : w'.links = w.links := by
  obtain ⟨⟨pCache, w₁⟩, h₁, hs⟩ := bind_eq_some_iff.mp hs
  cases hs
  have hl : w₁.links = w.links := getData_links h₁
  exact hl

theorem drainClient_links (c : Nat) : ∀ (n : Nat) (w w' : Proxy), drainClient c n w = some w' → w'.links = w.links := by
  intro n
  induction n with
  | zero =>
    intro w w' hs
    cases hs
    rfl
  | succ n ih =>
    intro w w' hs
    unfold drainClient at hs
    split at hs
    · cases hs
      rfl
    · obtain ⟨w₁, h₁, hs⟩ := bind_eq_some_iff.mp hs
      rw [ih w₁ w' hs, release_links h₁]
      rfl

theorem clientClose_links (hs : w.clientClose c = some w') : w'.links = w.links := by
  unfold clientClose at hs
  dsimp only at hs
  split_ifs at hs
  · cases hs
    rfl
  · obtain ⟨w₁, h₁, hs⟩ := bind_eq_some_iff.mp hs
    obtain ⟨mem, -, rfl⟩ := releaseData_some hs
    have hl := drainClient_links c _ _ w₁ h₁
    exact hl

theorem clientWrite_links {script : List WritevRet} (hs : w.clientWrite c script = some w') : w'.links = w.links := by
  obtain ⟨⟨iRet, y⟩, -, hs⟩ := bind_eq_some_iff.mp hs
  dsimp only at hs
  split_ifs at hs
  · rw [clientClose_links hs]
    rfl
  · cases hs
    rfl

/-! ## `SendMsg` -/

section Follow

variable {cfg : Config} {calm only : Prop} {b : Nat}

/-- A request does not meet a tiny backend that is connecting. -/
def CalmAt (cfg : Config) (w : Proxy) (b : Nat) : Prop := cfg.mode = .tiny → (w.backends b).ev.status ≠ .connecting

theorem queued_follow (hcalm : calm → CalmAt cfg w b) (hst : (w.backends b).ev.status.Live) {ev : RedisEvent}
    (hq : (w.backends b).ev.sendMsg (w.data d) p = some (.queued ev)) :
    LinkSteps cfg calm only w.links (w.queued b d p ev).links := by
  exact .single (.push hst (fun hc ht => hst.resolve_left (hcalm hc ht)) hq)

theorem sendMsg_follow (hcalm : calm → CalmAt cfg w b) {pData : Option Nat} (hs : w.sendMsg b pData p = some w') :
    LinkSteps cfg calm only w.links w'.links := by
  rcases sendMsg_some hs with ⟨-, -, rfl⟩ | ⟨d, ev, rfl, hst, hq, rfl⟩
  · rw [replyError_links]
    exact .refl
  · exact queued_follow hcalm hst hq

/-- `SendMsg` keeps the status of every backend. -/
theorem sendMsg_status {pData : Option Nat} (hs : w.sendMsg b pData p = some w') (b' : Nat) :
    (w'.backends b').ev.status = (w.backends b').ev.status := by
  rcases sendMsg_some hs with ⟨-, -, rfl⟩ | ⟨d, ev, -, -, hq, rfl⟩
  · have hl := congrArg Links.backends (replyError_links (w.setReqData p pData) p .disconnect)
    exact congrArg (fun f => (f b').ev.status) hl
  · exact queued_status hq b'

/-! ## Connections -/

theorem connectResult_follow {bConnected : Bool} {iRet : Ret} (hs : w.connectResult cfg b bConnected = some (iRet, w')) :
    LinkSteps cfg calm only w.links w'.links := by
  obtain ⟨⟨r, ev⟩, h₁, hs⟩ := bind_eq_some_iff.mp hs
  dsimp only at hs
  have hsame : (w.setEvent b (w.backends b).ev).links = w.links := by
    unfold links setEvent setBackend
    rw [update_eq_self]
  rcases RedisEvent.connectResult_some h₁ with ⟨hst, rfl, rfl⟩ | ⟨hst, rfl, rfl⟩ | ⟨hst, rfl, rfl⟩
  · rw [if_neg (by simp [hst])] at hs
    cases hs
    rw [hsame]
  · rw [if_neg (by simp)] at hs
    cases hs
    rw [hsame]
  · rw [if_pos (by simp [hst])] at hs
    obtain ⟨w₂, h₂, hs⟩ := bind_eq_some_iff.mp hs
    simp only [Option.pure_def, Option.some.injEq, Prod.mk.injEq] at hs
    obtain ⟨-, rfl⟩ := hs
    set w₁ := w.setEvent b (w.backends b).online
    have hself : w₁.backends b = { w.backends b with ev := (w.backends b).online } := update_self ..
    change w₁.connectSuccess cfg b = some w₂ at h₂
    unfold connectSuccess at h₂
    split_ifs at h₂ with htiny
    · obtain ⟨⟨d, w₃⟩, h₃, h₂⟩ := bind_eq_some_iff.mp h₂
      obtain ⟨⟨p, st⟩, -, h₂⟩ := bind_eq_some_iff.mp h₂
      obtain ⟨mem, -, rfl⟩ := getData_some h₃
      set w₄ := (((w₁.setStore { w₁.st with mem }).setData d (selectCmd (cfg.iDB b))).setStore
        (st.setId p { st.ids p with pAccessEvent := some (.redis b), isSelect := true })).newRequest p with hw₄
      have hback : w₄.backends = w₁.backends := rfl
      have hdata : w₄.data d = selectCmd (cfg.iDB b) := update_self ..
      rcases sendMsg_some h₂ with ⟨h1, h2, -⟩ | ⟨d', ev, hd, -, hq, rfl⟩
      · rw [hback, hself] at h2
        exact absurd rfl h2
      · cases hd
        rw [hback, hself, hdata] at hq
        have hl : (w₄.queued b d p ev).links =
            w.links.set b ((w.backends b).push ev true (selectCmd (cfg.iDB b)) (w₄.serial p)) := by
          have hsel : ((w₄.setReqData p (some d)).st.ids p).isSelect = true := by
            simp [setReqData, setStore, hw₄, newRequest]
          have hx : (w₄.backends b).push ev true (selectCmd (cfg.iDB b)) (w₄.serial p) =
              (w.backends b).push ev true (selectCmd (cfg.iDB b)) (w₄.serial p) := by
            rw [hback, hself]
            rfl
          show Links.set w₄.links b ((w₄.backends b).push ev ((w₄.setReqData p (some d)).st.ids p).isSelect
            (w₄.data d) (w₄.serial p)) = _
          rw [hsel, hdata, hx]
          show (⟨update (update w.backends b _) b _, _, _⟩ : Links) = _
          rw [update_idem]
          rfl
        rw [hl]
        exact .single (.select hst hq)
    · obtain rfl := some.inj h₂
      rw [hself] at htiny
      exact .single (.online hst htiny)

/-- `Close` of a backend, without the reconnection. -/
theorem drain_closed (b : Nat) : ∀ (n : Nat) (w w' : Proxy), drain b n w = some w' →
    (w.backends b).ev.waitRing.toList.length ≤ n → ∃ y, w'.links = w.links.set b y ∧ w'.now = w.now ∧
      y.ev.iFD = (w.backends b).ev.iFD ∧ y.ev.status = (w.backends b).ev.status ∧ y.ev.waitRing.toList = [] ∧
      y.cmds = (w.backends b).cmds ∧ y.sock = (w.backends b).sock ∧ y.past = (w.backends b).past ∧
      y.reInits = (w.backends b).reInits ∧ y.lConnectSuccessTimes = (w.backends b).lConnectSuccessTimes := by
  have hrefl : ∀ w : Proxy, w.links = w.links.set b (w.backends b) := by
    intro w
    unfold links Links.set
    dsimp only
    rw [update_eq_self]
  intro n
  induction n with
  | zero =>
    intro w w' hs hlen
    cases hs
    have hnil : (w.backends b).ev.waitRing.toList = [] := length_eq_zero_iff.mp (Nat.le_zero.mp hlen)
    exact ⟨w.backends b, hrefl w, rfl, rfl, rfl, hnil, rfl, rfl, rfl, rfl, rfl⟩
  | succ n ih =>
    intro w w' hs hlen
    unfold drain at hs
    cases hp : (w.backends b).ev.popIdenty with
    | none =>
      rw [hp] at hs
      cases hs
      exact ⟨w.backends b, hrefl w, rfl, rfl, rfl, RedisEvent.popIdenty_none hp, rfl, rfl, rfl, rfl, rfl⟩
    | some r =>
      obtain ⟨q, ev⟩ := r
      rw [hp] at hs
      obtain ⟨-, rfl⟩ := RedisEvent.popIdenty_some hp
      obtain ⟨w₂, h₂, hs⟩ := bind_eq_some_iff.mp hs
      set x : Backend := { w.backends b with
        ev := { (w.backends b).ev with waitRing := (w.backends b).ev.waitRing.popFront.2 }
        tags := (w.backends b).tags.tail }
      have hl₂ : w₂.links = w.links.set b x := by
        rw [release_links h₂, replyError_links]
        rfl
      have hnow : w₂.now = w.now := by
        obtain ⟨st, -, rfl⟩ := release_some h₂
        show ((w.setBackend b x).replyError q .disconnect).now = w.now
        unfold replyError
        split <;> rfl
      have hx₂ : w₂.backends b = x := by
        have := congrArg (fun l : Links => l.backends b) hl₂
        exact this.trans (update_self ..)
      have hlen₂ : (w₂.backends b).ev.waitRing.toList.length ≤ n := by
        rw [hx₂]
        have htail : x.ev.waitRing.toList = (w.backends b).ev.waitRing.toList.tail := WaitRing.popFront_toList _
        rw [htail, length_tail]
        omega
      obtain ⟨y, hy, hn, hfd, hst, hnil, h1, h2, h3, h4, h5⟩ := ih w₂ w' hs hlen₂
      rw [hx₂] at hfd hst h1 h2 h3 h4 h5
      refine ⟨y, ?_, hn.trans hnow, hfd, hst, hnil, h1, h2, h3, h4, h5⟩
      rw [hy, hl₂]
      unfold Links.set
      rw [update_idem]

theorem redisClose_closed (hfd : (w.backends b).ev.iFD ≠ 0) (hs : w.redisClose b = some w') :
    ∃ y, w'.links = w.links.set b y ∧ w'.now = w.now ∧ Backend.Closed (w.backends b) y ∧
      y.lConnectSuccessTimes = (w.backends b).lConnectSuccessTimes := by
  unfold redisClose at hs
  rw [if_neg hfd, WaitRing.getNum_eq] at hs
  set x : Backend := { w.backends b with
    ev := { (w.backends b).ev with iFD := 0, mask := .none, status := .closed } }
  have hself : (w.setBackend b x).backends b = x := update_self ..
  obtain ⟨y, hy, hn, hfd', hst, hnil, h1, h2, h3, h4, h5⟩ := drain_closed b _ (w.setBackend b x) w' hs
    (by rw [hself])
  rw [hself] at hfd' hst h1 h2 h3 h4 h5
  refine ⟨y, ?_, hn, ⟨hfd', hst, hnil, h1, h2, h3, h4, .inl h5⟩, h5⟩
  rw [hy]
  show (⟨update (update w.backends b x) b y, _, _⟩ : Links) = _
  rw [update_idem]
  rfl

theorem redisClose_follow (hs : w.redisClose b = some w') : LinkSteps cfg calm only w.links w'.links := by
  by_cases hfd : (w.backends b).ev.iFD = 0
  · unfold redisClose at hs
    rw [if_pos hfd] at hs
    cases hs
    exact .refl
  · obtain ⟨y, hy, -, hclosed, -⟩ := redisClose_closed hfd hs
    rw [hy]
    exact .single (.close hfd hclosed)

/-! ## Reconnecting -/

theorem addTimer_links (w : Proxy) (b ulMS : Nat) : (w.addTimer b ulMS).links =
    { w.links with timers := [⟨w.nextTimer, b, ulMS, w.now + ulMS⟩] ++ w.links.timers } := rfl

/-- A timer is added, unless one has called. -/
theorem reConnectRetry_links (w : Proxy) (b tmpMS : Nat) (pMeta : Option Nat) : ∃ ts : List Timer,
    (w.reConnectRetry b tmpMS pMeta).links = { w.links with timers := ts ++ w.links.timers } ∧
      (∀ t ∈ ts, t.server = b) ∧ ts.length ≤ if pMeta = none then 1 else 0 := by
  cases pMeta with
  | none => exact ⟨_, addTimer_links w b tmpMS, fun t ht => by rw [mem_singleton.mp ht], by simp⟩
  | some idx => exact ⟨[], rfl, by simp, by simp⟩

theorem reConnectLater_links (w : Proxy) (b : Nat) (pMeta : Option Nat) : ∃ ts : List Timer,
    (w.reConnectLater b pMeta).links = { w.links with timers := ts ++ w.links.timers } ∧
      (∀ t ∈ ts, t.server = b) ∧ ts.length ≤ if pMeta = none then 1 else 0 :=
  reConnectRetry_links w b 10 pMeta

theorem reConnectSoon_links (hs : w.reConnectSoon b = some w') : ∃ ts : List Timer,
    w'.links = { w.links with timers := ts ++ w.links.timers } ∧ ∀ t ∈ ts, t.server = b := by
  unfold reConnectSoon at hs
  split_ifs at hs
  cases hs
  obtain ⟨ts, hl, ht, -⟩ := reConnectLater_links w b none
  exact ⟨ts, hl, ht⟩

theorem reConnectDone_links (w : Proxy) (pMeta : Option Nat) : (w.reConnectDone pMeta).links =
    { w.links with timers := w.links.timers.filter fun t => pMeta ≠ some t.idx } := by
  cases pMeta with
  | none => simp [reConnectDone, links]
  | some idx =>
    unfold reConnectDone finishTimer links
    dsimp only
    congr 2
    simp [eq_comm]

/-- A connection that is refused at once: the backend is closed again, and there may be timers. -/
theorem connectFailed_links (hfd : (w.backends b).ev.iFD ≠ 0) (hs : w.connectFailed cfg b = some w') :
    ∃ (y : Backend) (ts : List Timer), w'.links = { w.links.set b y with timers := ts ++ w.links.timers } ∧
      Backend.Closed (w.backends b) y ∧ (∀ t ∈ ts, t.server = b) ∧ (cfg.mode = .tiny → ts = []) := by
  obtain ⟨w₁, h₁, hs⟩ := bind_eq_some_iff.mp hs
  obtain ⟨y, hy, -, hclosed, -⟩ := redisClose_closed hfd h₁
  cases hm : cfg.mode with
  | twem =>
    rw [hm] at hs
    obtain ⟨w₂, h₂, hs⟩ := bind_eq_some_iff.mp hs
    obtain ⟨ts₁, hl₁, ht₁⟩ := reConnectSoon_links h₂
    obtain ⟨ts₂, hl₂, ht₂⟩ := reConnectSoon_links hs
    refine ⟨y, ts₂ ++ ts₁, ?_, hclosed, fun t ht => ?_, by simp⟩
    · rw [hl₂, hl₁, hy, append_assoc]
      rfl
    · rcases mem_append.mp ht with ht | ht
      · exact ht₂ t ht
      · exact ht₁ t ht
  | cluster =>
    rw [hm] at hs
    cases hs
    exact ⟨y, [], hy, hclosed, by simp, by simp⟩
  | tiny =>
    rw [hm] at hs
    cases hs
    exact ⟨y, [], hy, hclosed, by simp, by simp⟩

/-- The connection attempt succeeds, or is in progress. -/
def Connect.Opening : Connect → Prop
  | .inProgress _ | .connected _ => True
  | .socketError | .refused _ => False

theorem reConnect_follow {pMeta : Option Nat} {conn : Connect}
    (hone : only → cfg.mode = .twem → (w.backends b).ev.ulNextTry ≤ w.now → Connect.Opening conn → pMeta ≠ none →
      ∀ t ∈ w.timers, t.server = b → pMeta = some t.idx)
    (hs : w.reConnect cfg b pMeta conn = some w') : ReConnects cfg.mode only w.links b pMeta w'.links := by
  unfold reConnect at hs
  dsimp only at hs
  split_ifs at hs with hnow
  · cases hs
    obtain ⟨ts, hl, ht, hlen⟩ := reConnectLater_links w b pMeta
    rw [hl]
    exact .later ht hlen
  have hdue := Nat.not_lt.mp hnow
  set ulNextTry := w.now + min (((w.backends b).ev.ulMaxTryConnect + 1) * 100) 1000
  have hepoch : ∀ ev, ((w.setBackend b ((w.backends b).wipe ulNextTry)).startEpoch b ev).links =
      w.links.set b (((w.backends b).wipe ulNextTry).renew ev) := by
    intro ev
    have hself : (w.setBackend b ((w.backends b).wipe ulNextTry)).backends b = (w.backends b).wipe ulNextTry :=
      update_self ..
    unfold startEpoch
    dsimp only
    rw [hself]
    show (⟨update (update w.backends b _) b _, _, _⟩ : Links) = _
    rw [update_idem]
    rfl
  cases conn with
  | socketError =>
    obtain rfl : w' = (w.setBackend b ((w.backends b).wipe ulNextTry)).reConnectRetry b _ pMeta := (some.inj hs).symm
    obtain ⟨ts, hl, ht, hlen⟩ := reConnectRetry_links (w.setBackend b ((w.backends b).wipe ulNextTry)) b
      (min (((w.backends b).ev.ulMaxTryConnect + 1) * 100) 1000) pMeta
    rw [hl]
    exact .retry ht hlen
  | inProgress n =>
    obtain rfl : w' = ((w.setBackend b ((w.backends b).wipe ulNextTry)).startEpoch b
      (((w.backends b).again ulNextTry).connectInProgress (n + 1))).reConnectDone pMeta := (some.inj hs).symm
    rw [reConnectDone_links, hepoch]
    exact .opens (.inProgress n) fun ho hm => hone ho hm hdue trivial
  | connected n =>
    obtain rfl : w' = ((w.setBackend b ((w.backends b).wipe ulNextTry)).startEpoch b
      { (w.backends b).again ulNextTry with
        iFD := n + 1, mask := ((w.backends b).again ulNextTry).mask.addRW (n + 1) }).reConnectDone pMeta :=
      (some.inj hs).symm
    rw [reConnectDone_links, hepoch]
    exact .opens (.connected n) fun ho hm => hone ho hm hdue trivial
  | refused n =>
    obtain ⟨w₂, h₂, hs⟩ := bind_eq_some_iff.mp hs
    cases hs
    change ((w.setBackend b ((w.backends b).wipe ulNextTry)).startEpoch b
      { (w.backends b).again ulNextTry with
        iFD := n + 1, mask := ((w.backends b).again ulNextTry).mask.addRW (n + 1) }).connectFailed cfg b = some w₂ at h₂
    have hself : ∀ ev, ((w.setBackend b ((w.backends b).wipe ulNextTry)).startEpoch b ev).backends b =
        ((w.backends b).wipe ulNextTry).renew ev := by
      intro ev
      have := congrArg (fun l : Links => l.backends b) (hepoch ev)
      exact this.trans (update_self ..)
    obtain ⟨y, ts, hl, hclosed, ht, htiny⟩ := connectFailed_links (by rw [hself]; simp [Backend.renew]) h₂
    obtain ⟨ts', hl', ht', hlen'⟩ := reConnectRetry_links w₂ b
      (min (((w.backends b).ev.ulMaxTryConnect + 1) * 100) 1000) pMeta
    rw [hself] at hclosed
    have heq : (w₂.reConnectRetry b (min (((w.backends b).ev.ulMaxTryConnect + 1) * 100) 1000) pMeta).links =
        { w.links.set b y with timers := (ts' ++ ts) ++ w.links.timers } := by
      rw [hl', hl, hepoch, append_assoc]
      unfold Links.set
      dsimp only
      rw [update_idem]
    rw [heq]
    refine .refused ⟨hclosed.fd, hclosed.status, hclosed.ring, hclosed.cmds, hclosed.sock, hclosed.past, hclosed.reInits,
      hclosed.times⟩ (fun t ht'' => ?_) fun hm => ?_
    · rcases mem_append.mp ht'' with ht'' | ht''
      · exact ht' t ht''
      · exact ht t ht''
    · rw [htiny hm, append_nil]
      exact hlen'

/-- `Close` with the reconnection. -/
theorem closeReConnect_follow {x : Backend} (hx : w.backends b = x) (hfd : x.ev.iFD ≠ 0)
    {conn : Connect} (hs : ((w.redisClose b).bind fun w => w.reConnect cfg b none conn) = some w') :
    ∃ y, Backend.Closed x y ∧ y.lConnectSuccessTimes = x.lConnectSuccessTimes ∧
      ReConnects cfg.mode only (w.links.set b y) b none w'.links := by
  obtain ⟨w₁, h₁, hs⟩ := bind_eq_some_iff.mp hs
  rw [← hx] at hfd ⊢
  obtain ⟨y, hy, -, hclosed, htimes⟩ := redisClose_closed hfd h₁
  refine ⟨y, hclosed, htimes, ?_⟩
  have hr : ReConnects cfg.mode only w₁.links b none w'.links := reConnect_follow (fun _ _ _ _ hn => absurd rfl hn) hs
  rw [hy] at hr
  exact hr

theorem backendClose_follow (hfd : (w.backends b).ev.iFD ≠ 0) {conn : Connect} (hs : w.backendClose cfg b conn = some w') :
    LinkSteps cfg calm only w.links w'.links := by
  unfold backendClose at hs
  cases hm : cfg.mode with
  | twem =>
    rw [hm] at hs
    dsimp only at hs
    rw [if_neg hfd] at hs
    obtain ⟨y, hclosed, -, hr⟩ : ∃ y, Backend.Closed (w.backends b) y ∧ _ ∧
      ReConnects cfg.mode only (w.links.set b y) b none w'.links := closeReConnect_follow rfl hfd hs
    exact .single (.restart hfd hclosed (by rw [hm]; simp) (by rw [hm]; simp) hr)
  | cluster =>
    rw [hm] at hs
    exact redisClose_follow hs
  | tiny =>
    rw [hm] at hs
    dsimp only at hs
    split_ifs at hs with htimes
    · obtain ⟨w₁, h₁, hs⟩ := bind_eq_some_iff.mp hs
      cases hs
      have hl : LinkSteps cfg calm only w.links w₁.links := redisClose_follow h₁
      exact hl
    · set x : Backend := { w.backends b with lConnectSuccessTimes := 0 }
      obtain ⟨y, hclosed, hy, hr⟩ : ∃ y, Backend.Closed x y ∧ y.lConnectSuccessTimes = x.lConnectSuccessTimes ∧
        ReConnects cfg.mode only ((w.setBackend b x).links.set b y) b none w'.links :=
        closeReConnect_follow (update_self ..) hfd hs
      have hset : (w.setBackend b x).links.set b y = w.links.set b y := by
        show (⟨update (update w.backends b _) b y, _, _⟩ : Links) = _
        rw [update_idem]
        rfl
      rw [hset] at hr
      exact .single (.restart hfd ⟨hclosed.fd, hclosed.status, hclosed.ring, hclosed.cmds, hclosed.sock, hclosed.past,
        hclosed.reInits, .inr hy⟩ (by rw [hm]; simp) (fun _ => hy) hr)

theorem addServer_follow {conn : Connect} {bOk : Bool} (hs : w.addServer cfg conn = some (bOk, w')) :
    LinkSteps cfg calm only w.links w'.links := by
  unfold addServer at hs
  split_ifs at hs
  · cases hs
    exact .refl
  · obtain ⟨⟨pCache, w₁⟩, h₁, hs⟩ := bind_eq_some_iff.mp hs
    obtain ⟨mem, -, rfl⟩ := getData_some h₁
    set b := w.nBackends
    set x : Backend := ⟨.init, pCache, 0, ⟨[], []⟩, [], [], [], []⟩ with hx
    set w₂ : Proxy := { (w.setStore { w.st with mem }).setBackend b x with
      nBackends := b + 1
      vServers := w.vServers ++ [some b] }
    have hself : w₂.backends b = x := update_self ..
    have hepoch : ∀ ev, (w₂.startEpoch b ev).links = { w.links.set b (x.renew ev) with nBackends := b + 1 } := by
      intro ev
      unfold startEpoch
      dsimp only
      rw [hself]
      show (⟨update (update w.backends b x) b _, _, _⟩ : Links) = _
      rw [update_idem]
      rfl
    have hfresh : ∀ ev : RedisEvent, ev.waitRing.toList = [] → ev.lCiovReadIdx = 0 → ev.lCiovWriteIdx = 0 →
        ev.status ≠ .connected → (x.renew ev).Fresh := by
      intro ev h1 h2 h3 h4
      refine ⟨h1, h2, h3, rfl, rfl, fun e he => ?_, rfl, rfl, h4⟩
      exact mem_singleton.mp he
    cases conn with
    | inProgress n =>
      cases hs
      show LinkSteps cfg calm only w.links (w₂.startEpoch b (x.ev.connectInProgress (n + 1))).links
      rw [hepoch]
      exact .single (.add (hfresh _ rfl rfl rfl (by simp [RedisEvent.connectInProgress])))
    | connected n =>
      cases hs
      show LinkSteps cfg calm only w.links
        (w₂.startEpoch b { x.ev with iFD := n + 1, mask := x.ev.mask.addRW (n + 1) }).links
      rw [hepoch]
      exact .single (.add (hfresh _ rfl rfl rfl (by simp [hx, RedisEvent.init])))
    | socketError =>
      cases hs
      exact .single (.add ⟨rfl, rfl, rfl, rfl, rfl, by simp, rfl, rfl, by simp [RedisEvent.init]⟩)
    | refused n =>
      obtain ⟨w₃, h₃, hs⟩ := bind_eq_some_iff.mp hs
      cases hs
      set ev : RedisEvent := { x.ev with iFD := n + 1, mask := x.ev.mask.addRW (n + 1) } with hev
      have hadd : LinkStep cfg calm only w.links (w₂.startEpoch b ev).links := by
        rw [hepoch]
        exact .add (hfresh _ rfl rfl rfl (by simp [hev, hx, RedisEvent.init]))
      have hclose : LinkSteps cfg calm only (w₂.startEpoch b ev).links w₃.links := redisClose_follow h₃
      exact .trans (.single hadd) hclose

/-! ## Requests -/

theorem broadcastLoop_follow : ∀ (l : List (Option Nat)) (w w' : Proxy),
    (calm → ∀ b, some b ∈ l → CalmAt cfg w b) → broadcastLoop p l w = some w' →
    LinkSteps cfg calm only w.links w'.links := by
  intro l
  induction l with
  | nil =>
    intro w w' _ hs
    cases hs
    exact .refl
  | cons pServer l ih =>
    intro w w' hcalm hs
    unfold broadcastLoop at hs
    have hskip : ∀ w₁ : Proxy, w₁.backends = w.backends → calm → ∀ b, some b ∈ l → CalmAt cfg w₁ b := by
      intro w₁ hw₁ hc b hb ht
      rw [hw₁]
      exact hcalm hc b (mem_cons_of_mem _ hb) ht
    cases pServer with
    | none => exact ih (w.skipped p) w' (hskip _ rfl) hs
    | some b =>
      dsimp only at hs
      split_ifs at hs
      · obtain ⟨w₁, h₁, hs⟩ := bind_eq_some_iff.mp hs
        have hsend : LinkSteps cfg calm only w.links w₁.links :=
          sendMsg_follow (fun hc => hcalm hc b mem_cons_self) h₁
        refine hsend.trans (ih w₁ w' (fun hc b' hb' ht => ?_) hs)
        rw [sendMsg_status h₁]
        exact hcalm hc b' (mem_cons_of_mem _ hb') ht
      · exact ih (w.skipped p) w' (hskip _ rfl) hs

theorem broadcast_follow (hcalm : calm → ∀ b, some b ∈ w.vServers → CalmAt cfg w b) (hs : w.broadcast p = some w') :
    LinkSteps cfg calm only w.links w'.links := by
  obtain ⟨w₁, h₁, hs⟩ := bind_eq_some_iff.mp hs
  have hloop : LinkSteps cfg calm only
      (w.setStore (w.st.setId p { w.st.ids p with iNeedWaitNum := w.vServers.length })).links w₁.links :=
    broadcastLoop_follow _ _ w₁ hcalm h₁
  split_ifs at hs
  · cases hs
    rw [replyError_links]
    exact hloop
  · cases hs
    exact hloop

/-- The backends that a request reaches are not connecting. -/
def CalmReq (cfg : Config) (w : Proxy) : Request → Prop
  | .forward (some b) => CalmAt cfg w b
  | .reset => ∀ b, some b ∈ w.vServers → CalmAt cfg w b
  | _ => True

theorem processRequest_follow {req : Request} (hcalm : calm → CalmReq cfg w req)
    (hs : w.processRequest c p req = some w') : LinkSteps cfg calm only w.links w'.links := by
  cases req with
  | answer iErr =>
    have hl := resetClientCache_links hs
    rw [hl, replyError_links]
  | clusterSlots rsp =>
    obtain ⟨⟨e, w₁⟩, h₁, hs⟩ := bind_eq_some_iff.mp hs
    have hl := resetClientCache_links hs
    have hl₁ : w₁.links = w.links := getData_links h₁
    rw [hl, getReply_links]
    show LinkSteps cfg calm only w.links w₁.links
    rw [hl₁]
  | forward route =>
    dsimp only [processRequest] at hs
    split at hs
    · have hl := resetClientCache_links hs
      rw [hl, replyError_links]
      exact .refl
    · rename_i b hr
      obtain ⟨w₂, h₂, hs⟩ := bind_eq_some_iff.mp hs
      have hb : route = some b := by
        cases route with
        | none => exact absurd hr (by simp [routed])
        | some b' =>
          dsimp only [routed] at hr
          split_ifs at hr
          exact hr
      rw [hb] at hcalm
      have hl := resetClientCache_links hs
      rw [hl]
      have hsend : LinkSteps cfg calm only _ w₂.links := sendMsg_follow ?_ h₂
      · exact hsend
      · exact fun hc => hcalm hc
  | reset =>
    obtain ⟨w₁, h₁, hs⟩ := bind_eq_some_iff.mp hs
    have hl := resetClientCache_links hs
    rw [hl]
    have hb : LinkSteps cfg calm only _ w₁.links := broadcast_follow ?_ h₁
    · exact hb
    · exact fun hc => hcalm hc

theorem processMsg_follow {m : Msg} {req : Request} (hcalm : calm → CalmReq cfg w req)
    (hs : w.processMsg c m req = some w') : LinkSteps cfg calm only w.links w'.links := by
  unfold processMsg at hs
  dsimp only at hs
  split_ifs at hs
  · cases hs
    exact .refl
  · obtain ⟨⟨q, st, ev⟩, -, hs⟩ := bind_eq_some_iff.mp hs
    have hreq : LinkSteps cfg calm only _ w'.links := processRequest_follow ?_ hs
    · exact hreq
    · intro hc
      have h := hcalm hc
      cases req with
      | answer iErr => trivial
      | clusterSlots rsp => trivial
      | forward route => cases route <;> exact h
      | reset => exact h

/-! ## Replies -/

theorem resetBackendCache_follow {sSize : Nat} {bRelease : Bool} (hs : w.resetBackendCache b sSize bRelease = some w') :
    LinkSteps cfg calm only w.links w'.links := by
  obtain ⟨pCache, mem, mem', -, -, rfl⟩ := resetBackendCache_some hs
  exact .single (.cache)

theorem redirectTo_follow (hm : cfg.mode ≠ .tiny) {bAsking : Bool} (hs : w.redirectTo b p bAsking = some w') :
    LinkSteps cfg calm only w.links w'.links := by
  have hcalm : ∀ w : Proxy, calm → CalmAt cfg w b := fun w _ ht => absurd ht hm
  unfold redirectTo at hs
  split_ifs at hs
  · obtain ⟨w₁, h₁, hs⟩ := bind_eq_some_iff.mp hs
    exact .trans (sendMsg_follow (hcalm w) h₁) (sendMsg_follow (hcalm w₁) hs)
  · exact sendMsg_follow (hcalm w) hs

theorem slotRedirect_follow (hm : cfg.mode ≠ .tiny) {bAsking : Bool} {target : Target}
    (hs : w.slotRedirect cfg p bAsking target = some w') : LinkSteps cfg calm only w.links w'.links := by
  cases target with
  | invalid =>
    cases hs
    rw [replyError_links]
  | known b => exact redirectTo_follow hm hs
  | unknown conn =>
    obtain ⟨⟨bOk, w₁⟩, h₁, hs⟩ := bind_eq_some_iff.mp hs
    have hadd : LinkSteps cfg calm only w.links w₁.links := addServer_follow h₁
    dsimp only at hs
    split_ifs at hs
    · exact hadd.trans (redirectTo_follow hm hs)
    · cases hs
      rw [replyError_links]
      exact hadd

theorem slotPending_follow (hm : cfg.mode ≠ .tiny) {rsp : Reply} (hs : w.slotPending cfg p rsp = some w') :
    LinkSteps cfg calm only w.links w'.links := by
  cases rsp with
  | plain =>
    cases hs
    exact .refl
  | moved target =>
    dsimp only [slotPending] at hs
    split_ifs at hs
    · cases hs
      rw [replyError_links]
      exact .refl
    · have h : LinkSteps cfg calm only _ w'.links := slotRedirect_follow hm hs
      exact h
  | ask target =>
    have h : LinkSteps cfg calm only _ w'.links := slotRedirect_follow hm hs
    exact h

theorem deliver_follow {rsp : Reply} (hs : w.deliver cfg b p rsp = some w') :
    LinkSteps cfg calm only w.links w'.links := by
  unfold deliver at hs
  split_ifs at hs with hmode
  · obtain ⟨w₁, h₁, hs⟩ := bind_eq_some_iff.mp hs
    have hm : cfg.mode ≠ .tiny := by
      rw [hmode.1]
      simp
    exact .trans (slotPending_follow hm h₁) (resetBackendCache_follow hs)
  · obtain ⟨w₁, h₁, hs⟩ := bind_eq_some_iff.mp hs
    have hl : w₁.links = w.links := (release_links h₁).trans (getReply_links w p _)
    rw [← hl]
    exact resetBackendCache_follow hs

theorem processReply_follow (hfd : (w.backends b).ev.iFD ≠ 0) {m : Msg} {rsp : Reply} {conn : Connect}
    (hs : w.processReply cfg b m rsp conn = some w') : LinkSteps cfg calm only w.links w'.links := by
  obtain ⟨⟨p, ev⟩, hp, hs⟩ := bind_eq_some_iff.mp hs
  dsimp only at hs
  obtain ⟨-, hev⟩ := RedisEvent.popIdenty_some hp
  set x : Backend := { w.backends b with ev, tags := (w.backends b).tags.tail } with hx
  set w₁ := (w.setBackend b x).setData (w.backends b).pCache m
  have hself : w₁.backends b = x := update_self ..
  have hpop : ∀ n, n = (w.backends b).lConnectSuccessTimes ∨ n = 1 →
      LinkStep cfg calm only w.links (w.links.set b { x with lConnectSuccessTimes := n }) :=
    fun n hn => .pop hp hn
  split at hs
  · have hfd₁ : (w₁.backends b).ev.iFD ≠ 0 := by
      rw [hself, hx, hev]
      exact hfd
    exact .trans (.single (hpop _ (.inl rfl))) (backendClose_follow hfd₁ hs)
  · rename_i w₂ hcheck
    have hstep : LinkStep cfg calm only w.links w₂.links := by
      rcases resultCheck_some hcheck with ⟨rfl, -⟩ | ⟨-, -, -, bListenFlag, rfl⟩
      · exact hpop _ (.inl rfl)
      · have hl : ({ w₁.setBackend b { w₁.backends b with lConnectSuccessTimes := 1 } with bListenFlag } : Proxy).links =
            w.links.set b { x with lConnectSuccessTimes := 1 } := by
          rw [hself]
          show (⟨update (update w.backends b x) b _, _, _⟩ : Links) = _
          rw [update_idem]
          rfl
        rw [hl]
        exact hpop 1 (.inr rfl)
    exact .trans (.single hstep) (deliver_follow hs)

theorem statusTimer_follow (hfd : (w.backends b).ev.iFD ≠ 0) {bConnected : Bool} {conn : Connect}
    (hs : w.statusTimer cfg b bConnected conn = some w') : LinkSteps cfg calm only w.links w'.links := by
  obtain ⟨⟨iRet, w₁⟩, h₁, hs⟩ := bind_eq_some_iff.mp hs
  have hres : LinkSteps cfg calm only w.links w₁.links := connectResult_follow h₁
  dsimp only at hs
  split_ifs at hs
  · have hfd₁ : (w₁.backends b).ev.iFD ≠ 0 := by
      rw [connectResult_fd h₁]
      exact hfd
    exact hres.trans (backendClose_follow hfd₁ hs)
  · cases hs
    exact hres

theorem backendWrite_follow (hfd : (w.backends b).ev.iFD ≠ 0) {bConnected : Bool} {script : List WritevRet}
    {conn : Connect} (hs : w.backendWrite cfg b bConnected script conn = some w') :
    LinkSteps cfg calm only w.links w'.links := by
  obtain ⟨iRet, w₁, hfirst, hrest⟩ := backendWrite_some hs
  have h₁ : LinkSteps cfg calm only w.links w₁.links ∧ (w₁.backends b).ev.iFD ≠ 0 := by
    rcases hfirst with ⟨-, hres⟩ | ⟨-, -, rfl⟩
    · refine ⟨connectResult_follow hres, ?_⟩
      rw [connectResult_fd hres]
      exact hfd
    · exact ⟨.refl, hfd⟩
  obtain ⟨hlinks, hfd₁⟩ := h₁
  rcases hrest with ⟨-, hclose⟩ | ⟨-, iRet', ev, sock, hw, hend⟩
  · exact hlinks.trans (backendClose_follow hfd₁ hclose)
  · have hstep : LinkStep cfg calm only w₁.links (w₁.setBackend b { w₁.backends b with ev, sock }).links :=
      .write hfd₁ hw
    rcases hend with ⟨-, hclose⟩ | ⟨-, rfl⟩
    · refine hlinks.trans (.trans (.single hstep) (backendClose_follow ?_ hclose))
      have hself : (w₁.setBackend b { w₁.backends b with ev, sock }).backends b = { w₁.backends b with ev, sock } :=
        update_self ..
      rw [hself]
      rw [(RedisEvent.writeQueue_written hw).fd]
      exact hfd₁
    · exact hlinks.trans (.single hstep)

/-! ## Steps -/

/-- No request meets a tiny backend that is connecting. -/
def CalmOK (cfg : Config) (w : Proxy) : Label → Prop
  | .request _ _ req => CalmReq cfg w req
  | _ => True

/-- A reconnect timer of a plain server that opens a connection is the only one of its backend. -/
def OnlyOK (cfg : Config) (w : Proxy) : Label → Prop
  | .reconnectTimer k conn =>
    match w.timers[k]? with
    | none => True
    | some t => cfg.mode = .twem → t.ulNextMS ≤ w.now → (w.backends t.server).ev.ulNextTry ≤ w.now →
        Connect.Opening conn → ∀ u ∈ w.timers, u.server = t.server → u.idx = t.idx
  | _ => True

theorem reconnectTimer_follow {t : Timer} (ht : t ∈ w.timers) {conn : Connect}
    (honly : only → cfg.mode = .twem → t.ulNextMS ≤ w.now → (w.backends t.server).ev.ulNextTry ≤ w.now →
      Connect.Opening conn → ∀ u ∈ w.timers, u.server = t.server → u.idx = t.idx)
    (hs : w.reconnectTimer cfg t conn = some w') : LinkSteps cfg calm only w.links w'.links := by
  unfold reconnectTimer at hs
  split_ifs at hs with hnow
  · cases hs
    exact .refl
  · obtain ⟨w₁, h₁, hs⟩ := bind_eq_some_iff.mp hs
    cases hs
    have hr : ReConnects cfg.mode only w.links t.server (some t.idx) w₁.links := by
      refine reConnect_follow (fun ho hm hdue hop _ u hu hb => ?_) h₁
      rw [honly ho hm (Nat.not_lt.mp hnow) hdue hop u hu hb]
    refine .trans (.single (.timer ht hr)) (.single (.retime (f := fun u =>
      if u.idx = t.idx then { u with ulNextMS := w₁.now + u.ulMS } else u) fun u => ?_))
    split_ifs <;> exact ⟨rfl, rfl⟩

/-- Every step of the proxy is a number of steps of the links. -/
theorem step_links {l : Label} (hcalm : calm → w.CalmOK cfg l) (honly : only → w.OnlyOK cfg l)
    (hs : w.step cfg l = some w') : LinkSteps cfg calm only w.links w'.links := by
  have hid : some w = some w' → LinkSteps cfg calm only w.links w'.links := by
    intro heq
    obtain rfl := some.inj heq
    exact .refl
  unfold step at hs
  split_ifs at hs with hex
  · exact hid hs
  cases l with
  | addServer conn =>
    obtain ⟨⟨bOk, w₁⟩, h₁, rfl⟩ := map_eq_some_iff.mp hs
    exact addServer_follow h₁
  | reroute vServers =>
    dsimp only at hs
    split_ifs at hs
    · cases hs
      exact .refl
    · exact hid hs
  | accept iFD =>
    rw [accept_links hs]
  | request c m req =>
    dsimp only at hs
    split_ifs at hs
    · exact hid hs
    · exact processMsg_follow hcalm hs
  | growClient c sSize =>
    dsimp only at hs
    split_ifs at hs
    · exact hid hs
    · rw [resetClientCache_links hs]
  | clientWrite c script =>
    dsimp only at hs
    split_ifs at hs
    · exact hid hs
    · rw [clientWrite_links hs]
  | clientClose c =>
    rw [clientClose_links hs]
  | reply b m rsp conn =>
    dsimp only at hs
    split_ifs at hs with hfd
    · exact hid hs
    · exact processReply_follow hfd hs
  | growBackend b sSize =>
    dsimp only at hs
    split_ifs at hs
    · exact hid hs
    · exact resetBackendCache_follow hs
  | backendWrite b bConnected script conn =>
    dsimp only at hs
    split_ifs at hs with hfd
    · exact hid hs
    · exact backendWrite_follow hfd hs
  | backendClose b conn =>
    dsimp only at hs
    split_ifs at hs with hfd
    · exact hid hs
    · exact backendClose_follow hfd hs
  | statusTimer b bConnected conn =>
    dsimp only at hs
    split_ifs at hs with hfd
    · exact hid hs
    · exact statusTimer_follow hfd hs
  | reconnectTimer k conn =>
    dsimp only at hs
    split at hs
    · exact hid hs
    · rename_i t ht
      refine reconnectTimer_follow (mem_of_getElem? ht) (fun ho => ?_) hs
      have hok := honly ho
      dsimp only [OnlyOK] at hok
      rw [ht] at hok
      exact hok
  | tick ms =>
    cases hs
    exact .refl

end Follow

end Proxy

end RedisProxy
