import RedisProxy.Proofs.IdentyReuseProofs
import RedisProxy.Proofs.TokenRuleProofs

/-!
# Proofs: lost requests

A request that has not been answered waits in the ring of a backend. For a broadcast the places in
the rings are at least as many as the replies that it still waits for.
-/

namespace RedisProxy

/-! ## The invariant -/

/-- An unanswered request has a place, and a broadcast one for each reply that is missing. In the loop
of `Broadcast` the places in the hands are those of the servers that are left. -/
def Token.Kept (t : Token) (inFlight held : Nat) (isLoop : Prop) : Prop :=
  t.OfClient → t.iWaitDone = false →
    t.iNeedWaitNum ≤ inFlight + held + t.iGotNum ∧
      (isLoop → t.iGotNum + held ≤ t.iNeedWaitNum) ∧ (¬isLoop → 1 ≤ inFlight + held)

/-- No request is lost. -/
def NoLoss (s : FlowState) : Prop :=
  ∀ q, (s.v.ids q).Kept (s.v.inFlight q) (s.held q) (s.isLoop = true ∧ q = s.p)

namespace Token

variable {t : Token} {f k : Nat} {i : Prop}

theorem Kept.congr {u : Token} {f' k' : Nat} (h : t.Kept f k i) (ha : u.pAccessEvent = t.pAccessEvent)
    (hd : u.iWaitDone = t.iWaitDone) (hn : u.iNeedWaitNum = t.iNeedWaitNum) (hg : u.iGotNum = t.iGotNum)
    (hk : k' ≤ k) (hsum : f' + k' = f + k) : u.Kept f' k' i := by
  unfold Kept OfClient at h ⊢
  rw [ha, hd, hn, hg]
  intro hc hdone
  obtain ⟨h1, h2, h3⟩ := h hc hdone
  exact ⟨by omega, fun hi => by have := h2 hi; omega, fun hi => by have := h3 hi; omega⟩

/-- A reply that does not complete a broadcast leaves another one to wait for. -/
theorem Kept.reply (hc : t.OfClient) (h : t.Kept f 1 False) (m : List UInt8) : (t.reply m).Kept f 0 False := by
  rw [reply_of_client t m hc]
  intro _ hd
  simp only [Bool.or_eq_false_iff, Bool.not_eq_false', decide_eq_true_eq] at hd
  obtain ⟨h1, -, -⟩ := h hc hd.1
  obtain ⟨-, hpart⟩ := hd.2
  exact ⟨by dsimp only; omega, fun hi => hi.elim, fun _ => by omega⟩

/-- The last server was skipped, like all others: the error completes the request. -/
theorem Kept.nobody (hc : t.OfClient) (hgot : t.iGotNum = t.iNeedWaitNum) (m : List UInt8) : (t.reply m).Kept f 0 i := by
  rw [reply_of_client t m hc]
  intro _ hd
  simp only [Bool.or_eq_false_iff, Bool.not_eq_false', decide_eq_true_eq] at hd
  obtain ⟨-, -, hpart⟩ := hd
  omega

/-- Nothing is lost if backends only lose rings that are empty. -/
theorem kept_rule {last : Prop} : Rule False True last Kept where
  other hc := fun hc' => absurd hc' hc
  ask hblank _ := by
    intro _ _
    have hneed := hblank.need
    exact ⟨by dsimp only; omega, fun hi => hi.elim, fun _ => by omega⟩
  setReq h := h.congr rfl rfl rfl rfl le_rfl rfl
  push _ _ h := h.congr rfl rfl rfl rfl (Nat.le_succ _) (by omega)
  pop h := by
    intro hc hd
    obtain ⟨h1, -, -⟩ := h hc hd
    exact ⟨by omega, fun hi => hi.elim, fun _ => by omega⟩
  reply hc _ h := h.reply hc _
  letGo h := h.congr rfl rfl rfl rfl le_rfl rfl
  broadcast _ _ hgot _ _ := by
    intro _ _
    exact ⟨by dsimp only; omega, fun _ => by dsimp only; omega, fun hi => absurd trivial hi⟩
  skip hc _ h := by
    intro _ hd
    obtain ⟨h1, h2, -⟩ := h hc hd
    have h2 := h2 trivial
    exact ⟨by dsimp only; omega, fun _ => by dsimp only; omega, fun hi => absurd trivial hi⟩
  nobody hc hgot _ _ := Kept.nobody hc hgot _
  sent hgot h := by
    intro hc hd
    obtain ⟨h1, h2, -⟩ := h hc hd
    have h2 := h2 trivial
    exact ⟨h1, fun hi => hi.elim, fun _ => by omega⟩
  wipe _ hkeep h := by
    rw [hkeep trivial]
    exact h

end Token

/-- A run in which backends only lose rings that are empty. -/
theorem FlowSteps.noLoss {strict last : Prop} {s s' : FlowState} (hs : FlowSteps strict True last s s') (hw : s.v.Wf)
    (h : NoLoss s) : NoLoss s' :=
  FlowSteps.each Token.kept_rule hs hw (fun hf => hf.elim) h

/-! ## The proxy -/

namespace Proxy

open Lib

instance decidableReInitOK (w : Proxy) : ∀ l, Decidable (w.ReInitOK l)
  | .reconnectTimer k _ =>
    match h : w.timers[k]? with
    | none => isTrue (by dsimp only [ReInitOK]; rw [h]; trivial)
    | some t =>
      decidable_of_iff (t.ulNextMS ≤ w.now → (w.backends t.server).ev.ulNextTry ≤ w.now →
          (w.backends t.server).ev.waitRing.toList = []) (by dsimp only [ReInitOK]; rw [h]; rfl)
  | .addServer _ | .reroute _ | .accept _ | .request .. | .growClient .. | .clientWrite .. | .clientClose _ | .reply ..
  | .growBackend .. | .backendWrite .. | .backendClose .. | .statusTimer .. | .tick _ => isTrue trivial

theorem init_each {P : Token → Nat → Nat → Prop → Prop} {fresh keep last : Prop} (rule : Token.Rule fresh keep last P) :
    FlowState.Each P ⟨init.flow, 0, 0, false⟩ := by
  intro q
  apply rule.other
  rintro ⟨c, hc⟩
  have hmem := (init_good.wf.client c q).mp hc
  exact absurd hmem (by simp [flow, init, AccessEvent.init])

theorem init_noLoss : NoLoss ⟨init.flow, 0, 0, false⟩ :=
  have hrule : Token.Rule False True True Token.Kept := Token.kept_rule
  init_each hrule

/-- The invariant of runs in which no reconnect timer wipes a ring that is in use. -/
structure Lossless (w : Proxy) : Prop where
  good : w.Good
  noLoss : NoLoss ⟨w.flow, 0, 0, false⟩

theorem step_lossless (cfg : Config) (w : Proxy) (l : Label) (w' : Proxy) (h : w.exited = false → w.Lossless)
    (hok : w.ReInitOK l) (hs : w.step cfg l = some w') (hexit : w'.exited = false) : w'.Lossless := by
  obtain ⟨hgood, hno⟩ := h (step_exited hs hexit)
  obtain ⟨q, hfol⟩ : ∃ q, Follows False True False ⟨w.flow, 0, 0, false⟩ w' q 0 false :=
    step_follows hgood (fun hf => hf.elim) (fun _ => hok) (fun hf => hf.elim) hs hexit 0
  exact ⟨hfol.good hgood.wf, FlowState.Each.forget (FlowSteps.noLoss hfol.steps hgood.wf hno) 0⟩

/-- In every state that the proxy reaches, a request in the ring of a client is answered, or it waits in
the ring of a backend. -/
theorem request_answered_or_held (cfg : Config) (ls : List Label) {w : Proxy} (hok : Meets (step cfg) ReInitOK init ls)
    (hrun : run (step cfg) init ls = some w) (hexit : w.exited = false) (c p : Nat)
    (hp : p ∈ (w.clients c).ev.waitRing.toList) :
    (w.st.ids p).iWaitDone = true ∨ ∃ b < w.nBackends, p ∈ (w.backends b).ev.waitRing.toList := by
  have hloss : w.exited = false → w.Lossless :=
    run_inv (fun w l w' => step_lossless cfg w l w') ls init w (fun _ => ⟨init_good, init_noLoss⟩) hok hrun
  obtain ⟨hgood, hno⟩ := hloss hexit
  by_cases hdone : (w.st.ids p).iWaitDone = true
  · exact .inl hdone
  · right
    have howner := (hgood.wf.client c p).mpr hp
    obtain ⟨-, -, hplace⟩ := hno p ⟨c, howner⟩ (Bool.eq_false_iff.mpr hdone)
    have hone := hplace (by simp)
    rw [FlowState.held_zero] at hone
    exact w.flow.exists_of_inFlight hone

theorem request_answered_or_held_one :
    let ls : List Label := [.addServer (.inProgress 0), .backendWrite 0 true [] .socketError,
      .backendClose 0 .socketError, .tick 100, .reconnectTimer 0 (.inProgress 1), .accept 0,
      .request 0 crlfMsg (.forward (some 0))]
    ∃ w, run (step plainConfig) init ls = some w ∧ 1 ∈ (w.clients 0).ev.waitRing.toList ∧
      ((w.st.ids 1).iWaitDone = true ∨ ∃ b < w.nBackends, 1 ∈ (w.backends b).ev.waitRing.toList) := by
  intro ls
  obtain ⟨w, hw, hview⟩ : ∃ w, run (step plainConfig) init ls = some w ∧
      (w.exited, (w.clients 0).ev.waitRing.toList) = (false, [1]) := Option.map_eq_some_iff.mp rfl
  obtain ⟨hexit, hring⟩ := Prod.mk.inj hview
  have hmem : 1 ∈ (w.clients 0).ev.waitRing.toList := by rw [hring]; simp
  exact ⟨w, hw, hmem, request_answered_or_held plainConfig ls (by decide) hw hexit 0 1 hmem⟩

/-- A connection is refused when its backend reconnects, which leaves three timers behind. One of them
connects; another one runs `ReInit` later, on a ring that is in use again. -/
theorem timer_loses_request :
    let ls : List Label := [.addServer (.inProgress 0), .backendWrite 0 true [] .socketError,
      .backendClose 0 (.refused 1), .tick 100, .reconnectTimer 2 (.inProgress 2), .backendWrite 0 true [] .socketError,
      .accept 0, .request 0 crlfMsg (.forward (some 0)), .tick 200, .reconnectTimer 1 (.inProgress 3)]
    ∃ w, run (step plainConfig) init ls = some w ∧ w.exited = false ∧ (w.clients 0).ev.iFD ≠ 0 ∧
      1 ∈ (w.clients 0).ev.waitRing.toList ∧ (w.st.ids 1).iWaitDone = false ∧
      ∀ b, 1 ∉ (w.backends b).ev.waitRing.toList := by
  intro ls
  obtain ⟨w, hw, hview⟩ : ∃ w, run (step plainConfig) init ls = some w ∧
      (w.exited, (w.clients 0).ev.iFD, (w.clients 0).ev.waitRing.toList, (w.st.ids 1).iWaitDone, w.nBackends,
        (w.backends 0).ev.waitRing.toList) = (false, 1, [1], false, 1, []) := Option.map_eq_some_iff.mp rfl
  simp only [Prod.mk.injEq] at hview
  obtain ⟨hexit, hfd, hring, hdone, hn, hempty⟩ := hview
  refine ⟨w, hw, hexit, by rw [hfd]; simp, by rw [hring]; simp, hdone, fun b hmem => ?_⟩
  have hb : b < w.flow.nBackends := (run_good plainConfig ls hw hexit).wf.ring_lt hmem
  have hb0 : b = 0 := by
    have : w.flow.nBackends = 1 := hn
    omega
  rw [hb0, hempty] at hmem
  cases hmem

end Proxy

end RedisProxy
