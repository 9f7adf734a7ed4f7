import RedisProxy.Proofs.IdentyFlowProofs

/-!
# Proofs: rules for one identity

Much of what is shown of the identities speaks about one of them at a time: about its token, the places
that it has in rings and in hands, and whether the loop of `Broadcast` is at work on it. `Token.Rule`
lists what such a statement has to survive, and the steps of the flow then keep it for all identities.
-/

namespace RedisProxy

/-- `P` holds of every identity: of its token, of its places in rings and in hands, and of whether it is
the one in the loop of `Broadcast`. -/
def FlowState.Each (P : Token → Nat → Nat → Prop → Prop) (s : FlowState) : Prop :=
  ∀ q, P (s.v.ids q) (s.v.inFlight q) (s.held q) (s.isLoop = true ∧ q = s.p)

/-- A statement about identities of clients that the steps keep. `fresh` says that identities in the pool
are in no ring. -/
structure Token.Rule (fresh keep last : Prop) (P : Token → Nat → Nat → Prop → Prop) : Prop where
  other : ∀ {t f k i}, ¬t.OfClient → P t f k i
  ask : ∀ {t f c j}, Flow.Blank t → (fresh → f = 0) →
    P { t with pAccessEvent := some (.client c), ulIndex := j } f 1 False
  setReq : ∀ {t f k i}, P t f k i → P { t with hasReq := true } f k i
  push : ∀ {t f k i b}, t.OfClient → (last → t.IsReset → i ∧ t.iGotNum = 0) → P t f (k + 1) i →
    P { t with pRedisEvent := some b } (f + 1) k i
  pop : ∀ {t f}, P t (f + 1) 0 False → P t f 1 False
  reply : ∀ {t f m}, t.OfClient → (last → t.IsReset → IsErr m → f = 0) → P t f 1 False → P (t.reply m) f 0 False
  letGo : ∀ {t f}, P t f 0 False → P (t.letGo .redis) f 0 False
  broadcast : ∀ {t f n}, t.OfClient → t.iBroadcast = false → t.iGotNum = 0 → t.iWaitDone = false → P t f 1 False →
    P { t with iBroadcast := true, iNeedWaitNum := n, hasReq := true } f n True
  skip : ∀ {t f k}, t.OfClient → (last → t.pRedisEvent = none) → P t f (k + 1) True →
    P { t with iGotNum := t.iGotNum + 1 } f k True
  nobody : ∀ {t f m}, t.OfClient → t.iGotNum = t.iNeedWaitNum → IsErr m → P t f 0 True → P (t.reply m) f 0 False
  sent : ∀ {t f}, t.iGotNum ≠ t.iNeedWaitNum → P t f 0 True → P t f 0 False
  wipe : ∀ {t f f'}, f' ≤ f → (keep → f' = f) → P t f 0 False → P t f' 0 False

namespace FlowState.Each

variable {P : Token → Nat → Nat → Prop → Prop} {v w : Flow} {p k : Nat} {i : Bool}
variable {q b : Nat} {t : Token} {m : List UInt8}

theorem self (h : Each P ⟨v, p, k, i⟩) : P (v.ids p) (v.inFlight p) k (i = true) := by
  have hp := h p
  rw [held_self, and_iff_left rfl] at hp
  exact hp

/-- Between the steps no identity is in hands or in the loop. -/
theorem rest (h : Each P ⟨v, q, 0, false⟩) (r : Nat) : P (v.ids r) (v.inFlight r) 0 False := by
  have hr := h r
  rw [held_zero] at hr
  have hno : (false = true ∧ r = q) = False := by simp
  rw [← hno]
  exact hr

theorem of_rest (h : ∀ r, P (v.ids r) (v.inFlight r) 0 False) : Each P ⟨v, q, 0, false⟩ := by
  intro r
  have hno : (false = true ∧ r = q) = False := by simp
  rw [held_zero]
  rw [hno]
  exact h r

/-- Hands that are empty do not matter. -/
theorem forget (h : Each P ⟨v, q, 0, false⟩) (q' : Nat) : Each P ⟨v, q', 0, false⟩ := of_rest h.rest

/-- A step that changes one identity only. -/
theorem elsewhere (h : Each P s) (he : Elsewhere s s' p)
    (hp : P (s'.v.ids p) (s'.v.inFlight p) (s'.held p) (s'.isLoop = true ∧ p = s'.p)) : Each P s' := by
  intro q
  by_cases hqp : q = p
  · subst hqp
    exact hp
  · rw [he.inFlight q hqp, he.held q hqp, he.ids q hqp, he.loop q hqp]
    exact h q

/-- A step that changes the identity that is then in the hands of the code. -/
theorem at_hand (h : Each P s) (he : Elsewhere s ⟨w, p, k, i⟩ p) (hp : P (w.ids p) (w.inFlight p) k (i = true)) :
    Each P ⟨w, p, k, i⟩ := by
  apply h.elsewhere he
  rw [held_self, and_iff_left rfl]
  exact hp

/-- Code that only writes the identity in its hands. -/
theorem setId {k' : Nat} {i' : Bool} (h : Each P ⟨v, p, k, i⟩)
    (ht : P (v.ids p) (v.inFlight p) k (i = true) → P t (v.inFlight p) k' (i' = true)) :
    Each P ⟨v.setId p t, p, k', i'⟩ := by
  apply h.at_hand (Flow.setId_elsewhere t)
  rw [Flow.setId_ids_self]
  exact ht h.self

variable {fresh keep last : Prop}

/-- A reply to any identity. -/
theorem replied (rule : Token.Rule fresh keep last P) {f : Nat} (hm : last → t.IsReset → IsErr m → f = 0)
    (h : P t f 1 False) : P (t.reply m) f 0 False := by
  by_cases hc : t.OfClient
  · exact rule.reply hc hm h
  · rw [t.reply_of_not_client m hc]
    exact rule.other hc

theorem pop (rule : Token.Rule fresh keep last P) {l : List Nat} (h : Each P ⟨v, q, 0, false⟩) (hw : v.Wf)
    (hr : v.redisRing b = p :: l) : Each P ⟨v.pop b, p, 1, false⟩ := by
  have hcount := Flow.pop_inFlight hw hr p
  rw [if_pos rfl] at hcount
  have hp := h.rest p
  rw [← hcount] at hp
  apply h.at_hand (Flow.pop_elsewhere hw hr)
  rw [Bool.false_eq_true]
  exact rule.pop hp

theorem push (rule : Token.Rule fresh keep last P) (h : Each P ⟨v, p, k + 1, i⟩) (hb : b < v.nBackends)
    (hl : last → (v.ids p).IsReset → i = true ∧ (v.ids p).iGotNum = 0) : Each P ⟨v.push b p, p, k, i⟩ := by
  have hcount := Flow.push_inFlight (p := p) hb p
  rw [if_pos rfl] at hcount
  apply h.at_hand (Flow.push_elsewhere hb)
  show P ((v.setId p _).ids p) ((v.push b p).inFlight p) k _
  rw [hcount, Flow.setId_ids_self]
  by_cases hc : (v.ids p).OfClient
  · exact rule.push hc hl h.self
  · exact rule.other hc

theorem answer (rule : Token.Rule fresh keep last P) (h : Each P ⟨v, p, 1, false⟩) (hm : last → v.LastError p m) :
    Each P ⟨(v.reply p m).release .redis p, p, 0, false⟩ := by
  obtain ⟨hr, hn, -⟩ := (v.reply p m).release_frame .redis p
  have hfl : ((v.reply p m).release .redis p).inFlight p = v.inFlight p := Flow.inFlight_congr hn hr p
  have hreply : ((v.reply p m).ids p) = (v.ids p).reply m := Flow.setId_ids_self ..
  have hp := h.self
  rw [Bool.false_eq_true] at hp
  apply h.at_hand Flow.answer_elsewhere
  rw [Bool.false_eq_true, hfl]
  by_cases hc : (((v.reply p m).release .redis p).ids p).OfClient
  · -- the client still waits, so the identity has not been recycled
    obtain ⟨c, hc⟩ := hc
    rw [Flow.release_ids hc, hreply]
    exact rule.letGo (replied rule hm hp)
  · exact rule.other hc

/-- `Get` for a client. -/
theorem ask (rule : Token.Rule fresh keep last P) {c : Nat} (h : Each P ⟨v, q, 0, false⟩) (hw : v.Wf)
    (hfresh : fresh → v.inFlight v.nextIdenty = 0) : Each P ⟨v.ask c, v.nextIdenty, 1, false⟩ := by
  have hids : (v.ask c).ids v.nextIdenty =
      { v.fetched with pAccessEvent := some (.client c), ulIndex := v.clientNext c } :=
    (Flow.take_ids _ _).trans (if_pos rfl)
  have he : Elsewhere ⟨v, q, 0, false⟩ ⟨v.ask c, v.nextIdenty, 1, false⟩ v.nextIdenty := Flow.take_elsewhere hw _ _
  apply h.at_hand he
  rw [hids, Bool.false_eq_true]
  exact rule.ask hw.fetched_blank hfresh

/-- `Get` for the `SELECT` of a backend. -/
theorem select (rule : Token.Rule fresh keep last P) (h : Each P ⟨v, q, 0, false⟩) (hw : v.Wf) :
    Each P ⟨v.select b, v.nextIdenty, 1, false⟩ := by
  have hids : (v.select b).ids v.nextIdenty = { v.fetched with pAccessEvent := some (.redis b) } :=
    (Flow.take_ids _ _).trans (if_pos rfl)
  have he : Elsewhere ⟨v, q, 0, false⟩ ⟨v.select b, v.nextIdenty, 1, false⟩ v.nextIdenty := Flow.take_elsewhere hw _ _
  apply h.at_hand he
  apply rule.other
  rintro ⟨c, hc⟩
  rw [hids] at hc
  cases hc

theorem wipe (rule : Token.Rule fresh keep last P) (h : Each P ⟨v, q, 0, false⟩) (hkeep : keep → v.redisRing b = []) :
    Each P ⟨v.wipe b, q, 0, false⟩ := by
  apply of_rest
  intro r
  refine rule.wipe (Flow.wipe_inFlight_le b r) (fun hk => ?_) (h.rest r)
  have hring : (v.wipe b).redisRing = v.redisRing := by
    show Function.update v.redisRing b [] = v.redisRing
    rw [← hkeep hk, Function.update_eq_self]
  exact Flow.inFlight_congr (v := v) (w := v.wipe b) rfl hring r

end FlowState.Each

variable {P : Token → Nat → Nat → Prop → Prop} {strict fresh keep last : Prop} {s s' : FlowState}

/-- One step keeps what follows the rules. -/
theorem FlowStep.each (rule : Token.Rule fresh keep last P) (hs : FlowStep strict keep last s s') (hw : s.v.Wf)
    (hfresh : fresh → ∀ q, s.v.Idle q → s.v.inFlight q = 0) (h : s.Each P) : s'.Each P := by
  cases hs with
  | pop hr => exact h.pop rule hw hr
  | refuse hm =>
    apply h.setId
    rw [Bool.false_eq_true]
    exact FlowState.Each.replied rule hm
  | answer _ hm => exact h.answer rule hm
  | @setReq v p k i q hq =>
    apply h.elsewhere Flow.setReq_elsewhere
    show P ((v.setId q _).ids q) (v.inFlight q) _ _
    rw [Flow.setId_ids_self]
    exact rule.setReq (h q)
  | push _ hb hl => exact h.push rule hb hl
  | @pushAsking v p k b i hb =>
    apply h.elsewhere (Flow.pushAsking_elsewhere hb)
    apply rule.other
    show ¬((v.setId Store.askingIdenty _).ids _).OfClient
    rintro ⟨c, hc⟩
    dsimp only at hc
    rw [hw.asking.2] at hc
    cases hc
  | leave =>
    apply h.elsewhere Flow.leave_elsewhere
    apply rule.other
    rintro ⟨c', hc'⟩
    rw [Flow.release_ids hc'] at hc'
    exact absurd hc' (by simp [Token.letGo])
  | ask => exact h.ask rule hw fun hf => hfresh hf _ Flow.nextIdenty_idle
  | select => exact h.select rule hw
  | broadcast hc hbc hgot hdone =>
    apply h.setId
    rw [Bool.false_eq_true, eq_self]
    exact rule.broadcast hc hbc hgot hdone
  | skip hc hl =>
    apply h.setId
    rw [eq_self]
    exact rule.skip hc hl
  | @nobody v p m hgot hm =>
    apply h.setId
    rw [Bool.false_eq_true, eq_self]
    by_cases hc : (v.ids p).OfClient
    · exact rule.nobody hc hgot hm
    · rw [(v.ids p).reply_of_not_client m hc]
      exact fun _ => rule.other hc
  | @sent v p hgot =>
    have he : Elsewhere ⟨v, p, 0, true⟩ ⟨v, p, 0, false⟩ p :=
      ⟨fun _ _ => rfl, fun _ _ => rfl, fun _ _ => rfl, fun _ _ => Iff.rfl, fun _ hq => by simp [hq]⟩
    have hp := h.self
    rw [eq_self] at hp
    apply h.at_hand he
    rw [Bool.false_eq_true]
    exact rule.sent hgot hp
  | wipe hkeep => exact h.wipe rule hkeep
  | addServer =>
    intro q
    rw [Flow.addServer_inFlight hw]
    exact h q

/-- A whole run keeps it. -/
theorem FlowSteps.each (rule : Token.Rule fresh keep last P) (hs : FlowSteps strict keep last s s') (hw : s.v.Wf)
    (hfresh : fresh → ∀ s₁, FlowSteps strict keep last s s₁ → ∀ q, s₁.v.Idle q → s₁.v.inFlight q = 0) (h : s.Each P) :
    s'.Each P := by
  induction hs with
  | refl => exact h
  | @tail s₁ _ hrun hstep ih => exact hstep.each rule (FlowSteps.wf hrun hw) (fun hf => hfresh hf s₁ hrun) ih

end RedisProxy
