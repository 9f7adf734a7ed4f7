import RedisProxy.Proofs.ProxyFlowProofs

/-!
# Proofs: reuse of identities

An identity goes back to the pool when neither its client nor a backend points to it. The pointer to
the backend speaks for one place only, so what has to be shown is that an identity in more than one
place keeps its client until all of them have answered.
-/

namespace RedisProxy

/-! ## The invariant -/

/-- How many places an identity may have: one, which a backend holds if it is in a ring, or, while a
broadcast waits, as many as there are replies missing. -/
def Token.Bounded (t : Token) (inFlight held : Nat) : Prop :=
  (inFlight + held ≤ 1 ∧ (inFlight = 1 → t.pRedisEvent ≠ none)) ∨
    (t.OfClient ∧ t.iBroadcast = true ∧ t.iWaitDone = false ∧ 1 < t.iNeedWaitNum ∧
      inFlight + held + t.iGotNum ≤ t.iNeedWaitNum)

/-- No identity is reused while it is in a ring. -/
structure NoReuse (s : FlowState) : Prop where
  clean : ∀ q, s.v.Idle q → s.v.inFlight q + s.held q = 0
  bounded : ∀ q, q ≠ Store.askingIdenty → ¬s.v.Idle q → (s.v.ids q).Bounded (s.v.inFlight q) (s.held q)
  tags : ∀ b, s.v.tags b = (s.v.redisRing b).map s.v.serial

namespace Token

variable {t : Token} {f k : Nat}

theorem Bounded.le (h : t.Bounded f k) {f' k' : Nat} (hf : f' ≤ f) (hk : f' + k' ≤ f + k) : t.Bounded f' k' := by
  rcases h with ⟨hle, hr⟩ | ⟨hc, hb, hd, hn, hle⟩
  · exact .inl ⟨by omega, fun h1 => hr (by omega)⟩
  · exact .inr ⟨hc, hb, hd, hn, by omega⟩

/-- A reply takes the identity out of the hands. -/
theorem Bounded.reply (h : t.Bounded f (k + 1)) (m : List UInt8) : (t.reply m).Bounded f k := by
  obtain ⟨-, hr, hn, hb, -⟩ := t.reply_keep m
  rcases h with ⟨hle, hr'⟩ | ⟨hc, hbc, hd, hneed, hle⟩
  · left
    rw [hr]
    exact ⟨by omega, hr'⟩
  · rw [reply_of_client t m hc]
    by_cases hpart : t.Partial
    · exact .inr ⟨hc, hbc, by simp [hd, hpart], hneed, by simpa using by omega⟩
    · -- the last reply: nothing is left in flight
      have hlast : t.iNeedWaitNum ≤ t.iGotNum + 1 := by
        by_contra hlt
        exact hpart ⟨hneed, Nat.not_le.mp hlt⟩
      exact .inl ⟨by omega, fun h1 => by omega⟩

theorem Bounded.congr {u : Token} (h : t.Bounded f k) (ha : u.pAccessEvent = t.pAccessEvent)
    (hr : t.pRedisEvent ≠ none → u.pRedisEvent ≠ none) (hb : u.iBroadcast = t.iBroadcast) (hd : u.iWaitDone = t.iWaitDone)
    (hn : u.iNeedWaitNum = t.iNeedWaitNum) (hg : u.iGotNum = t.iGotNum) : u.Bounded f k := by
  unfold Bounded OfClient at h ⊢
  rw [ha, hb, hd, hn, hg]
  exact h.imp (fun ⟨hle, h1⟩ => ⟨hle, fun hf => hr (h1 hf)⟩) id

/-- An identity that no client waits for is in one place. -/
theorem Bounded.one (h : t.Bounded f k) (ha : t.iBroadcast = false ∨ ¬t.OfClient) : f + k ≤ 1 := by
  rcases h with ⟨hle, -⟩ | ⟨hc, hb, -⟩
  · exact hle
  · rcases ha with ha | ha
    · rw [ha] at hb
      cases hb
    · exact absurd hc ha

end Token

/-! ## Steps -/

namespace NoReuse

variable {s s' : FlowState}

/-- A step that changes one identity only. -/
theorem elsewhere (h : NoReuse s) {p : Nat} (he : Elsewhere s s' p)
    (hidle : s'.v.Idle p → s'.v.inFlight p + s'.held p = 0)
    (hp : p ≠ Store.askingIdenty → ¬s'.v.Idle p → (s'.v.ids p).Bounded (s'.v.inFlight p) (s'.held p))
    (htags : ∀ b, s'.v.tags b = (s'.v.redisRing b).map s'.v.serial) : NoReuse s' := by
  refine ⟨fun q hq => ?_, fun q hq0 hq => ?_, htags⟩
  · by_cases hqp : q = p
    · subst hqp
      exact hidle hq
    · rw [he.inFlight q hqp, he.held q hqp]
      exact h.clean q ((he.idle q hqp).mp hq)
  · by_cases hqp : q = p
    · subst hqp
      exact hp hq0 hq
    · rw [he.inFlight q hqp, he.held q hqp, he.ids q hqp]
      exact h.bounded q hq0 (fun hi => hq ((he.idle q hqp).mpr hi))

variable {v : Flow} {p : Nat}

/-- Code that only writes the identity in its hands. -/
theorem setId {k k' : Nat} {i i' : Bool} (h : NoReuse ⟨v, p, k, i⟩) (t : Token) (hk : k' ≤ k ∨ ¬v.Idle p)
    (ht : p ≠ Store.askingIdenty → (v.ids p).Bounded (v.inFlight p) k → t.Bounded (v.inFlight p) k') :
    NoReuse ⟨v.setId p t, p, k', i'⟩ := by
  apply h.elsewhere (Flow.setId_elsewhere t)
  · intro hidle
    have hclean := h.clean p hidle
    rw [FlowState.held_self] at hclean ⊢
    show v.inFlight p + k' = 0
    rcases hk with hk | hk
    · have : v.inFlight p + k = 0 := hclean
      omega
    · exact absurd hidle hk
  · intro hp0 hidle
    have hb := h.bounded p hp0 hidle
    rw [FlowState.held_self] at hb ⊢
    rw [Flow.setId_ids_self]
    exact ht hp0 hb
  · exact h.tags

/-- An identity that is not in use is in no ring. -/
theorem not_mem (h : NoReuse s) (hw : s.v.Wf) {q b : Nat} (hq : s.v.Idle q) : q ∉ s.v.redisRing b := by
  intro hmem
  have hpos : 0 < (s.v.redisRing b).count q := List.count_pos_iff.mpr hmem
  have hle := s.v.count_le_inFlight (hw.ring_lt hmem) q
  have := h.clean q hq
  omega

/-- `Get` hands out an identity that is nowhere. -/
theorem take {q : Nat} (h : NoReuse ⟨v, q, 0, false⟩) (hw : v.Wf) (t : Token) (ring next : Nat → _) :
    NoReuse ⟨{ v.take t with clientRing := ring, clientNext := next }, v.nextIdenty, 1, false⟩ := by
  have hclean := h.clean _ Flow.nextIdenty_idle
  have hzero : v.inFlight v.nextIdenty = 0 := by
    have : v.inFlight v.nextIdenty + _ = 0 := hclean
    omega
  apply h.elsewhere (Flow.take_elsewhere hw ring next)
  · intro hidle
    exact absurd rfl ((hw.take_idle t v.nextIdenty).mp hidle).2
  · intro _ _
    rw [FlowState.held_self]
    show Token.Bounded _ (v.inFlight v.nextIdenty) 1
    rw [hzero]
    exact .inl ⟨le_rfl, fun h1 => by omega⟩
  · intro b
    show v.tags b = (v.redisRing b).map (Function.update v.serial v.nextIdenty v.nextSerial)
    rw [h.tags b]
    apply List.map_congr_left
    intro r hr
    have hne : r ≠ v.nextIdenty := by
      rintro rfl
      exact h.not_mem hw Flow.nextIdenty_idle hr
    rw [Function.update_of_ne hne]

theorem pop {q b : Nat} {l : List Nat} (h : NoReuse ⟨v, q, 0, false⟩) (hw : v.Wf) (hr : v.redisRing b = p :: l) :
    NoReuse ⟨v.pop b, p, 1, false⟩ := by
  have hcount := Flow.pop_inFlight hw hr p
  rw [if_pos rfl] at hcount
  apply h.elsewhere (Flow.pop_elsewhere hw hr)
  · intro hidle
    have : v.inFlight p + _ = 0 := h.clean p hidle
    omega
  · intro hp0 hidle
    have hb : (v.ids p).Bounded (v.inFlight p) _ := h.bounded p hp0 hidle
    rw [FlowState.held_self]
    exact hb.le (by dsimp only; omega) (by dsimp only; omega)
  · intro b'
    have htags := h.tags b'
    show Function.update v.tags b (v.tags b).tail b' = (Function.update v.redisRing b (v.redisRing b).tail b').map v.serial
    rw [Function.update_apply, Function.update_apply]
    split_ifs with hb
    · subst hb
      rw [List.map_tail]
      exact congrArg List.tail htags
    · exact htags

/-- Any identity may be queued that code has in its hands. -/
theorem push_tags {b : Nat} (h : ∀ b, v.tags b = (v.redisRing b).map v.serial) (b' : Nat) :
    (v.push b p).tags b' = ((v.push b p).redisRing b').map v.serial := by
  show Function.update v.tags b (v.tags b ++ [v.serial p]) b' =
    (Function.update v.redisRing b (v.redisRing b ++ [p]) b').map v.serial
  rw [Function.update_apply, Function.update_apply]
  split_ifs with hb
  · rw [List.map_append, h b]
    rfl
  · exact h b'

theorem push {k b : Nat} {i : Bool} (h : NoReuse ⟨v, p, k + 1, i⟩) (hb : b < v.nBackends) (hp : ¬v.Idle p) :
    NoReuse ⟨v.push b p, p, k, i⟩ := by
  have hcount := Flow.push_inFlight (p := p) hb p
  rw [if_pos rfl] at hcount
  apply h.elsewhere (Flow.push_elsewhere hb)
  · intro hidle
    exact absurd hidle hp
  · intro hp0 _
    have hbd : (v.ids p).Bounded (v.inFlight p) _ := h.bounded p hp0 hp
    rw [FlowState.held_self] at hbd ⊢
    show Token.Bounded ((v.setId p _).ids p) ((v.push b p).inFlight p) k
    rw [hcount, Flow.setId_ids_self]
    rcases hbd with ⟨hle, -⟩ | ⟨hc, hbc, hd, hn, hle⟩
    · exact .inl ⟨by omega, fun _ => by simp⟩
    · exact .inr ⟨hc, hbc, hd, hn, by dsimp only; omega⟩
  · exact push_tags h.tags

theorem pushAsking {k b : Nat} {i : Bool} (h : NoReuse ⟨v, p, k, i⟩) (hw : v.Wf) (hb : b < v.nBackends) :
    NoReuse ⟨v.push b Store.askingIdenty, p, k, i⟩ := by
  apply h.elsewhere (Flow.pushAsking_elsewhere hb)
  · intro hidle
    exact absurd hidle hw.asking.1
  · intro hp0
    exact absurd rfl hp0
  · exact push_tags h.tags

/-- A side lets go of an identity. -/
theorem release {q : Nat} {w : Flow} (side : Side) (h : NoReuse s) (hids : p ≠ Store.askingIdenty → (w.ids p).iStaticFlag = false)
    (he : Elsewhere s ⟨w.release side p, q, 0, false⟩ p) (hidle : ¬w.Idle p)
    (h0 : ¬(w.release side p).Idle Store.askingIdenty)
    (hb : p ≠ Store.askingIdenty → ((w.ids p).letGo side).Bounded (w.inFlight p) 0)
    (htags : ∀ b, w.tags b = (w.redisRing b).map w.serial) : NoReuse ⟨w.release side p, q, 0, false⟩ := by
  obtain ⟨hr, hn, ht, hser, -⟩ := w.release_frame side p
  have hfl : (w.release side p).inFlight p = w.inFlight p := Flow.inFlight_congr hn hr p
  apply h.elsewhere he
  · intro hi
    have hp0 : p ≠ Store.askingIdenty := by
      rintro rfl
      exact h0 hi
    rw [FlowState.held_zero]
    rw [hfl]
    rcases w.release_cases side (hids hp0) with ⟨⟨ha, hr⟩, -⟩ | heq
    · -- nobody holds it, so it is in no ring
      rcases hb hp0 with ⟨hle, h1⟩ | ⟨⟨c, hc⟩, -⟩
      · by_contra hne
        exact h1 (by omega) hr
      · rw [ha] at hc
        cases hc
    · dsimp only at hi
      rw [heq] at hi
      exact absurd hi hidle
  · intro hp0 hi
    rw [FlowState.held_zero]
    rcases w.release_cases side (hids hp0) with ⟨-, hidl⟩ | heq
    · exact absurd hidl hi
    · dsimp only
      rw [heq, Flow.setId_ids_self]
      exact hb hp0
  · intro b
    rw [hr, ht, hser]
    exact htags b

theorem answer {m : List UInt8} (h : NoReuse ⟨v, p, 1, false⟩) (hw : v.Wf) (hp : (v.ids p).pAccessEvent ≠ none ∨
    (v.ids p).pRedisEvent ≠ none ∨ (v.ids p).iStaticFlag = true) :
    NoReuse ⟨(v.reply p m).release .redis p, p, 0, false⟩ := by
  have hidle := hw.not_idle hp
  have hst : ((v.reply p m).ids p).iStaticFlag = (v.ids p).iStaticFlag := by
    rw [Flow.reply, Flow.setId_ids_self]
    exact ((v.ids p).reply_keep m).2.2.2.2.1
  have hw' := FlowStep.wf (.answer hp (fun hf => hf.elim) :
    FlowStep False False False ⟨v, p, 1, false⟩ ⟨(v.reply p m).release .redis p, p, 0, false⟩) hw
  apply h.release .redis _ Flow.answer_elsewhere hidle hw'.asking.1 _ h.tags
  · intro hp0
    rw [hst]
    exact Bool.eq_false_iff.mpr fun hs => hp0 ((hw.static p).mp hs)
  · intro hp0
    have hb := h.bounded p hp0 hidle
    rw [FlowState.held_self] at hb
    -- the reply is the one place that the backend speaks for
    have hb' : ((v.ids p).letGo .redis).Bounded (v.inFlight p) (0 + 1) :=
      hb.imp (fun hle => ⟨hle.1, fun h1 => by have := hle.1; dsimp only at this; omega⟩) id
    rw [Flow.reply, Flow.setId_ids_self]
    have hcomm : ((v.ids p).reply m).letGo .redis = ((v.ids p).letGo .redis).reply m := by
      unfold Token.reply Token.letGo
      dsimp only
      split <;> rfl
    rw [hcomm]
    exact hb'.reply m

theorem leave {q c : Nat} {l : List Nat} (h : NoReuse ⟨v, q, 0, false⟩) (hw : v.Wf) (hc : v.clientRing c = p :: l)
    (hp : (v.ids p).iWaitDone = true ∨ ((v.ids p).iBroadcast = true → v.Safe p 0)) :
    NoReuse ⟨(v.popClient c).release .access p, q, 0, false⟩ := by
  have hacc : (v.ids p).pAccessEvent = some (.client c) := (hw.client c p).mpr (by rw [hc]; simp)
  have hidle : ¬v.Idle p := hw.not_idle (.inl (by rw [hacc]; simp))
  have hp0 : p ≠ Store.askingIdenty := by
    rintro rfl
    rw [hw.asking.2] at hacc
    exact absurd hacc (by simp)
  have hb := h.bounded p hp0 hidle
  rw [FlowState.held_zero] at hb
  apply h.release .access _ Flow.leave_elsewhere hidle (hw.leave hc).asking.1 _ h.tags
  · intro _
    exact Bool.eq_false_iff.mpr fun hs => hp0 ((hw.static p).mp hs)
  · intro _
    left
    rcases hb with hsafe | ⟨-, hbc, hd, -⟩
    · exact hsafe
    · rcases hp with hdone | hsafe
      · dsimp only at hd
        rw [hdone] at hd
        cases hd
      · exact hsafe hbc

theorem wipe {q b : Nat} (h : NoReuse ⟨v, q, 0, false⟩) : NoReuse ⟨v.wipe b, q, 0, false⟩ := by
  refine ⟨fun r hr => ?_, fun r hr0 hr => ?_, fun b' => ?_⟩
  · have hle := Flow.wipe_inFlight_le (v := v) b r
    have : v.inFlight r + _ = 0 := h.clean r hr
    rw [FlowState.held_zero]
    dsimp only
    omega
  · have hb := h.bounded r hr0 hr
    rw [FlowState.held_zero] at hb ⊢
    have hle := Flow.wipe_inFlight_le (v := v) b r
    exact hb.le hle (by dsimp only; omega)
  · have htags := h.tags b'
    show Function.update v.tags b [] b' = (Function.update v.redisRing b [] b').map v.serial
    rw [Function.update_apply, Function.update_apply]
    split_ifs
    · rfl
    · exact htags

/-- Hands that are empty do not matter. -/
theorem forget {q : Nat} (h : NoReuse ⟨v, q, 0, false⟩) (q' : Nat) : NoReuse ⟨v, q', 0, false⟩ := by
  refine ⟨fun r hr => ?_, fun r hr0 hr => ?_, h.tags⟩
  · have := h.clean r hr
    rw [FlowState.held_zero] at this ⊢
    exact this
  · have := h.bounded r hr0 hr
    rw [FlowState.held_zero] at this ⊢
    exact this

end NoReuse

/-- One step, if no client leaves a broadcast behind that is in several rings. -/
theorem FlowStep.noReuse {keep last : Prop} {s s' : FlowState} (hs : FlowStep True keep last s s') (hw : s.v.Wf)
    (h : NoReuse s) : NoReuse s' := by
  cases hs with
  | pop hr => exact h.pop hw hr
  | refuse => exact h.setId _ (.inl (Nat.zero_le _)) fun _ hb => hb.reply _
  | answer hp _ => exact h.answer hw hp
  | @setReq v p k i q hq =>
    apply h.elsewhere Flow.setReq_elsewhere
    · intro hidle
      exact absurd hidle hq
    · intro hq0 _
      show ((v.setId q _).ids q).Bounded (v.inFlight q) _
      rw [Flow.setId_ids_self]
      exact (h.bounded q hq0 hq).congr rfl id rfl rfl rfl rfl
    · exact h.tags
  | push hp hb _ => exact h.push hb hp
  | pushAsking hb => exact h.pushAsking hw hb
  | leave hc hp => exact h.leave hw hc (hp.imp id fun hsafe => hsafe trivial)
  | ask => exact h.take hw _ _ _
  | select => exact h.take hw _ _ _
  | @broadcast v p n hc hbc hgot hdone =>
    obtain ⟨c, hacc⟩ := hc
    apply h.setId _ (.inr (hw.not_idle (.inl (by rw [hacc]; simp))))
    intro _ hb
    have hone := hb.one (.inl hbc)
    by_cases hn : 1 < n
    · exact .inr ⟨⟨c, hacc⟩, rfl, hdone, hn, by dsimp only; omega⟩
    · exact .inl ⟨by omega, fun h1 => by omega⟩
  | @skip v p k hc _ =>
    apply h.setId _ (.inl (Nat.le_succ _))
    rintro _ (⟨hle, hr⟩ | ⟨hc, hbc, hd, hn, hle⟩)
    · exact .inl ⟨by omega, hr⟩
    · exact .inr ⟨hc, hbc, hd, hn, by dsimp only; omega⟩
  | @nobody v p m hgot _ =>
    apply h.setId _ (.inl le_rfl)
    rintro _ (⟨hle, hr⟩ | ⟨-, -, -, -, hle⟩)
    · left
      rw [((v.ids p).reply_keep m).2.1]
      exact ⟨hle, hr⟩
    · exact .inl ⟨by omega, fun h1 => by omega⟩
  | sent => exact ⟨h.clean, h.bounded, h.tags⟩
  | wipe => exact h.wipe
  | @addServer v p k i =>
    refine ⟨fun q hq => ?_, fun q hq0 hq => ?_, fun b => ?_⟩
    · rw [Flow.addServer_inFlight hw]
      exact h.clean q hq
    · rw [Flow.addServer_inFlight hw]
      exact h.bounded q hq0 hq
    · have htags := h.tags b
      show Function.update v.tags v.nBackends [] b = (v.redisRing b).map v.serial
      rw [Function.update_apply]
      split_ifs with hb
      · rw [hb, hw.empty _ le_rfl]
        rfl
      · exact htags

theorem FlowSteps.noReuse {keep last : Prop} {s s' : FlowState} (hs : FlowSteps True keep last s s') (hw : s.v.Wf)
    (h : NoReuse s) : NoReuse s' := by
  induction hs with
  | refl => exact h
  | tail hrun hstep ih => exact hstep.noReuse (FlowSteps.wf hrun hw) ih

/-! ## The proxy -/

namespace Proxy

open Lib List Option Function

instance decidableSafe (v : Flow) (p k : Nat) : Decidable (v.Safe p k) := inferInstanceAs (Decidable (_ ∧ (_ → ¬_)))

instance decidableLeaves (v : Flow) (c : Nat) : Decidable (Leaves v c) :=
  inferInstanceAs (Decidable (∀ p ∈ v.clientRing c, (v.ids p).iBroadcast = true → v.Safe p 0))

instance decidableWriteFails (w : Proxy) (c : Nat) (script : List WritevRet) : Decidable (w.WriteFails c script) :=
  inferInstanceAs (Decidable (_ = some Ret.error))

instance decidableCloseOK (w : Proxy) : ∀ l, Decidable (w.CloseOK l)
  | .clientClose c => decidableLeaves w.flow c
  | .clientWrite c script => inferInstanceAs (Decidable (w.WriteFails c script → Leaves w.flow c))
  | .addServer _ | .reroute _ | .accept _ | .request .. | .growClient .. | .reply .. | .growBackend .. | .backendWrite ..
  | .backendClose .. | .statusTimer .. | .reconnectTimer .. | .tick _ => isTrue trivial

theorem init_noReuse : NoReuse ⟨init.flow, 0, 0, false⟩ := by
  have hzero : ∀ q, init.flow.inFlight q = 0 := fun _ => rfl
  refine ⟨fun q _ => ?_, fun q _ _ => .inl ?_, fun _ => rfl⟩
  · rw [FlowState.held_zero, hzero]
  · rw [FlowState.held_zero, hzero]
    exact ⟨Nat.zero_le _, fun h => nomatch h⟩

/-- The invariant of runs in which no client leaves a broadcast behind in several rings. -/
structure Clean (w : Proxy) : Prop where
  good : w.Good
  noReuse : NoReuse ⟨w.flow, 0, 0, false⟩

theorem step_clean (cfg : Config) (w : Proxy) (l : Label) (w' : Proxy) (h : w.exited = false → w.Clean) (hok : w.CloseOK l)
    (hs : w.step cfg l = some w') (hexit : w'.exited = false) : w'.Clean := by
  obtain ⟨hgood, hno⟩ := h (step_exited hs hexit)
  obtain ⟨q, hfol⟩ : ∃ q, Follows True False False ⟨w.flow, 0, 0, false⟩ w' q 0 false :=
    step_follows hgood (fun _ => hok) (fun hf => hf.elim) (fun hf => hf.elim) hs hexit 0
  exact ⟨hfol.good hgood.wf, NoReuse.forget (FlowSteps.noReuse hfol.steps hgood.wf hno) 0⟩

/-- In every state that the proxy reaches, an identity that has been given back is in no wait ring, and
the entries of the backends' rings stand for the requests for which they were queued. -/
theorem recycled_nowhere (cfg : Config) (ls : List Label) {w : Proxy} (hok : Meets (step cfg) CloseOK init ls)
    (hrun : run (step cfg) init ls = some w) (hexit : w.exited = false) :
    (∀ p, p ∈ w.st.identyBuffer.toList ∨ p ∈ w.st.deleted →
      (∀ c, p ∉ (w.clients c).ev.waitRing.toList) ∧ ∀ b, p ∉ (w.backends b).ev.waitRing.toList) ∧
    ∀ b, (w.backends b).tags = (w.backends b).ev.waitRing.toList.map w.serial := by
  have hclean : w.exited = false → w.Clean :=
    run_inv (fun w l w' => step_clean cfg w l w') ls init w (fun _ => ⟨init_good, init_noReuse⟩) hok hrun
  obtain ⟨hgood, hno⟩ := hclean hexit
  refine ⟨fun p hp => ?_, hno.tags⟩
  have hidle : w.flow.Idle p := hp.imp id .inl
  refine ⟨fun c hmem => ?_, fun b => hno.not_mem hgood.wf hidle⟩
  have hacc := (hgood.wf.client c p).mpr hmem
  rw [(hgood.wf.idle p hidle).1] at hacc
  cases hacc

/-- A proxy for plain servers, and some messages. -/
def plainConfig : Config := ⟨.twem, fun _ => 0⟩

def crlfMsg : Msg := ⟨[0x0d, 0x0a], by decide⟩

def okMsg : Msg := .ofString "+OK\r\n"

def errMsg : Msg := .ofString "-ERR\r\n"

theorem recycled_nowhere_one :
    let ls : List Label := [.addServer (.inProgress 0), .accept 0, .request 0 crlfMsg .reset, .clientClose 0,
      .reply 0 crlfMsg .plain .socketError]
    ∃ w, run (step plainConfig) init ls = some w ∧ w.exited = false ∧ w.st.identyBuffer.toList = [1] ∧
      (∀ p, p ∈ w.st.identyBuffer.toList ∨ p ∈ w.st.deleted →
        (∀ c, p ∉ (w.clients c).ev.waitRing.toList) ∧ ∀ b, p ∉ (w.backends b).ev.waitRing.toList) ∧
      ∀ b, (w.backends b).tags = (w.backends b).ev.waitRing.toList.map w.serial := by
  intro ls
  obtain ⟨w, hw, hview⟩ : ∃ w, run (step plainConfig) init ls = some w ∧
      (w.exited, w.st.identyBuffer.toList) = (false, [1]) := map_eq_some_iff.mp rfl
  obtain ⟨hexit, hbuf⟩ := Prod.mk.inj hview
  exact ⟨w, hw, hexit, hbuf, recycled_nowhere plainConfig ls (by decide) hw hexit⟩

/-- `_RESET_` goes to two backends and its client leaves. The reply of one backend recycles the identity
while it waits for the other one, and the next request shares it. -/
theorem broadcast_identity_reused :
    let ls : List Label := [.addServer (.inProgress 0), .addServer (.inProgress 1), .accept 0,
      .request 0 crlfMsg .reset, .clientClose 0, .reply 1 crlfMsg .plain .socketError]
    let ls' : List Label := [.accept 1, .request 1 crlfMsg (.forward (some 1))]
    (∃ w, run (step plainConfig) init ls = some w ∧ w.exited = false ∧ 1 ∈ w.st.identyBuffer.toList ∧
      1 ∈ (w.backends 0).ev.waitRing.toList) ∧
    ∃ w, run (step plainConfig) init (ls ++ ls') = some w ∧ w.exited = false ∧
      (w.backends 0).tags ≠ (w.backends 0).ev.waitRing.toList.map w.serial := by
  intro ls ls'
  constructor
  · obtain ⟨w, hw, hview⟩ : ∃ w, run (step plainConfig) init ls = some w ∧
        (w.exited, w.st.identyBuffer.toList, (w.backends 0).ev.waitRing.toList) = (false, [1], [1]) :=
      map_eq_some_iff.mp rfl
    simp only [Prod.mk.injEq] at hview
    obtain ⟨hexit, hbuf, hring⟩ := hview
    exact ⟨w, hw, hexit, by rw [hbuf]; simp, by rw [hring]; simp⟩
  · obtain ⟨w, hw, hview⟩ : ∃ w, run (step plainConfig) init (ls ++ ls') = some w ∧
        (w.exited, (w.backends 0).tags, (w.backends 0).ev.waitRing.toList.map w.serial) = (false, [1], [2]) :=
      map_eq_some_iff.mp rfl
    simp only [Prod.mk.injEq] at hview
    obtain ⟨hexit, htags, hserial⟩ := hview
    refine ⟨w, hw, hexit, ?_⟩
    rw [htags, hserial]
    simp

end Proxy

end RedisProxy
