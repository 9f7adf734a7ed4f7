import RedisProxy.Proofs.LedgerProofs
import RedisProxy.Proofs.IdentyReuseProofs

/-!
# Proofs: each block has one owner

The methods of the proxy, as the ledger sees them. A request is forwarded by lending the block of the
client's read cache to its identity; the cache gets another one afterwards. The invariant breaks only
where a request is refused after its identity has got the block.
-/

namespace RedisProxy

namespace Proxy

open Ledger

variable {w w' : Proxy} {hide : Option Cache} {p d : Nat}

/-! ## Writing the state -/

theorem owned_of_eq (h : Owned hide w.ledger) (he : w'.ledger = w.ledger) : Owned hide w'.ledger := by
  rw [he]
  exact h

theorem ledger_ext (hm : w'.st.mem = w.st.mem) (hk : ∀ k, w'.cacheData k = w.cacheData k)
    (hp : ∀ q, (w'.st.ids q).pReqData = (w.st.ids q).pReqData ∧ (w'.st.ids q).pData = (w.st.ids q).pData) :
    w'.ledger = w.ledger := by
  unfold ledger
  congr 1
  funext s
  cases s with
  | cache k => exact hk k
  | req q => exact (hp q).1
  | data q => exact (hp q).2

/-- A store in which one identity has changed. -/
theorem ledger_store (st : Store) (hm : st.mem = w.st.mem) (ho : ∀ q, q ≠ p → st.ids q = w.st.ids q) :
    (w.setStore st).ledger = (w.ledger.put (.req p) (st.ids p).pReqData).put (.data p) (st.ids p).pData := by
  refine Ledger.ext hm (funext fun s => ?_)
  cases s with
  | cache k =>
    cases k <;> rfl
  | req q =>
    rw [put_holds_ne _ (by simp)]
    by_cases hq : q = p
    · rw [hq, put_holds_self]
      rfl
    · rw [put_holds_ne _ (by simpa using hq)]
      exact congrArg MsgIdenty.pReqData (ho q hq)
  | data q =>
    by_cases hq : q = p
    · rw [hq, put_holds_self]
      rfl
    · rw [put_holds_ne _ (by simpa using hq), put_holds_ne _ (by simp)]
      exact congrArg MsgIdenty.pData (ho q hq)

theorem ledger_setId (w : Proxy) (p : Nat) (i : MsgIdenty) :
    (w.setStore (w.st.setId p i)).ledger = (w.ledger.put (.req p) i.pReqData).put (.data p) i.pData := by
  have h := ledger_store (p := p) (w.st.setId p i) rfl fun q hq => Store.setId_ids_ne _ hq _
  rw [Store.setId_ids_self] at h
  exact h

/-- A write to an identity that keeps its blocks. -/
theorem ledger_setId_eq {i : MsgIdenty} (hr : i.pReqData = (w.st.ids p).pReqData)
    (hd : i.pData = (w.st.ids p).pData) : (w.setStore (w.st.setId p i)).ledger = w.ledger := by
  refine ledger_ext rfl (fun k => by cases k <;> rfl) fun q => ?_
  show ((w.st.setId p i).ids q).pReqData = _ ∧ ((w.st.setId p i).ids q).pData = _
  rw [Store.setId_ids]
  split_ifs with hq
  · rw [hq]
    exact ⟨hr, hd⟩
  · exact ⟨rfl, rfl⟩

theorem ledger_setBackend (w : Proxy) (b : Nat) (x : Backend) :
    (w.setBackend b x).ledger = w.ledger.put (.cache (.redis b)) (some x.pCache) := by
  refine Ledger.ext rfl (funext fun s => ?_)
  by_cases hs : s = .cache (.redis b)
  · rw [hs, put_holds_self]
    show some (Function.update w.backends b x b).pCache = _
    rw [Function.update_self]
  · rw [put_holds_ne _ hs]
    cases s with
    | req q => rfl
    | data q => rfl
    | cache k =>
      cases k with
      | client c => rfl
      | redis b' =>
        have hb : b' ≠ b := by simpa using hs
        show some (Function.update w.backends b x b').pCache = some (w.backends b').pCache
        rw [Function.update_of_ne hb]

/-- A write to a backend that keeps its read cache. -/
theorem ledger_setBackend_eq {b : Nat} {x : Backend} (hx : x.pCache = (w.backends b).pCache) :
    (w.setBackend b x).ledger = w.ledger := by
  rw [ledger_setBackend, hx]
  exact w.ledger.put_self (.cache (.redis b))

theorem ledger_setClient (w : Proxy) (c : Nat) (x : ClientConn) :
    (w.setClient c x).ledger = w.ledger.put (.cache (.client c)) x.cacheData := by
  refine Ledger.ext rfl (funext fun s => ?_)
  by_cases hs : s = .cache (.client c)
  · rw [hs, put_holds_self]
    show (Function.update w.clients c x c).cacheData = _
    rw [Function.update_self]
  · rw [put_holds_ne _ hs]
    cases s with
    | req q => rfl
    | data q => rfl
    | cache k =>
      cases k with
      | redis b => rfl
      | client c' =>
        have hc : c' ≠ c := by simpa using hs
        show (Function.update w.clients c x c').cacheData = (w.clients c').cacheData
        rw [Function.update_of_ne hc]

/-- A write to a client that keeps its descriptor and its read cache. -/
theorem ledger_setClient_eq {c : Nat} {x : ClientConn} (hfd : x.ev.iFD = (w.clients c).ev.iFD)
    (hx : x.ev.pCache = (w.clients c).ev.pCache) : (w.setClient c x).ledger = w.ledger := by
  have hcache : x.cacheData = w.ledger.holds (.cache (.client c)) := by
    show _ = (w.clients c).cacheData
    unfold ClientConn.cacheData
    rw [hfd, hx]
  rw [ledger_setClient, hcache, put_self]

/-! ## Replies and `Release` -/

/-- A piece of code leaves the read caches alone. -/
structure Moved (hide : Option Cache) (l l' : Ledger) : Prop where
  owned : Owned hide l'
  cache : ∀ k, l'.holds (.cache k) = l.holds (.cache k)

/-- It also leaves the blocks alone that the code has in its hands. -/
structure Kept (hide : Option Cache) (l l' : Ledger) : Prop extends Moved hide l l' where
  loose : ∀ e, Loose hide l e → Loose hide l' e

section

variable {l l₁ l₂ : Ledger}

theorem Moved.trans (h : Moved hide l l₁) (h' : Moved hide l₁ l₂) : Moved hide l l₂ :=
  ⟨h'.owned, fun k => (h'.cache k).trans (h.cache k)⟩

theorem Kept.trans (h : Kept hide l l₁) (h' : Kept hide l₁ l₂) : Kept hide l l₂ :=
  ⟨h.toMoved.trans h'.toMoved, fun e he => h'.loose e (h.loose e he)⟩

theorem Kept.refl (h : Owned hide l) : Kept hide l l := ⟨⟨h, fun _ => rfl⟩, fun _ he => he⟩

/-- An identity forgets a block. -/
theorem Kept.drop (h : Owned hide l) {s : Slot} (hs : ∀ k, s ≠ .cache k) : Kept hide l (l.put s none) :=
  ⟨⟨h.put_none s, fun k => put_holds_ne _ (hs k).symm _⟩, fun _ he => he.put_none s⟩

/-- An identity takes a block. -/
theorem Moved.place (h : Owned hide l) (hd : Loose hide l d) {s : Slot} (hs : ∀ k, s ≠ .cache k) :
    Moved hide l (l.put s (some d)) :=
  ⟨h.place hd (.inl rfl), fun k => put_holds_ne _ (hs k).symm _⟩

end

/-- `DoReply`, as far as the ledger sees it. -/
theorem doReply_blocks (st : Store) (ev : AccessEvent) (pData : Msg) (p : Nat) :
    ∃ i, (AccessEvent.doReply st ev pData p).1 = st.setId p i ∧ i.pReqData = (st.ids p).pReqData ∧
      i.pData = (st.ids p).pData ∧ (AccessEvent.doReply st ev pData p).2.iFD = ev.iFD ∧
      (AccessEvent.doReply st ev pData p).2.pCache = ev.pCache := by
  by_cases hpart : AccessEvent.Partial (st.ids p)
  · rw [AccessEvent.doReply_partial pData hpart]
    exact ⟨_, rfl, rfl, rfl, rfl, rfl⟩
  · obtain ⟨m, hrep, -⟩ := @AccessEvent.doReply_complete st ev p pData hpart
    rw [hrep]
    exact ⟨_, rfl, rfl, rfl, rfl, rfl⟩

theorem replied_ledger {i : MsgIdenty} (pData : Msg) (c : Nat) (hi : i.pReqData = (w.st.ids p).pReqData) :
    ((w.setStore (AccessEvent.doReply (w.st.setId p i) (w.clients c).ev pData p).1).setClient c
      { w.clients c with ev := (AccessEvent.doReply (w.st.setId p i) (w.clients c).ev pData p).2 }).ledger =
        w.ledger.put (.data p) i.pData := by
  obtain ⟨j, hst, hr, hd, hfd, hcache⟩ := doReply_blocks (w.st.setId p i) (w.clients c).ev pData p
  rw [Store.setId_ids_self] at hr hd
  have htwice : (w.st.setId p i).setId p j = w.st.setId p j := by
    simp [Store.setId]
  rw [hst, ledger_setClient_eq hfd hcache, htwice, ledger_setId, hr, hd, hi]
  exact congrArg (fun l : Ledger => l.put (.data p) i.pData) (w.ledger.put_self (.req p))

theorem replyError_ledger (w : Proxy) (p : Nat) (iErr : RspErr) :
    (w.replyError p iErr).ledger = w.ledger ∨ (w.replyError p iErr).ledger = w.ledger.put (.data p) none := by
  unfold replyError
  split
  · rename_i c hc
    exact .inr (replied_ledger _ c rfl)
  · exact .inl rfl

theorem getReply_ledger (w : Proxy) (p d : Nat) :
    (w.getReply p d).ledger = w.ledger ∨ (w.getReply p d).ledger = w.ledger.put (.data p) (some d) := by
  unfold getReply
  split
  · rename_i c hc
    exact .inr (replied_ledger _ c rfl)
  · refine .inr ?_
    rw [ledger_setId]
    exact congrArg (fun l : Ledger => l.put (.data p) (some d)) (w.ledger.put_self (.req p))
  · exact .inl rfl

theorem replyError_kept (h : Owned hide w.ledger) (p : Nat) (iErr : RspErr) :
    Kept hide w.ledger (w.replyError p iErr).ledger := by
  rcases replyError_ledger w p iErr with heq | heq
  · rw [heq]
    exact .refl h
  · rw [heq]
    exact .drop h (by simp)

theorem getReply_moved (h : Owned hide w.ledger) (hd : Loose hide w.ledger d) (p : Nat) :
    Moved hide w.ledger (w.getReply p d).ledger := by
  rcases getReply_ledger w p d with heq | heq
  · rw [heq]
    exact (Kept.refl h).toMoved
  · rw [heq]
    exact .place h hd (by simp)

/-- The block of a slot is released, if there is one. -/
theorem releaseData_kept {l : Ledger} (h : Owned hide l) {s : Slot} (hs : ∀ k, s ≠ .cache k) (st : Store) {st' : Store}
    (hm : st.mem = l.mem) (hr : st.releaseData (l.holds s) = some st') :
    Kept hide l ((l.setMem st'.mem).put s none) := by
  cases hd : l.holds s with
  | none =>
    rw [hd] at hr
    cases hr
    rw [hm]
    exact .drop h hs
  | some d =>
    unfold Store.releaseData at hr
    rw [hd] at hr
    dsimp only at hr
    split at hr
    · cases hr
    · rename_i mem hmem
      cases hr
      rw [hm] at hmem
      have hhide : hide.map Slot.cache ≠ some s := by
        cases hide with
        | none => simp
        | some k => simpa using (hs k).symm
      obtain ⟨howned, hloose⟩ := h.free hhide hd hmem
      exact ⟨⟨howned, fun k => put_holds_ne _ (hs k).symm _⟩, hloose⟩

theorem recycle_kept (h : Owned hide w.ledger) {st : Store} (hr : w.st.recycle p = some st) :
    Kept hide w.ledger (w.setStore st).ledger := by
  unfold Store.recycle at hr
  cases h₁ : w.st.releaseData (w.st.ids p).pData with
  | none => simp [h₁] at hr
  | some st₁ =>
    have hk₁ : Kept hide w.ledger ((w.ledger.setMem st₁.mem).put (.data p) none) :=
      releaseData_kept h (by simp) w.st rfl h₁
    obtain ⟨mem₁, rfl⟩ := Store.releaseData_some h₁
    simp only [h₁] at hr
    cases h₂ : Store.releaseData { w.st with mem := mem₁ } (w.st.ids p).pReqData with
    | none => simp [h₂] at hr
    | some st₂ =>
      have hk₂ := releaseData_kept hk₁.owned (s := .req p) (by simp) { w.st with mem := mem₁ } rfl
        (by rw [put_holds_ne _ (by simp)]; exact h₂)
      obtain ⟨mem₂, rfl⟩ := Store.releaseData_some h₂
      simp only [h₂, Store.setId_ids_self] at hr
      -- whatever becomes of the identity, it points to no block
      have hfin : ∀ {st' : Store}, st'.mem = mem₂ → (∀ q, q ≠ p → st'.ids q = w.st.ids q) →
          (st'.ids p).pReqData = none → (st'.ids p).pData = none → Kept hide w.ledger (w.setStore st').ledger := by
        intro st' hmem hother hreq hdata
        have heq := ledger_store (w := w.setStore { w.st with mem := mem₂ }) (p := p) st' hmem hother
        rw [hreq, hdata] at heq
        have hswap : (w.setStore st').ledger =
            ((((w.ledger.setMem mem₁).put (.data p) none).setMem mem₂).put (.req p) none) := by
          refine heq.trans ?_
          unfold put setMem ledger setStore
          dsimp only
          rw [Function.update_comm (by simp)]
          rfl
        rw [hswap]
        exact hk₁.trans hk₂
      split_ifs at hr
      · cases hr
        exact hfin rfl (fun q hq => Store.setId_ids_ne _ hq _) (by simp) (by simp)
      · split at hr
        · cases hr
          refine hfin rfl (fun q hq => Store.setId_ids_ne _ hq _) ?_ ?_
          · show ((Store.setId _ p _).ids p).pReqData = none
            rw [Store.setId_ids_self]
          · show ((Store.setId _ p _).ids p).pData = none
            rw [Store.setId_ids_self]
        · cases hr
          refine hfin rfl (fun q hq => ?_) ?_ ?_
          · show ((Store.setId _ p _).ids q) = _
            rw [Store.setId_ids_ne _ hq, Store.setId_ids_ne _ hq]
          · show ((Store.setId _ p _).ids p).pReqData = none
            rw [Store.setId_ids_self]
            rfl
          · show ((Store.setId _ p _).ids p).pData = none
            rw [Store.setId_ids_self]
            rfl

theorem release_kept (h : Owned hide w.ledger) {side : Side} (hr : w.release side p = some w') :
    Kept hide w.ledger w'.ledger := by
  obtain ⟨st, hst, rfl⟩ := release_some hr
  have hlet : (w.setStore (w.st.setId p ((w.st.ids p).letGo side))).ledger = w.ledger := by
    cases side <;> exact ledger_setId_eq rfl rfl
  unfold Store.release at hst
  dsimp only at hst
  split_ifs at hst
  · have hk := recycle_kept (by rw [hlet]; exact h) hst
    rw [hlet] at hk
    exact hk
  · cases hst
    rw [hlet]
    exact .refl h

/-! ## `SendMsg` and `Get` -/

theorem setReqData_ledger (w : Proxy) (p : Nat) (x : Option Nat) :
    (w.setReqData p x).ledger = w.ledger.put (.req p) x := by
  unfold setReqData
  rw [ledger_setId]
  have hne : Slot.data p ≠ .req p := by simp
  have hdata : (w.st.ids p).pData = (w.ledger.put (.req p) x).holds (.data p) := (put_holds_ne w.ledger hne x).symm
  rw [hdata, put_self]

theorem queued_ledger (w : Proxy) (b d p : Nat) (ev : RedisEvent) :
    (w.queued b d p ev).ledger = w.ledger.put (.req p) (some d) := by
  have hid := ledger_setId_eq (p := p)
    (i := { (w.setReqData p (some d)).st.ids p with pRedisEvent := some b }) rfl rfl
  rw [← setReqData_ledger, ← hid]
  exact ledger_setBackend_eq rfl

/-- The block of a request: the one that its identity has, or one in the hands of the code. -/
def ReqBlock (hide : Option Cache) (w : Proxy) (p : Nat) (pData : Option Nat) : Prop :=
  pData = (w.st.ids p).pReqData ∨ ∃ d, pData = some d ∧ Loose hide w.ledger d

theorem ReqBlock.moved (h : Owned hide w.ledger) {pData : Option Nat} (hd : ReqBlock hide w p pData) :
    Moved hide w.ledger (w.ledger.put (.req p) pData) := by
  rcases hd with rfl | ⟨d, rfl, hd⟩
  · have hsame : w.ledger.put (.req p) (w.st.ids p).pReqData = w.ledger := w.ledger.put_self (.req p)
    rw [hsame]
    exact (Kept.refl h).toMoved
  · exact .place h hd (by simp)

theorem sendMsg_moved (h : Owned hide w.ledger) {b : Nat} {pData : Option Nat} (hd : ReqBlock hide w p pData)
    (hs : w.sendMsg b pData p = some w') : Moved hide w.ledger w'.ledger := by
  have hreq := hd.moved h
  rcases sendMsg_some hs with ⟨-, -, rfl⟩ | ⟨d, ev, rfl, -, -, rfl⟩
  · rw [← setReqData_ledger] at hreq
    exact hreq.trans (replyError_kept hreq.owned p .disconnect).toMoved
  · rw [queued_ledger]
    exact hreq

/-- `Get` hands out an identity without blocks. -/
theorem get_blocks {st st' : Store} (h : st.get = some (p, st')) :
    st'.mem = st.mem ∧ (st'.ids p).pReqData = none ∧ (st'.ids p).pData = none := by
  have hmem : st.takeIdenty.2.mem = st.mem := by
    unfold Store.takeIdenty
    split <;> rfl
  unfold Store.get at h
  dsimp only at h
  split_ifs at h with hnone
  cases h
  refine ⟨hmem, ?_, ?_⟩
  · rw [Store.setId_ids_self]
    exact hnone.2
  · rw [Store.setId_ids_self]
    exact hnone.1

/-- The identity that `Get` hands out, written as `j`. -/
theorem get_kept (h : Owned hide w.ledger) {st : Store} (hg : w.st.get = some (p, st)) {j : MsgIdenty}
    (hr : j.pReqData = (st.ids p).pReqData) (hd : j.pData = (st.ids p).pData) :
    Kept hide w.ledger (w.setStore (st.setId p j)).ledger := by
  obtain ⟨hmem, hreq, hdata⟩ := get_blocks hg
  have heq := ledger_store (p := p) (st.setId p j) hmem
    fun q hq => (Store.setId_ids_ne _ hq _).trans ((get_fetched hg).other q hq)
  rw [Store.setId_ids_self, hr, hd, hreq, hdata] at heq
  rw [heq]
  exact (Kept.drop h (by simp)).trans (.drop (h.put_none _) (by simp))

/-! ## Connections to the backends -/

section Backends

variable {cfg : Config} {b : Nat}

theorem getData_owned {sSize : Nat} (h : Owned hide w.ledger) (hg : w.getData sSize = some (d, w')) :
    Owned hide w'.ledger ∧ Loose hide w'.ledger d ∧ ∀ k, w'.ledger.holds (.cache k) = w.ledger.holds (.cache k) := by
  obtain ⟨mem, hmem, rfl⟩ := getData_some hg
  obtain ⟨howned, hloose, -⟩ := h.getData hmem
  exact ⟨howned, hloose, fun _ => rfl⟩

theorem ledger_same (hst : w'.st = w.st) (hc : w'.clients = w.clients) (hb : w'.backends = w.backends) :
    w'.ledger = w.ledger := by
  refine ledger_ext (by rw [hst]) (fun k => ?_) fun q => by rw [hst]; exact ⟨rfl, rfl⟩
  cases k with
  | client c => exact congrArg (fun f => (f c).cacheData) hc
  | redis b => exact congrArg (fun f => some (f b).pCache) hb

theorem connectSuccess_owned (h : Owned none w.ledger) (hs : w.connectSuccess cfg b = some w') :
    Owned none w'.ledger := by
  unfold connectSuccess at hs
  split_ifs at hs
  · obtain ⟨⟨d, w₁⟩, h₁, hs⟩ := Option.bind_eq_some_iff.mp hs
    obtain ⟨⟨p, st⟩, h₂, hs⟩ := Option.bind_eq_some_iff.mp hs
    obtain ⟨howned, hloose, -⟩ := getData_owned h h₁
    have hset : (w₁.setData d (selectCmd (cfg.iDB b))).ledger = w₁.ledger := ledger_same rfl rfl rfl
    have hget := get_kept (by rw [hset]; exact howned) h₂
      (j := { st.ids p with pAccessEvent := some (.redis b), isSelect := true }) rfl rfl
    have hnew : (((w₁.setData d (selectCmd (cfg.iDB b))).setStore
        (st.setId p { st.ids p with pAccessEvent := some (.redis b), isSelect := true })).newRequest p).ledger =
        ((w₁.setData d (selectCmd (cfg.iDB b))).setStore
          (st.setId p { st.ids p with pAccessEvent := some (.redis b), isSelect := true })).ledger :=
      ledger_same rfl rfl rfl
    refine (sendMsg_moved (by rw [hnew]; exact hget.owned) (.inr ⟨d, rfl, ?_⟩) hs).owned
    exact hget.loose d hloose
  · cases hs
    exact h

theorem connectResult_owned (h : Owned none w.ledger) {bConnected : Bool} {iRet : Ret}
    (hs : w.connectResult cfg b bConnected = some (iRet, w')) : Owned none w'.ledger := by
  obtain ⟨⟨r, ev⟩, -, hs⟩ := Option.bind_eq_some_iff.mp hs
  have hset : (w.setEvent b ev).ledger = w.ledger := ledger_setBackend_eq rfl
  dsimp only at hs
  split_ifs at hs
  · obtain ⟨w₁, h₂, hs⟩ := Option.bind_eq_some_iff.mp hs
    cases hs
    exact connectSuccess_owned (by rw [hset]; exact h) h₂
  · cases hs
    rw [hset]
    exact h

theorem drain_owned (b : Nat) : ∀ (n : Nat) (w w' : Proxy), Owned none w.ledger → drain b n w = some w' →
    Owned none w'.ledger := by
  intro n
  induction n with
  | zero =>
    intro w w' h hd
    cases hd
    exact h
  | succ n ih =>
    intro w w' h hd
    unfold drain at hd
    cases hp : (w.backends b).ev.popIdenty with
    | none =>
      rw [hp] at hd
      cases hd
      exact h
    | some r =>
      obtain ⟨p, ev⟩ := r
      rw [hp] at hd
      obtain ⟨w₂, h₂, hd⟩ := Option.bind_eq_some_iff.mp hd
      have hset : (w.setBackend b { w.backends b with ev, tags := (w.backends b).tags.tail }).ledger = w.ledger :=
        ledger_setBackend_eq rfl
      have herr := replyError_kept
        (by rw [hset]; exact h) p .disconnect
      exact ih w₂ w' (release_kept herr.owned h₂).owned hd

theorem redisClose_owned (h : Owned none w.ledger) (hs : w.redisClose b = some w') : Owned none w'.ledger := by
  unfold redisClose at hs
  dsimp only at hs
  split_ifs at hs
  · cases hs
    exact h
  · refine drain_owned b _ _ w' ?_ hs
    exact owned_of_eq h (ledger_setBackend_eq rfl)

theorem startEpoch_ledger (w : Proxy) (b : Nat) (ev : RedisEvent) : (w.startEpoch b ev).ledger = w.ledger :=
  ledger_setBackend_eq rfl

theorem reConnectLater_ledger (w : Proxy) (b : Nat) (pMeta : Option Nat) :
    (w.reConnectLater b pMeta).ledger = w.ledger := by
  cases pMeta <;> exact ledger_same rfl rfl rfl

theorem reConnectRetry_ledger (w : Proxy) (b tmpMS : Nat) (pMeta : Option Nat) :
    (w.reConnectRetry b tmpMS pMeta).ledger = w.ledger := by
  cases pMeta <;> exact ledger_same rfl rfl rfl

theorem reConnectDone_ledger (w : Proxy) (pMeta : Option Nat) : (w.reConnectDone pMeta).ledger = w.ledger := by
  cases pMeta <;> exact ledger_same rfl rfl rfl

theorem reConnectSoon_ledger (hs : w.reConnectSoon b = some w') : w'.ledger = w.ledger := by
  unfold reConnectSoon at hs
  split_ifs at hs
  cases hs
  exact reConnectLater_ledger w b none

theorem connectFailed_owned (h : Owned none w.ledger) (hs : w.connectFailed cfg b = some w') : Owned none w'.ledger := by
  obtain ⟨w₁, h₁, hs⟩ := Option.bind_eq_some_iff.mp hs
  have howned := redisClose_owned h h₁
  cases hm : cfg.mode with
  | twem =>
    rw [hm] at hs
    obtain ⟨w₂, h₂, hs⟩ := Option.bind_eq_some_iff.mp hs
    rw [reConnectSoon_ledger hs, reConnectSoon_ledger h₂]
    exact howned
  | cluster =>
    rw [hm] at hs
    cases hs
    exact howned
  | tiny =>
    rw [hm] at hs
    cases hs
    exact owned_of_eq howned (ledger_same rfl rfl rfl)

theorem reConnect_owned (h : Owned none w.ledger) {pMeta : Option Nat} {conn : Connect}
    (hs : w.reConnect cfg b pMeta conn = some w') : Owned none w'.ledger := by
  unfold reConnect at hs
  dsimp only at hs
  split_ifs at hs
  · cases hs
    rw [reConnectLater_ledger]
    exact h
  · have hset : ∀ ev, (w.setBackend b { w.backends b with
        ev, tags := [], reInits := (w.backends b).reInits ++ [(w.backends b).ev.status] }).ledger = w.ledger :=
      fun ev => ledger_setBackend_eq rfl
    cases conn with
    | socketError =>
      cases hs
      rw [reConnectRetry_ledger, hset]
      exact h
    | inProgress n =>
      cases hs
      rw [reConnectDone_ledger, startEpoch_ledger, hset]
      exact h
    | connected n =>
      cases hs
      rw [reConnectDone_ledger, startEpoch_ledger, hset]
      exact h
    | refused n =>
      obtain ⟨w₂, h₂, hs⟩ := Option.bind_eq_some_iff.mp hs
      cases hs
      rw [reConnectRetry_ledger]
      refine connectFailed_owned ?_ h₂
      rw [startEpoch_ledger, hset]
      exact h

theorem closeReConnect_owned (h : Owned none w.ledger) {conn : Connect}
    (hs : ((w.redisClose b).bind fun w => w.reConnect cfg b none conn) = some w') : Owned none w'.ledger := by
  obtain ⟨w₁, h₁, hs⟩ := Option.bind_eq_some_iff.mp hs
  exact reConnect_owned (redisClose_owned h h₁) hs

theorem backendClose_owned (h : Owned none w.ledger) {conn : Connect} (hs : w.backendClose cfg b conn = some w') :
    Owned none w'.ledger := by
  unfold backendClose at hs
  cases hm : cfg.mode with
  | twem =>
    rw [hm] at hs
    dsimp only at hs
    split_ifs at hs
    · cases hs
      exact h
    · exact closeReConnect_owned h hs
  | cluster =>
    rw [hm] at hs
    exact redisClose_owned h hs
  | tiny =>
    rw [hm] at hs
    dsimp only at hs
    split_ifs at hs
    · obtain ⟨w₁, h₁, hs⟩ := Option.bind_eq_some_iff.mp hs
      cases hs
      exact owned_of_eq (redisClose_owned h h₁) (ledger_same rfl rfl rfl)
    · cases hs
      exact owned_of_eq h (ledger_setBackend_eq rfl)
    · refine closeReConnect_owned ?_ hs
      exact owned_of_eq h (ledger_setBackend_eq rfl)

theorem addServer_owned (h : Owned none w.ledger) {conn : Connect} {bOk : Bool}
    (hs : w.addServer cfg conn = some (bOk, w')) : Owned none w'.ledger := by
  unfold addServer at hs
  split_ifs at hs
  · cases hs
    exact owned_of_eq h (ledger_same rfl rfl rfl)
  · obtain ⟨⟨pCache, w₁⟩, h₁, hs⟩ := Option.bind_eq_some_iff.mp hs
    obtain ⟨howned, hloose, -⟩ := getData_owned h h₁
    set x : Backend := ⟨.init, pCache, 0, ⟨[], []⟩, [], [], [], []⟩
    set w₂ : Proxy := { w₁.setBackend w.nBackends x with
      nBackends := w.nBackends + 1
      vServers := w₁.vServers ++ [some w.nBackends] }
    have h₂ : Owned none w₂.ledger := by
      refine owned_of_eq (w := w₁.setBackend w.nBackends x) ?_ (ledger_same rfl rfl rfl)
      rw [ledger_setBackend]
      exact howned.place hloose (.inl rfl)
    cases conn with
    | inProgress n =>
      cases hs
      rw [startEpoch_ledger]
      exact h₂
    | connected n =>
      cases hs
      rw [startEpoch_ledger]
      exact h₂
    | socketError =>
      cases hs
      exact owned_of_eq h₂ (ledger_same rfl rfl rfl)
    | refused n =>
      obtain ⟨w₃, h₃, hs⟩ := Option.bind_eq_some_iff.mp hs
      cases hs
      refine owned_of_eq (redisClose_owned ?_ h₃) (ledger_same rfl rfl rfl)
      exact owned_of_eq h₂ (startEpoch_ledger _ _ _)

end Backends

/-! ## Requests -/

section Requests

variable {c : Nat}

theorem ledger_setMem (w : Proxy) (mem : MemPool) : (w.setStore { w.st with mem }).ledger = w.ledger.setMem mem := by
  refine Ledger.ext rfl (funext fun s => ?_)
  cases s with
  | cache k => cases k <;> rfl
  | req q => rfl
  | data q => rfl

/-- The client is open, with the block `d` in its read cache. -/
theorem cache_of_open (hfd : (w.clients c).ev.iFD ≠ 0) :
    w.ledger.holds (.cache (.client c)) = some (w.clients c).ev.pCache := if_neg hfd

theorem open_of_cache (h : w.ledger.holds (.cache (.client c)) = some d) :
    (w.clients c).ev.iFD ≠ 0 ∧ (w.clients c).ev.pCache = d := by
  have hc : (w.clients c).cacheData = some d := h
  unfold ClientConn.cacheData at hc
  split_ifs at hc with hfd
  exact ⟨hfd, Option.some.inj hc⟩

/-- A write to the read cache of an open client. -/
theorem ledger_resetClient (hfd : (w.clients c).ev.iFD ≠ 0) (mem : MemPool) (pCache : Nat) :
    ((w.setStore { w.st with mem }).setClient c { w.clients c with ev := { (w.clients c).ev with pCache } }).ledger =
      (w.ledger.setMem mem).put (.cache (.client c)) (some pCache) := by
  rw [ledger_setClient, ledger_setMem]
  exact congrArg _ (if_neg hfd)

theorem resetClientCache_owned (h : Owned none w.ledger) (hd : w.ledger.holds (.cache (.client c)) = some d)
    {sSize : Nat} {bRelease : Bool} (hs : w.resetClientCache c sSize bRelease = some w') : Owned none w'.ledger := by
  obtain ⟨hfd, rfl⟩ := open_of_cache hd
  obtain ⟨pCache, mem, mem', hget, hrel, rfl⟩ := resetClientCache_some hs
  rw [ledger_resetClient hfd]
  exact h.reset hd hget hrel

/-- The block of the read cache has been handed over. -/
theorem clientStartNext_owned (h : Owned (some (.client c)) w.ledger)
    (hd : w.ledger.holds (.cache (.client c)) = some d) (hs : w.clientStartNext c false = some w') :
    Owned none w'.ledger := by
  obtain ⟨hfd, rfl⟩ := open_of_cache hd
  obtain ⟨pCache, mem, mem', hget, hrel, rfl⟩ := resetClientCache_some hs
  cases hrel
  rw [ledger_resetClient hfd]
  exact h.replace hget

theorem broadcastLoop_moved : ∀ (l : List (Option Nat)) (w w' : Proxy), Owned hide w.ledger →
    broadcastLoop p l w = some w' → Moved hide w.ledger w'.ledger := by
  intro l
  induction l with
  | nil =>
    intro w w' h hs
    cases hs
    exact (Kept.refl h).toMoved
  | cons pServer l ih =>
    intro w w' h hs
    obtain ⟨w₁, hs', hw₁⟩ := broadcastLoop_cons hs
    have hm : Moved hide w.ledger w₁.ledger := by
      rcases hw₁ with ⟨-, rfl⟩ | ⟨b, d, ev, -, -, rfl, -, rfl⟩
      · have hskip : (w.skipped p).ledger = w.ledger := ledger_setId_eq rfl rfl
        rw [hskip]
        exact (Kept.refl h).toMoved
      · rw [queued_ledger]
        exact .place h (.inl h.static.1) (by simp)
    exact hm.trans (ih w₁ w' hm.owned hs')

theorem broadcast_moved (h : Owned hide w.ledger) (hs : w.broadcast p = some w') :
    Moved hide w.ledger w'.ledger := by
  obtain ⟨w₁, h₁, hs⟩ := Option.bind_eq_some_iff.mp hs
  have hset : (w.setStore (w.st.setId p { w.st.ids p with iNeedWaitNum := w.vServers.length })).ledger = w.ledger :=
    ledger_setId_eq rfl rfl
  have hloop := broadcastLoop_moved _ _ w₁ (by rw [hset]; exact h) h₁
  rw [hset] at hloop
  split_ifs at hs
  · cases hs
    exact hloop.trans (replyError_kept hloop.owned p .commErr).toMoved
  · cases hs
    exact hloop

/-- A request that is forwarded reaches a backend with a descriptor. -/
def Reaches (w : Proxy) : Request → Prop
  | .forward route => w.routed route ≠ none
  | _ => True

theorem processRequest_owned (h : Owned none w.ledger) (hd : w.ledger.holds (.cache (.client c)) = some d)
    {req : Request} (hreach : w.Reaches req) (hs : w.processRequest c p req = some w') : Owned none w'.ledger := by
  cases req with
  | answer iErr =>
    have herr := replyError_kept h p iErr
    exact resetClientCache_owned herr.owned ((herr.cache _).trans hd) hs
  | clusterSlots rsp =>
    obtain ⟨⟨e, w₁⟩, h₁, hs⟩ := Option.bind_eq_some_iff.mp hs
    obtain ⟨howned, hloose, hcache⟩ := getData_owned h h₁
    have hset : (w₁.setData e rsp).ledger = w₁.ledger := ledger_same rfl rfl rfl
    have hrep := getReply_moved (by rw [hset]; exact howned) (by rw [hset]; exact hloose) p
    refine resetClientCache_owned (d := d) hrep.owned ?_ hs
    rw [hrep.cache, hset, hcache]
    exact hd
  | forward route =>
    obtain ⟨hfd, hpc⟩ := open_of_cache hd
    obtain ⟨hlend, hloose⟩ := h.lend hd
    set i : MsgIdenty := { w.st.ids p with iBroadcast := false, pReqData := some (w.clients c).ev.pCache } with hi
    set w₁ := w.setStore (w.st.setId p i) with hw₁
    have hled : w₁.ledger = w.ledger.put (.req p) (some d) := by
      rw [← hpc, ← setReqData_ledger]
      have hid := ledger_setId_eq (w := w.setReqData p (some (w.clients c).ev.pCache)) (p := p) (i := i) ?_ ?_
      · rw [← hid, hw₁]
        refine congrArg ledger ?_
        simp [setReqData, setStore, Store.setId]
      · simp [setReqData, setStore, hi]
      · simp [setReqData, setStore, hi]
    have hmoved : Moved (some (.client c)) w.ledger w₁.ledger := by
      rw [hled]
      exact .place hlend hloose (by simp)
    dsimp only [processRequest] at hs
    cases hr : w₁.routed route with
    | none => exact absurd hr hreach
    | some b =>
      rw [hr] at hs
      obtain ⟨w₂, h₂, hs⟩ := Option.bind_eq_some_iff.mp hs
      have hblock : ReqBlock (some (.client c)) w₁ p (some (w.clients c).ev.pCache) :=
        .inl (by simp [hw₁, setStore, hi])
      have hsend := sendMsg_moved hmoved.owned hblock h₂
      refine clientStartNext_owned (d := d) hsend.owned ?_ hs
      rw [hsend.cache, hmoved.cache]
      exact hd
  | reset =>
    obtain ⟨w₁, h₁, hs⟩ := Option.bind_eq_some_iff.mp hs
    have hset : Moved none w.ledger (w.setStore (w.st.setId p
        { w.st.ids p with iBroadcast := true, pReqData := some MemPool.flushdbCmd })).ledger := by
      rw [ledger_setId]
      have hreq : Moved none w.ledger (w.ledger.put (.req p) (some MemPool.flushdbCmd)) :=
        .place h (.inl h.static.1) (by simp)
      have hne : Slot.data p ≠ .req p := by simp
      have hdata : (w.st.ids p).pData = (w.ledger.put (.req p) (some MemPool.flushdbCmd)).holds (.data p) :=
        (put_holds_ne w.ledger hne _).symm
      dsimp only
      rw [hdata, put_self]
      exact hreq
    have hbc := broadcast_moved hset.owned h₁
    exact resetClientCache_owned hbc.owned ((hbc.cache _).trans ((hset.cache _).trans hd)) hs

theorem processMsg_owned (h : Owned none w.ledger) (hfd : (w.clients c).ev.iFD ≠ 0) {m : Msg} {req : Request}
    (hreach : (w.clients c).ev.waitRing.poolFull = false → w.Reaches req) (hs : w.processMsg c m req = some w') :
    Owned none w'.ledger := by
  unfold processMsg at hs
  dsimp only at hs
  split_ifs at hs with hfull
  · cases hs
    exact h
  · obtain ⟨⟨p, st, ev⟩, h₁, hs⟩ := Option.bind_eq_some_iff.mp hs
    have hset : (w.setData (w.clients c).ev.pCache m).ledger = w.ledger := ledger_same rfl rfl rfl
    unfold AccessEvent.addIdenty at h₁
    split at h₁
    · cases h₁
    · rename_i q st₁ hget
      dsimp only at h₁
      split_ifs at h₁
      split at h₁
      · cases h₁
      · rename_i ring hadd
        simp only [Option.some.injEq, Prod.mk.injEq] at h₁
        obtain ⟨rfl, rfl, rfl⟩ := h₁
        set i : MsgIdenty := { st₁.ids q with
          pAccessEvent := some (.client c)
          ulIndex := (w.clients c).ev.ulMsgIdenty
          iWaitRsp := true }
        have hkept := get_kept (by rw [hset]; exact h) hget (j := i) rfl rfl
        set w₁ := (w.setData (w.clients c).ev.pCache m).setStore (st₁.setId q i)
        have hsame : (((w₁.setClient c { w.clients c with ev := { (w.clients c).ev with
            waitRing := ring
            ulMsgIdenty := ((w.clients c).ev.ulMsgIdenty + 1) % uint64Size } }).newRequest q)).ledger = w₁.ledger := by
          refine (ledger_same rfl rfl rfl).trans (ledger_setClient_eq (w := w₁) (c := c) rfl rfl)
        refine processRequest_owned (d := (w.clients c).ev.pCache) ?_ ?_ ?_ hs
        · rw [hsame]
          exact hkept.owned
        · rw [hsame, hkept.cache]
          exact cache_of_open hfd
        · exact hreach (Bool.eq_false_iff.mpr hfull)

theorem accept_owned (h : Owned none w.ledger) {iFD : Nat} (hs : w.accept iFD = some w') : Owned none w'.ledger := by
  obtain ⟨⟨pCache, w₁⟩, h₁, hs⟩ := Option.bind_eq_some_iff.mp hs
  cases hs
  obtain ⟨howned, hloose, -⟩ := getData_owned h h₁
  refine owned_of_eq (w := w₁.setClient w₁.nClients ⟨.init (iFD + 1) pCache, ⟨[], []⟩⟩) ?_ (ledger_same rfl rfl rfl)
  rw [ledger_setClient]
  exact howned.place hloose (.inl rfl)

/-! ## Clients that leave -/

theorem drainClient_kept (c : Nat) : ∀ (n : Nat) (w w' : Proxy), Owned hide w.ledger → drainClient c n w = some w' →
    Kept hide w.ledger w'.ledger := by
  intro n
  induction n with
  | zero =>
    intro w w' h hs
    cases hs
    exact .refl h
  | succ n ih =>
    intro w w' h hs
    unfold drainClient at hs
    split at hs
    · cases hs
      exact .refl h
    · rename_i q ring hpop
      obtain ⟨w₁, h₁, hs⟩ := Option.bind_eq_some_iff.mp hs
      have hset : (w.setClient c { w.clients c with ev := { (w.clients c).ev with waitRing := ring } }).ledger = w.ledger :=
        ledger_setClient_eq rfl rfl
      have hrel := release_kept
        (by rw [hset]; exact h) h₁
      rw [hset] at hrel
      exact hrel.trans (ih w₁ w' hrel.owned hs)

theorem clientClose_owned (h : Owned none w.ledger) (hs : w.clientClose c = some w') : Owned none w'.ledger := by
  unfold clientClose at hs
  dsimp only at hs
  split_ifs at hs with hfd
  · cases hs
    exact h
  · obtain ⟨-, hloose⟩ := h.lend (cache_of_open hfd)
    set w₀ := w.setClient c { w.clients c with ev := { (w.clients c).ev with iFD := 0, mask := .none } } with hw₀
    have hclosed : w₀.ledger = w.ledger.put (.cache (.client c)) none := by
      rw [hw₀, ledger_setClient]
      rfl
    have h₀ : Owned none w₀.ledger := by
      rw [hclosed]
      exact h.put_none _
    have hloose₀ : Loose none w₀.ledger (w.clients c).ev.pCache := by
      rw [hclosed]
      refine hloose.imp id fun hl => ⟨hl.1, fun s hs' => hl.2 s ?_⟩
      have hne : s ≠ .cache (.client c) := by
        rintro rfl
        rw [own_eq_some, put_holds_self] at hs'
        exact absurd hs'.2.1 (by simp)
      rw [own_eq_some, put_holds_ne _ hne] at hs'
      exact own_eq_some.mpr ⟨by simpa using hne.symm, hs'.2⟩
    obtain ⟨w₁, h₁, hs⟩ := Option.bind_eq_some_iff.mp hs
    have hdrain := drainClient_kept c _ w₀ w₁ h₀ h₁
    obtain ⟨mem, hmem, rfl⟩ := releaseData_some hs
    exact (hdrain.owned.release (hdrain.loose _ hloose₀) hmem).1

theorem clientWrite_owned (h : Owned none w.ledger) (hgood : w.Good) {script : List WritevRet}
    (hs : w.clientWrite c script = some w') : Owned none w'.ledger := by
  obtain ⟨⟨iRet, y⟩, h₁, hs⟩ := Option.bind_eq_some_iff.mp hs
  obtain ⟨base, hqueue⟩ := hgood.wf.queue c
  have hpre : ∀ (st : Store) (q : Nat) (ring : WaitRing maxWaitRingLen Nat), Owned none (w.setStore st).ledger →
      Owned none (w.setStore (st.setId q { st.ids q with iPreGood := true })).ledger :=
    fun st q _ h₀ => owned_of_eq h₀ (ledger_setId_eq (w := w.setStore st) rfl rfl)
  have hpop : AccessEvent.PopClosed fun st _ => Owned none (w.setStore st).ledger := by
    intro st st' ring ring' q h₀ _ _ _ _ hrel
    have hrelease : (w.setStore st).release .access q = some (w.setStore st') := by
      unfold Proxy.release
      show (st.release .access q).bind _ = _
      rw [hrel]
      rfl
    exact (release_kept h₀ hrelease).owned
  have hq : AccessEvent.Queue w.st (w.clients c).ev base := ⟨hqueue.start, hqueue.total, hqueue.next, hqueue.idx⟩
  have hstart : Owned none (w.setStore w.st).ledger := h
  obtain ⟨base', hwritten⟩ := AccessEvent.write_inv (AccessEvent.stable_queue hpre hpop)
    ⟨hq, hstart⟩ h₁
  have howned : Owned none ((w.setStore y.st).setClient c ⟨y.ev, y.sock⟩).ledger :=
    owned_of_eq hwritten.inv.2 (ledger_setClient_eq hwritten.frame.fd hwritten.frame.cache)
  dsimp only at hs
  split_ifs at hs
  · exact clientClose_owned howned hs
  · cases hs
    exact howned

end Requests

/-! ## Replies -/

section Replies

variable {cfg : Config} {b : Nat}

theorem resetBackendCache_owned (h : Owned none w.ledger) {sSize : Nat} {bRelease : Bool}
    (hs : w.resetBackendCache b sSize bRelease = some w') : Owned none w'.ledger := by
  obtain ⟨pCache, mem, mem', hget, hrel, rfl⟩ := resetBackendCache_some hs
  rw [ledger_setBackend, ledger_setMem]
  exact h.reset rfl hget hrel

theorem backendStartNext_owned (h : Owned (some (.redis b)) w.ledger) (hs : w.backendStartNext b false = some w') :
    Owned none w'.ledger := by
  obtain ⟨pCache, mem, mem', hget, hrel, rfl⟩ := resetBackendCache_some hs
  cases hrel
  rw [ledger_setBackend, ledger_setMem]
  exact h.replace hget

theorem redirectTo_owned (h : Owned none w.ledger) {bAsking : Bool} (hs : w.redirectTo b p bAsking = some w') :
    Owned none w'.ledger := by
  unfold redirectTo at hs
  split_ifs at hs
  · obtain ⟨w₁, h₁, hs⟩ := Option.bind_eq_some_iff.mp hs
    have hask := sendMsg_moved h (.inr ⟨_, rfl, .inl h.static.2⟩) h₁
    exact (sendMsg_moved hask.owned (.inl rfl) hs).owned
  · exact (sendMsg_moved h (.inl rfl) hs).owned

theorem slotRedirect_owned (h : Owned none w.ledger) {bAsking : Bool} {target : Target}
    (hs : w.slotRedirect cfg p bAsking target = some w') : Owned none w'.ledger := by
  cases target with
  | invalid =>
    cases hs
    exact (replyError_kept h p .commErr).owned
  | known b => exact redirectTo_owned h hs
  | unknown conn =>
    obtain ⟨⟨bOk, w₁⟩, h₁, hs⟩ := Option.bind_eq_some_iff.mp hs
    have hadd := addServer_owned h h₁
    dsimp only at hs
    split_ifs at hs
    · exact redirectTo_owned hadd hs
    · cases hs
      exact (replyError_kept hadd p .commErr).owned

theorem slotPending_owned (h : Owned none w.ledger) {rsp : Reply} (hs : w.slotPending cfg p rsp = some w') :
    Owned none w'.ledger := by
  cases rsp with
  | plain =>
    cases hs
    exact h
  | moved target =>
    dsimp only [slotPending] at hs
    split_ifs at hs
    · cases hs
      refine (replyError_kept ?_ p .moved).owned
      exact owned_of_eq h (ledger_setId_eq rfl rfl)
    · refine slotRedirect_owned ?_ hs
      exact owned_of_eq h (ledger_setId_eq rfl rfl)
  | ask target =>
    refine slotRedirect_owned ?_ hs
    exact owned_of_eq h (ledger_setId_eq rfl rfl)

theorem deliver_owned (h : Owned none w.ledger) {rsp : Reply} (hs : w.deliver cfg b p rsp = some w') :
    Owned none w'.ledger := by
  unfold deliver at hs
  split_ifs at hs
  · obtain ⟨w₁, h₁, hs⟩ := Option.bind_eq_some_iff.mp hs
    exact resetBackendCache_owned (slotPending_owned h h₁) hs
  · obtain ⟨w₁, h₁, hs⟩ := Option.bind_eq_some_iff.mp hs
    obtain ⟨hlend, hloose⟩ := h.lend (k := .redis b) rfl
    have hrep := getReply_moved hlend hloose p
    exact backendStartNext_owned (release_kept hrep.owned h₁).owned hs

theorem resultCheck_ledger {m : Msg} (hs : w.resultCheck cfg b p m = some w') : w'.ledger = w.ledger := by
  rcases resultCheck_some hs with ⟨rfl, -⟩ | ⟨-, -, -, bListenFlag, rfl⟩
  · rfl
  · have hsame : ({ w.setBackend b { w.backends b with lConnectSuccessTimes := 1 } with bListenFlag } : Proxy).ledger =
        (w.setBackend b { w.backends b with lConnectSuccessTimes := 1 }).ledger := ledger_same rfl rfl rfl
    rw [hsame]
    exact ledger_setBackend_eq rfl

theorem processReply_owned (h : Owned none w.ledger) {m : Msg} {rsp : Reply} {conn : Connect}
    (hs : w.processReply cfg b m rsp conn = some w') : Owned none w'.ledger := by
  obtain ⟨⟨p, ev⟩, -, hs⟩ := Option.bind_eq_some_iff.mp hs
  dsimp only at hs
  have hset : ((w.setBackend b { w.backends b with ev, tags := (w.backends b).tags.tail }).setData
      (w.backends b).pCache m).ledger = w.ledger :=
    (ledger_same rfl rfl rfl).trans
      (ledger_setBackend_eq (b := b) (x := { w.backends b with ev, tags := (w.backends b).tags.tail }) rfl)
  split at hs
  · exact backendClose_owned (owned_of_eq h hset) hs
  · rename_i w₁ hcheck
    exact deliver_owned (owned_of_eq h ((resultCheck_ledger hcheck).trans hset)) hs

theorem statusTimer_owned (h : Owned none w.ledger) {bConnected : Bool} {conn : Connect}
    (hs : w.statusTimer cfg b bConnected conn = some w') : Owned none w'.ledger := by
  obtain ⟨⟨iRet, w₁⟩, h₁, hs⟩ := Option.bind_eq_some_iff.mp hs
  have hres := connectResult_owned h h₁
  dsimp only at hs
  split_ifs at hs
  · exact backendClose_owned hres hs
  · cases hs
    exact hres

theorem backendWrite_owned (h : Owned none w.ledger) {bConnected : Bool} {script : List WritevRet} {conn : Connect}
    (hs : w.backendWrite cfg b bConnected script conn = some w') : Owned none w'.ledger := by
  obtain ⟨iRet, w₁, hfirst, hrest⟩ := backendWrite_some hs
  have h₁ : Owned none w₁.ledger := by
    rcases hfirst with ⟨-, hres⟩ | ⟨-, -, rfl⟩
    · exact connectResult_owned h hres
    · exact h
  rcases hrest with ⟨-, hclose⟩ | ⟨-, iRet', ev, sock, -, hend⟩
  · exact backendClose_owned h₁ hclose
  · rcases hend with ⟨-, hclose⟩ | ⟨-, rfl⟩
    · refine backendClose_owned ?_ hclose
      exact owned_of_eq h₁ (ledger_setBackend_eq rfl)
    · exact owned_of_eq h₁ (ledger_setBackend_eq rfl)

theorem reconnectTimer_owned (h : Owned none w.ledger) {t : Timer} {conn : Connect}
    (hs : w.reconnectTimer cfg t conn = some w') : Owned none w'.ledger := by
  unfold reconnectTimer at hs
  split_ifs at hs
  · cases hs
    exact h
  · obtain ⟨w₁, h₁, hs⟩ := Option.bind_eq_some_iff.mp hs
    cases hs
    exact owned_of_eq (reConnect_owned h h₁) (ledger_same rfl rfl rfl)

end Replies

/-! ## Runs -/

/-- A request that an open client sends and that is to be forwarded finds a backend with a descriptor. -/
def RouteOK (w : Proxy) : Label → Prop
  | .request c _ req =>
    (w.clients c).ev.iFD ≠ 0 → (w.clients c).ev.waitRing.poolFull = false → w.Reaches req
  | _ => True

theorem step_owned {cfg : Config} {l : Label} (h : Owned none w.ledger) (hgood : w.exited = false → w.Good)
    (hroute : w.RouteOK l) (hs : w.step cfg l = some w') : Owned none w'.ledger := by
  have hid : some w = some w' → Owned none w'.ledger := by
    intro heq
    obtain rfl := Option.some.inj heq
    exact h
  unfold step at hs
  split_ifs at hs with hex
  · exact hid hs
  cases l with
  | addServer conn =>
    obtain ⟨⟨bOk, w₁⟩, h₁, rfl⟩ := Option.map_eq_some_iff.mp hs
    exact addServer_owned h h₁
  | reroute vServers =>
    dsimp only at hs
    split_ifs at hs
    · cases hs
      exact owned_of_eq h (ledger_same rfl rfl rfl)
    · exact hid hs
  | accept iFD => exact accept_owned h hs
  | request c m req =>
    dsimp only at hs
    split_ifs at hs with hfd
    · exact hid hs
    · exact processMsg_owned h hfd (hroute hfd) hs
  | growClient c sSize =>
    dsimp only at hs
    split_ifs at hs with hfd
    · exact hid hs
    · exact resetClientCache_owned h (cache_of_open hfd) hs
  | clientWrite c script =>
    dsimp only at hs
    split_ifs at hs
    · exact hid hs
    · exact clientWrite_owned h (hgood (Bool.eq_false_iff.mpr hex)) hs
  | clientClose c => exact clientClose_owned h hs
  | reply b m rsp conn =>
    dsimp only at hs
    split_ifs at hs
    · exact hid hs
    · exact processReply_owned h hs
  | growBackend b sSize =>
    dsimp only at hs
    split_ifs at hs
    · exact hid hs
    · exact resetBackendCache_owned h hs
  | backendWrite b bConnected script conn =>
    dsimp only at hs
    split_ifs at hs
    · exact hid hs
    · exact backendWrite_owned h hs
  | backendClose b conn =>
    dsimp only at hs
    split_ifs at hs
    · exact hid hs
    · exact backendClose_owned h hs
  | statusTimer b bConnected conn =>
    dsimp only at hs
    split_ifs at hs
    · exact hid hs
    · exact statusTimer_owned h hs
  | reconnectTimer k conn =>
    dsimp only at hs
    split at hs
    · exact hid hs
    · exact reconnectTimer_owned h hs
  | tick ms =>
    cases hs
    exact owned_of_eq h (ledger_same rfl rfl rfl)

theorem init_owned : Owned none init.ledger := by
  have hstatic : ∀ s d, init.ledger.holds s = some d → init.ledger.mem.Static d := by
    intro s d hd
    cases s with
    | cache k =>
      cases k with
      | client c => exact absurd hd (by simp [ledger, cacheData, ClientConn.cacheData, init, AccessEvent.init])
      | redis b =>
        obtain rfl : 0 = d := Option.some.inj hd
        rfl
    | req q => exact absurd hd (by simp [ledger, init, Store.init, MsgIdenty.new, MsgIdenty.zero])
    | data q => exact absurd hd (by simp [ledger, init, Store.init, MsgIdenty.new, MsgIdenty.zero])
  have hnone : ∀ s d, init.ledger.own none s ≠ some d :=
    fun s d hd => (own_eq_some.mp hd).2.2 (hstatic s d (own_eq_some.mp hd).2.1)
  exact ⟨MemPool.init_inv, ⟨rfl, rfl⟩, fun s d hd => absurd hd (hnone s d), fun s t d hd => absurd hd (hnone s d)⟩

/-- No block has two owners: neither in the pool, nor outside, nor one in each. -/
theorem place_unique (h : Owned none w.ledger) {x y : Place} (hx : w.blockAt x = some d)
    (hy : w.blockAt y = some d) (hd : (w.st.mem.blocks d).cStaticFlag = false) : x = y := by
  have hnot : ¬w.ledger.mem.Static d := Bool.eq_false_iff.mp hd
  have hout : ∀ {s}, w.ledger.holds s = some d → w.ledger.mem.Out d :=
    fun {s} hs => h.out s d (own_eq_some.mpr ⟨by simp, hs, hnot⟩)
  have hback : ∀ {k : Option Nat} {n : Nat}, (w.st.mem.stack k)[n]? = some d → ¬w.ledger.mem.Out d :=
    fun {k n} hs => (h.inv.back k d (List.mem_of_getElem? hs)).1
  cases x with
  | free i n =>
    cases y with
    | free j m =>
      obtain ⟨hk, rfl⟩ := h.inv.apart.position (some i) (some j) hx hy
      cases hk
      rfl
    | record m =>
      obtain ⟨hk, -⟩ := h.inv.apart.position (some i) none hx hy
      cases hk
    | slot s => exact absurd (hout hy) (hback (k := some i) hx)
  | record n =>
    cases y with
    | free j m =>
      obtain ⟨hk, -⟩ := h.inv.apart.position none (some j) hx hy
      cases hk
    | record m =>
      obtain ⟨-, rfl⟩ := h.inv.apart.position none none hx hy
      rfl
    | slot s => exact absurd (hout hy) (hback (k := none) hx)
  | slot s =>
    cases y with
    | free j m => exact absurd (hout hx) (hback (k := some j) hy)
    | record m => exact absurd (hout hx) (hback (k := none) hy)
    | slot t => rw [h.excl (own_eq_some.mpr ⟨by simp, hx, hnot⟩) (own_eq_some.mpr ⟨by simp, hy, hnot⟩)]

open Lib Option Function

instance decidableReaches (w : Proxy) : ∀ req, Decidable (w.Reaches req)
  | .forward _ => inferInstanceAs (Decidable (_ ≠ _))
  | .answer _ | .clusterSlots _ | .reset => isTrue trivial

instance decidableRouteOK (w : Proxy) : ∀ l, Decidable (w.RouteOK l)
  | .request .. => inferInstanceAs (Decidable (_ → _ → _))
  | .addServer _ | .reroute _ | .accept _ | .growClient .. | .clientWrite .. | .clientClose _ | .reply ..
  | .growBackend .. | .backendWrite .. | .backendClose .. | .statusTimer .. | .reconnectTimer .. | .tick _ => isTrue trivial

/-- In every state that the proxy reaches, a block that is not static has at most one owner, and each
`GetData` has been followed by at most one `Release`. -/
theorem block_has_one_owner (cfg : Config) (ls : List Label) {w : Proxy} (hok : Meets (step cfg) RouteOK init ls)
    (hrun : run (step cfg) init ls = some w) :
    (∀ x y d, w.blockAt x = some d → w.blockAt y = some d → (w.st.mem.blocks d).cStaticFlag = false → x = y) ∧
      ∀ d, w.st.mem.releases d ≤ w.st.mem.gets d ∧ w.st.mem.gets d ≤ w.st.mem.releases d + 1 := by
  have hinv : Owned none w.ledger ∧ (w.exited = false → w.Good) := by
    refine run_inv (I := fun w => Owned none w.ledger ∧ (w.exited = false → w.Good)) (C := RouteOK) ?_ ls init w
      ⟨init_owned, fun _ => init_good⟩ hok hrun
    rintro w l w' ⟨howned, hgood⟩ hroute hs
    refine ⟨step_owned howned hgood hroute hs, fun hexit => ?_⟩
    have hgood' := hgood (step_exited hs hexit)
    obtain ⟨q, hfol⟩ : ∃ q, Follows False False False ⟨w.flow, 0, 0, false⟩ w' q 0 false :=
      step_follows hgood' (fun hf => hf.elim) (fun hf => hf.elim) (fun hf => hf.elim) hs hexit 0
    exact hfol.good hgood'.wf
  exact ⟨fun x y d hx hy hd => place_unique hinv.1 hx hy hd, hinv.1.inv.balance⟩

theorem block_has_one_owner_one :
    let ls : List Label := [.addServer (.inProgress 0), .accept 0, .request 0 crlfMsg (.forward (some 0))]
    ∃ w, run (step plainConfig) init ls = some w ∧ w.blockAt (.slot (.req 1)) = some 3 ∧
      (∀ x y d, w.blockAt x = some d → w.blockAt y = some d → (w.st.mem.blocks d).cStaticFlag = false → x = y) ∧
      ∀ d, w.st.mem.releases d ≤ w.st.mem.gets d ∧ w.st.mem.gets d ≤ w.st.mem.releases d + 1 := by
  intro ls
  obtain ⟨w, hw, hview⟩ : ∃ w, run (step plainConfig) init ls = some w ∧
      w.blockAt (.slot (.req 1)) = some 3 := map_eq_some_iff.mp rfl
  exact ⟨w, hw, hview, block_has_one_owner plainConfig ls (by decide) hw⟩

/-- A request is refused because there is no backend. Its block goes back to the pool, and is released
once more with its identity; then two clients read into it. -/
theorem refused_block_shared :
    let ls : List Label := [.accept 0, .request 0 crlfMsg (.forward none)]
    let ls' : List Label := [.clientWrite 0 [.accept 19], .accept 1, .accept 2]
    (∃ w, run (step plainConfig) init ls = some w ∧ w.blockAt (.free 1 0) = some 2 ∧
      w.blockAt (.slot (.req 1)) = some 2 ∧ (w.st.mem.blocks 2).cStaticFlag = false) ∧
    ∃ w, run (step plainConfig) init (ls ++ ls') = some w ∧ w.blockAt (.slot (.cache (.client 1))) = some 2 ∧
      w.blockAt (.slot (.cache (.client 2))) = some 2 ∧ (w.st.mem.blocks 2).cStaticFlag = false := by
  intro ls ls'
  constructor
  · obtain ⟨w, hw, hview⟩ : ∃ w, run (step plainConfig) init ls = some w ∧
        (w.blockAt (.free 1 0), w.blockAt (.slot (.req 1)), (w.st.mem.blocks 2).cStaticFlag) = (some 2, some 2, false) :=
      map_eq_some_iff.mp rfl
    simp only [Prod.mk.injEq] at hview
    exact ⟨w, hw, hview⟩
  · obtain ⟨w, hw, hview⟩ : ∃ w, run (step plainConfig) init (ls ++ ls') = some w ∧
        (w.blockAt (.slot (.cache (.client 1))), w.blockAt (.slot (.cache (.client 2))),
          (w.st.mem.blocks 2).cStaticFlag) = (some 2, some 2, false) := map_eq_some_iff.mp rfl
    simp only [Prod.mk.injEq] at hview
    exact ⟨w, hw, hview⟩

end Proxy

end RedisProxy
