import RedisProxy.Proofs.AccessEventProofs

/-!
# Proofs: replies reach the client in the order of its requests
-/

namespace RedisProxy.Client

open Option

open RedisProxy.Lib

/-- The steps that the machine is meant for. A reply is for a request that has none yet, and the rest
of the proxy leaves the index and `iWaitDone` of the waiting identities alone and does not put
identities into the pool that are in use. -/
def Intended (c : Client) : Label → Prop
  | .reply pIdenty _ _ => pIdenty ∈ c.ring ∧ (c.x.st.ids pIdenty).iWaitDone = false
  | .replyErr pIdenty _ => pIdenty ∈ c.ring ∧ (c.x.st.ids pIdenty).iWaitDone = false
  | .other st =>
    (∀ p ∈ c.ring,
      (st.ids p).ulIndex = (c.x.st.ids p).ulIndex ∧ (st.ids p).iWaitDone = (c.x.st.ids p).iWaitDone) ∧
    st.PoolOK c.ring
  | _ => True

instance decidableIntended (c : Client) : ∀ l, Decidable (Intended c l)
  | .request => isTrue trivial
  | .reply .. => inferInstanceAs (Decidable (_ ∧ _))
  | .replyErr .. => inferInstanceAs (Decidable (_ ∧ _))
  | .write _ => isTrue trivial
  | .close => isTrue trivial
  | .other _ => inferInstanceAs (Decidable (_ ∧ _))

/-- What a step can do, by cases. -/
inductive Step (self : Nat) (c : Client) : Label → Client → Prop
  | closed (l : Label) (h : c.isClosed = true) : Step self c l c
  | full (h : c.isClosed = false) : Step self c .request c
  | request {p : Nat} {st : Store} {ev : AccessEvent} (h : c.isClosed = false)
      (ha : AccessEvent.addIdenty self c.x.st c.x.ev = some (p, st, ev)) :
      Step self c .request { c with x := { c.x with st, ev }, replies := c.replies ++ [none] }
  | reply (p block : Nat) (pData : Msg) (h : c.isClosed = false) :
      Step self c (.reply p block pData)
        (c.replied p pData (AccessEvent.getReply c.x.st c.x.ev block pData p))
  | replyErr (p : Nat) (iErr : RspErr) (h : c.isClosed = false) :
      Step self c (.replyErr p iErr)
        (c.replied p (getErrMsg iErr) (AccessEvent.getReplyErr c.x.st c.x.ev iErr p))
  | write {script : List WritevRet} {iRet : Ret} {x : AccessEvent.Ctx} (h : c.isClosed = false)
      (hw : AccessEvent.write self { c.x with sock := { c.x.sock with script } } = some (iRet, x)) :
      Step self c (.write script) { c with x, isClosed := iRet == .error }
  | close (h : c.isClosed = false) : Step self c .close { c with isClosed := true }
  | other (st : Store) (h : c.isClosed = false) : Step self c (.other st) { c with x := { c.x with st } }

theorem step_some (hs : step self c l = some c') : Step self c l c' := by
  unfold step at hs
  by_cases hclosed : c.isClosed = true
  · rw [if_pos hclosed] at hs
    cases hs
    exact .closed l hclosed
  rw [if_neg hclosed] at hs
  have hopen : c.isClosed = false := by simpa using hclosed
  cases l with
  | request =>
    split_ifs at hs with hfull
    · cases hs
      exact .full hopen
    · cases ha : AccessEvent.addIdenty self c.x.st c.x.ev with
      | none => simp [ha] at hs
      | some r =>
        simp only [ha, some.injEq] at hs
        obtain rfl := hs
        exact .request hopen ha
  | reply p block pData =>
    cases hs
    exact .reply p block pData hopen
  | replyErr p iErr =>
    cases hs
    exact .replyErr p iErr hopen
  | write script =>
    cases hw : AccessEvent.write self { c.x with sock := { c.x.sock with script := script } } with
    | none => simp [hw] at hs
    | some r =>
      simp only [hw, some.injEq] at hs
      obtain rfl := hs
      exact .write hopen hw
  | close =>
    cases hs
    exact .close hopen
  | other st =>
    cases hs
    exact .other st hopen

/-- The client's identities wait in order, and so go the replies. -/
def Ordered (c : Client) : Prop := ∃ base, AccessEvent.Inv c.x c.replies base

variable {self : Nat} {c c' : Client}
variable {l : Label}

theorem start_ordered {st : Store} {ev : AccessEvent} (h : Start st ev) : Ordered (start st ev) := by
  refine ⟨0, ⟨h.ringStart, ?_, ?_, ?_⟩, ?_, ?_, ?_⟩
  · simp [start, h.ring]
  · simp [start, h.ring, h.index]
  · intro j p hj
    simp [start, h.ring] at hj
  · show st.PoolOK ev.waitRing.toList
    rw [h.ring]
    exact h.pool
  · intro p hp
    simp [start, h.ring] at hp
  · simp only [start, h.ring]
    exact InOrder.init

/-- `GetReply`, in both forms: `st` is the store after `pData` has been set. -/
theorem replied_ordered (h : Ordered c) {p : Nat} (hp : p ∈ c.ring) (hdone : (c.x.st.ids p).iWaitDone = false)
    (pData : Msg) (d : Option Nat) :
    Ordered (c.replied p pData
      (AccessEvent.doReply (c.x.st.setId p { c.x.st.ids p with pData := d }) c.x.ev pData p)) := by
  obtain ⟨base, hinv⟩ := h
  have hp' : p ∈ c.x.ev.waitRing.toList := hp
  have h₁ := hinv.setId hp' (i := { c.x.st.ids p with pData := d }) rfl rfl
  set st := c.x.st.setId p { c.x.st.ids p with pData := d }
  have hids : st.ids p = { c.x.st.ids p with pData := d } := Store.setId_ids_self ..
  have hdone' : (st.ids p).iWaitDone = false := by rw [hids]; exact hdone
  refine ⟨base, ?_⟩
  by_cases hpart : AccessEvent.Partial (st.ids p)
  · rw [AccessEvent.doReply_partial pData hpart]
    have h₂ := h₁.setId hp' (i := AccessEvent.counted (st.ids p) pData) rfl rfl
    simp only [replied, Store.setId_ids_self, AccessEvent.counted, hdone', Bool.false_eq_true, if_false]
    simpa only [AccessEvent.counted, hdone'] using h₂
  · obtain ⟨m, hrep, -⟩ := AccessEvent.doReply_complete pData hpart
    obtain ⟨j, hj⟩ := List.mem_iff_getElem?.mp hp'
    have h₂ := h₁.answer hj hdone' pData
      (i := AccessEvent.completed (st.ids p) pData) rfl rfl m
    rw [hrep]
    simpa only [replied, Store.setId_ids_self, AccessEvent.completed, if_true] using h₂

theorem step_ordered (h : Ordered c) (hl : Intended c l) (hs : step self c l = some c') : Ordered c' := by
  cases step_some hs with
  | closed => exact h
  | full => exact h
  | request _ ha =>
    obtain ⟨base, hinv⟩ := h
    exact ⟨base, hinv.ask (AccessEvent.addIdenty_some hinv.pool ha)⟩
  | reply p block pData => exact replied_ordered h hl.1 hl.2 pData (some block)
  | replyErr p iErr => exact replied_ordered h hl.1 hl.2 (getErrMsg iErr) none
  | @write script _ _ _ hw =>
    obtain ⟨base, hinv⟩ := h
    obtain ⟨base', hwritten⟩ := AccessEvent.write_inv (AccessEvent.stable_inv c.replies) (hinv.script script) hw
    exact ⟨base', hwritten.inv⟩
  | close => exact h
  | other st =>
    obtain ⟨base, hinv⟩ := h
    exact ⟨base, hinv.store hl.1 hl.2⟩

/-- In every run the bytes sent are a prefix of the replies in the order of the requests; the
identities in the ring are those of the latest requests, in order, and the replies to all requests
before them have been sent completely. -/
theorem replies_in_order (self : Nat) {st : Store} {ev : AccessEvent} (h : Start st ev) (ls : List Label)
    (hls : Meets (step self) Intended (start st ev) ls)
    (hrun : run (step self) (start st ev) ls = some c) :
    c.x.sock.sent <+: (answered c.replies).flatten ∧
      (∀ j p, c.ring[j]? = some p → (c.x.st.ids p).ulIndex = c.replies.length - c.ring.length + j) ∧
      ∃ D : List (List UInt8), c.replies.take (c.replies.length - c.ring.length) = D.map some ∧
        D.flatten <+: c.x.sock.sent := by
  obtain ⟨base, hinv⟩ := run_inv (fun _ _ _ hI hC hs => step_ordered hI hC hs) ls _ c (start_ordered h) hls hrun
  have hlen := hinv.order.length_eq
  rw [List.length_map] at hlen
  have hbase : c.replies.length - c.ring.length = base := by
    rw [hlen]
    exact Nat.add_sub_cancel ..
  rw [hbase]
  exact ⟨hinv.order.sent_prefix, hinv.idx, hinv.order.delivered⟩

/-- Two requests of which the second is answered first. The reply to the first goes out in two
pieces. -/
theorem replies_in_order_two :
    let ls : List Label := [.request, .request, .replyErr 2 .pong, .replyErr 1 .commErr, .write [.accept 3],
      .write [.accept 100]]
    ∃ c, run (step 0) (start .init (.init 7 0)) ls = some c ∧
      c.x.sock.sent <+: (answered c.replies).flatten ∧
      (∀ j p, c.ring[j]? = some p → (c.x.st.ids p).ulIndex = c.replies.length - c.ring.length + j) ∧
      ∃ D : List (List UInt8), c.replies.take (c.replies.length - c.ring.length) = D.map some ∧
        D.flatten <+: c.x.sock.sent := by
  intro ls
  obtain ⟨c, hc⟩ : ∃ c, run (step 0) (start .init (.init 7 0)) ls = some c := isSome_iff_exists.mp rfl
  exact ⟨c, hc, replies_in_order 0 (start_init Store.init_poolOK (by decide) 0) ls (by decide) hc⟩

end RedisProxy.Client
