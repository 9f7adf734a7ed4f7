import RedisProxy.Client
import RedisProxy.Lib.InOrder
import RedisProxy.Proofs.EventProofs

/-!
# Proofs: the client connection

The invariant that ties together the wait ring, the indices of the identities, the cells of
`m_vCiov` and what has been sent, and what `Sendv` and `Write` do to it.
-/

namespace RedisProxy.AccessEvent

open List Option Function

variable {p base : Nat} {x : Ctx} {st : Store} {ev : AccessEvent}

open RedisProxy.Lib

/-- What the connection still has to send for the identity `p`. -/
def slot (st : Store) (ev : AccessEvent) (p : Nat) : Option (List UInt8) :=
  if (st.ids p).iWaitDone then some (ev.vCiov ((st.ids p).ulIndex % maxWaitRingLen)).bytes else none

/-- The first `base` requests have left the ring, and the others wait in it in the order of their
indices. -/
structure Queue (st : Store) (ev : AccessEvent) (base : Nat) : Prop where
  start : ev.waitRing.rb.pStart = base % maxWaitRingLen
  total : base + ev.waitRing.toList.length ≤ uint64Size
  next : ev.ulMsgIdenty = (base + ev.waitRing.toList.length) % uint64Size
  idx : ∀ j p, ev.waitRing.toList[j]? = some p → (st.ids p).ulIndex = base + j

namespace Queue

variable {st : Store} {ev : AccessEvent} {base : Nat}

theorem index_inj (h : Queue st ev base) {i j p : Nat} (hi : ev.waitRing.toList[i]? = some p)
    (hj : ev.waitRing.toList[j]? = some p) : i = j := by
  have h1 := h.idx i p hi
  have h2 := h.idx j p hj
  omega

theorem nodup (h : Queue st ev base) : ev.waitRing.toList.Nodup := by
  rw [nodup_iff_injective_getElem]
  intro i j hij
  dsimp only at hij
  exact Fin.ext (h.index_inj (getElem?_eq_getElem i.2) (by rw [getElem?_eq_getElem j.2, ← hij]))

/-- The queue only depends on the indices of the waiting identities. -/
theorem store (h : Queue st ev base) {st' : Store}
    (hkeep : ∀ p ∈ ev.waitRing.toList, (st'.ids p).ulIndex = (st.ids p).ulIndex) : Queue st' ev base :=
  ⟨h.start, h.total, h.next, fun j p hj => (hkeep p (mem_of_getElem? hj)).trans (h.idx j p hj)⟩

end Queue

/-- The queue, and what has been sent of the replies: those to the first `base` requests, and some
bytes of the next one. -/
structure Inv (x : Ctx) (replies : List (Option (List UInt8))) (base : Nat) : Prop
    extends Queue x.st x.ev base where
  pool : x.st.PoolOK x.ev.waitRing.toList
  valid : ∀ p ∈ x.ev.waitRing.toList, (x.st.ids p).iWaitDone = true →
    (x.ev.vCiov ((x.st.ids p).ulIndex % maxWaitRingLen)).Valid
  order : InOrder replies base (x.ev.waitRing.toList.map (slot x.st x.ev)) x.sock.sent

namespace Inv

variable {x : Ctx} {replies : List (Option (List UInt8))} {base : Nat}

/-- The rest of the proxy may change the store as long as the waiting identities keep their index and
`iWaitDone`. -/
theorem store (h : Inv x replies base) {st : Store}
    (hkeep : ∀ p ∈ x.ev.waitRing.toList,
      (st.ids p).ulIndex = (x.st.ids p).ulIndex ∧ (st.ids p).iWaitDone = (x.st.ids p).iWaitDone)
    (hpool : st.PoolOK x.ev.waitRing.toList) : Inv { x with st } replies base := by
  refine ⟨h.toQueue.store fun p hp => (hkeep p hp).1, hpool, ?_, ?_⟩
  · intro p hp hdone
    obtain ⟨hi, hd⟩ := hkeep p hp
    have hv := h.valid p hp (hd.symm.trans hdone)
    simpa only [hi] using hv
  · have hmap : x.ev.waitRing.toList.map (slot st x.ev) = x.ev.waitRing.toList.map (slot x.st x.ev) := by
      apply map_congr_left
      intro p hp
      obtain ⟨hi, hd⟩ := hkeep p hp
      simp only [slot, hi, hd]
    simpa only [hmap] using h.order

/-- Writing an identity that waits, but not its index or `iWaitDone`. -/
theorem setId (h : Inv x replies base) {p : Nat} (hp : p ∈ x.ev.waitRing.toList) {i : MsgIdenty}
    (hidx : i.ulIndex = (x.st.ids p).ulIndex) (hdone : i.iWaitDone = (x.st.ids p).iWaitDone) :
    Inv { x with st := x.st.setId p i } replies base := by
  refine h.store (fun q _ => ?_) (h.pool.setId hp i)
  by_cases hq : q = p
  · subst hq
    rw [Store.setId_ids_self]
    exact ⟨hidx, hdone⟩
  · rw [Store.setId_ids_ne _ hq]
    exact ⟨rfl, rfl⟩

/-- The coming answers of the kernel do not matter. -/
theorem script (h : Inv x replies base) (s : List WritevRet) :
    Inv { x with sock := { x.sock with script := s } } replies base :=
  ⟨⟨h.start, h.total, h.next, h.idx⟩, h.pool, h.valid, h.order⟩

theorem mask (h : Inv x replies base) (m : Mask) : Inv { x with ev := { x.ev with mask := m } } replies base :=
  ⟨⟨h.start, h.total, h.next, h.idx⟩, h.pool, h.valid, h.order⟩

end Inv

/-! ## Requests -/

/-- What the start of `ProcessMsg` does: a blank identity waits at the end of the ring. -/
structure Added (x : Ctx) (p : Nat) (st : Store) (ev : AccessEvent) : Prop where
  pool : st.PoolOK (x.ev.waitRing.toList ++ [p])
  done : (st.ids p).iWaitDone = false
  index : (st.ids p).ulIndex = x.ev.ulMsgIdenty
  keep : ∀ q ∈ x.ev.waitRing.toList, st.ids q = x.st.ids q
  cell : (x.ev.waitRing.rb.pStart + x.ev.waitRing.toList.length) % maxWaitRingLen =
    x.ev.ulMsgIdenty % maxWaitRingLen
  ring : ev.waitRing.toList = x.ev.waitRing.toList ++ [p]
  start : ev.waitRing.rb.pStart = x.ev.waitRing.rb.pStart
  next : ev.ulMsgIdenty = (x.ev.ulMsgIdenty + 1) % uint64Size
  vCiov : ev.vCiov = x.ev.vCiov
  mask : ev.mask = x.ev.mask
  fd : ev.iFD = x.ev.iFD

theorem addIdenty_some {self : Nat} (h : x.st.PoolOK x.ev.waitRing.toList)
    (ha : addIdenty self x.st x.ev = some (p, st, ev)) : Added x p st ev := by
  unfold addIdenty at ha
  cases hg : x.st.get with
  | none => simp [hg] at ha
  | some r =>
    obtain ⟨p₁, st₁⟩ := r
    simp only [hg] at ha
    split_ifs at ha with hnull
    cases hadd : x.ev.waitRing.addDataIdx p₁ x.ev.ulMsgIdenty with
    | none => simp [hadd] at ha
    | some waitRing =>
      simp only [hadd, some.injEq, Prod.mk.injEq] at ha
      obtain ⟨rfl, rfl, rfl⟩ := ha
      obtain ⟨hnot, hdone, hpool, hsame⟩ := Store.get_some h hg
      obtain ⟨hlt, hcell, hring, hstart⟩ := WaitRing.addDataIdx_some hadd
      refine ⟨hpool.setId (by simp) _, ?_, ?_, ?_, hcell, hring, hstart, rfl, rfl, rfl, rfl⟩
      · rw [Store.setId_ids_self]
        exact hdone
      · rw [Store.setId_ids_self]
      · intro q hq
        have hne : q ≠ p₁ := by
          rintro rfl
          exact hnot hq
        rw [Store.setId_ids_ne _ hne, hsame q hq]

/-- A request takes its place at the end of the queue. -/
theorem Queue.ask (h : Queue x.st x.ev base) (ha : Added x p st ev) : Queue st ev base := by
  -- the counter has not wrapped: the ring refuses the request after the last index
  have hfresh : base + x.ev.waitRing.toList.length < uint64Size := by
    by_contra hge
    have heq : base + x.ev.waitRing.toList.length = uint64Size :=
      Nat.le_antisymm h.total (Nat.not_lt.mp hge)
    have hnext := h.next
    have hcell := ha.cell
    rw [heq, Nat.mod_self] at hnext
    rw [h.start, Nat.mod_add_mod, heq, hnext] at hcell
    exact absurd hcell (by decide)
  have hnext := h.next
  rw [Nat.mod_eq_of_lt hfresh] at hnext
  refine ⟨ha.start.trans h.start, ?_, ?_, ?_⟩
  · rw [ha.ring, length_append, length_singleton]
    omega
  · rw [ha.ring, length_append, length_singleton, ha.next, hnext, Nat.add_assoc]
  · intro j q hj
    rw [ha.ring] at hj
    rcases Nat.lt_or_ge j x.ev.waitRing.toList.length with hjlt | hjge
    · rw [getElem?_append_left hjlt] at hj
      rw [ha.keep q (mem_of_getElem? hj)]
      exact h.idx j q hj
    · rw [getElem?_append_right hjge] at hj
      obtain ⟨hj0, rfl⟩ : j - x.ev.waitRing.toList.length = 0 ∧ p = q := by
        simpa [getElem?_singleton] using hj
      rw [ha.index]
      omega

theorem Inv.ask {replies : List (Option (List UInt8))} (h : Inv x replies base) (ha : Added x p st ev) :
    Inv { x with st, ev } (replies ++ [none]) base := by
  have hslot : ∀ q ∈ x.ev.waitRing.toList, slot st ev q = slot x.st x.ev q := by
    intro q hq
    simp only [slot, ha.keep q hq, ha.vCiov]
  have hnone : slot st ev p = none := by
    simp [slot, ha.done]
  refine ⟨h.toQueue.ask ha, ?_, ?_, ?_⟩
  · rw [ha.ring]
    exact ha.pool
  · intro q hq hqd
    rw [ha.ring] at hq
    rw [ha.vCiov]
    rcases mem_append.mp hq with hq | hq
    · rw [ha.keep q hq] at hqd ⊢
      exact h.valid q hq hqd
    · rw [mem_singleton.mp hq, ha.done] at hqd
      exact absurd hqd (by decide)
  · rw [ha.ring, map_append, map_singleton, hnone, map_congr_left hslot]
    exact h.order.ask

/-! ## Replies -/

section Reply

variable {x : Ctx} {replies : List (Option (List UInt8))} {base : Nat}
variable {st : Store} {ev : AccessEvent} {p : Nat}

/-- The condition under which `DoReply` only counts the reply. -/
def Partial (i : MsgIdenty) : Prop := 1 < i.iNeedWaitNum ∧ i.iGotNum + 1 < i.iNeedWaitNum

instance (i : MsgIdenty) : Decidable (Partial i) := inferInstanceAs (Decidable (_ ∧ _))

/-- An identity whose reply is counted, and one whose reply completes its request. -/
def counted (i : MsgIdenty) (pData : Msg) : MsgIdenty :=
  { i with iGotNum := i.iGotNum + 1, replies := i.replies ++ [(pData.bytes, false)] }

def completed (i : MsgIdenty) (pData : Msg) : MsgIdenty :=
  { i with iGotNum := i.iGotNum + 1, iWaitDone := true, replies := i.replies ++ [(pData.bytes, true)] }

theorem doReply_partial (pData : Msg) (h : Partial (st.ids p)) :
    doReply st ev pData p = (st.setId p (counted (st.ids p) pData), ev) := by
  exact if_pos h

/-- The predecessor test with which `DoReply` decides whether to ask for a write event. -/
def wakes (st : Store) (ev : AccessEvent) (ulIndex : Nat) : Bool :=
  match ev.waitRing.getPre ulIndex with
  | none => true
  | some pre => !(st.ids pre).iWaitRsp || (st.ids pre).iWaitDone || (st.ids pre).iPreGood

theorem doReply_complete (pData : Msg) (h : ¬Partial (st.ids p)) : ∃ m, doReply st ev pData p =
      (st.setId p (completed (st.ids p) pData), { ev with
          vCiov := Function.update ev.vCiov ((st.ids p).ulIndex % maxWaitRingLen) pData.iovec,
          mask := m }) ∧
      m = if wakes (st.setId p (completed (st.ids p) pData)) ev (st.ids p).ulIndex then ev.mask.addWrite ev.iFD else ev.mask := by
  refine ⟨_, ?_, rfl⟩
  unfold Partial at h
  unfold doReply wakes completed
  dsimp only
  rw [if_neg h]
  cases hpre : ev.waitRing.getPre (st.ids p).ulIndex with
  | none => rfl
  | some pre =>
    split_ifs <;> rfl

/-- The reply of an identity that waits at position `j` is stored in its cell. -/
theorem Inv.answer (h : Inv x replies base) {j : Nat} (hj : x.ev.waitRing.toList[j]? = some p)
    (hdone : (x.st.ids p).iWaitDone = false) (pData : Msg) {i : MsgIdenty}
    (hidx : i.ulIndex = (x.st.ids p).ulIndex) (hi : i.iWaitDone = true) (m : Mask) : Inv { x with
          st := x.st.setId p i,
          ev := { x.ev with
            vCiov := Function.update x.ev.vCiov ((x.st.ids p).ulIndex % maxWaitRingLen) pData.iovec,
            mask := m } }
      (replies.set (x.st.ids p).ulIndex (some pData.bytes)) base := by
  have hmem : p ∈ x.ev.waitRing.toList := mem_of_getElem? hj
  have hlen := x.ev.waitRing.length_le
  have hjlt : j < x.ev.waitRing.toList.length := (List.getElem?_eq_some_iff.mp hj).1
  -- no two waiting identities share a cell
  have hcell : ∀ k q : Nat, x.ev.waitRing.toList[k]? = some q → q ≠ p →
      (x.st.ids q).ulIndex % maxWaitRingLen ≠ (x.st.ids p).ulIndex % maxWaitRingLen := by
    intro k q hk hne heq
    have hklt : k < x.ev.waitRing.toList.length := (List.getElem?_eq_some_iff.mp hk).1
    rw [h.idx k q hk, h.idx j p hj] at heq
    obtain rfl := add_mod_inj (by omega) (by omega) heq
    rw [hj] at hk
    exact hne (some.inj hk).symm
  have hnew : ∀ k q : Nat, x.ev.waitRing.toList[k]? = some q → q ≠ p →
      update x.ev.vCiov ((x.st.ids p).ulIndex % maxWaitRingLen) pData.iovec
        ((x.st.ids q).ulIndex % maxWaitRingLen) = x.ev.vCiov ((x.st.ids q).ulIndex % maxWaitRingLen) := by
    intro k q hk hne
    exact update_of_ne (hcell k q hk hne) _ _
  refine ⟨⟨h.start, h.total, h.next, ?_⟩, h.pool.setId hmem i, ?_, ?_⟩
  · intro k q hk
    by_cases hq : q = p
    · subst hq
      simp only [Store.setId_ids_self, hidx]
      exact h.idx k q hk
    · simp only [Store.setId_ids_ne _ hq]
      exact h.idx k q hk
  · intro q hq hqd
    obtain ⟨k, hk⟩ := mem_iff_getElem?.mp hq
    by_cases hqp : q = p
    · subst hqp
      simp only [Store.setId_ids_self, hidx, update_self]
      exact pData.iovec_valid
    · simp only [Store.setId_ids_ne _ hqp] at hqd ⊢
      rw [hnew k q hk hqp]
      exact h.valid q hq hqd
  · have hmap : x.ev.waitRing.toList.map (slot (x.st.setId p i)
        { x.ev with
          vCiov := update x.ev.vCiov ((x.st.ids p).ulIndex % maxWaitRingLen) pData.iovec,
          mask := m }) =
        (x.ev.waitRing.toList.map (slot x.st x.ev)).set j (some pData.bytes) := by
      apply ext_getElem?
      intro k
      rw [getElem?_set, getElem?_map, getElem?_map, length_map]
      by_cases hkj : j = k
      · subst hkj
        rw [if_pos rfl, if_pos hjlt, hj, map_some]
        simp only [slot, Store.setId_ids_self, hi, hidx, update_self, if_true, Msg.iovec_bytes]
      · rw [if_neg hkj]
        cases hk : x.ev.waitRing.toList[k]? with
        | none => rfl
        | some q =>
          have hqp : q ≠ p := by
            rintro rfl
            exact hkj (h.index_inj hj hk)
          simp only [map_some, slot, Store.setId_ids_ne _ hqp, hnew k q hk hqp]
    rw [hmap, h.idx j p hj]
    apply h.order.answer
    rw [getElem?_map, hj, map_some]
    simp [slot, hdone]

end Reply

/-! ## `Sendv` -/

section Sendv

variable {x x' : Ctx} {replies : List (Option (List UInt8))} {base : Nat}
variable {st st' : Store} {ring : WaitRing maxWaitRingLen Nat} {P : Store → WaitRing maxWaitRingLen Nat → Prop}
  {ev : AccessEvent} {n : Nat} {ret : Ret}

/-- `j` replies have gone out: their identities have left the ring. -/
structure Popped (st : Store) (ring : WaitRing maxWaitRingLen Nat) (j : Nat) (st' : Store)
    (ring' : WaitRing maxWaitRingLen Nat) : Prop where
  le : j ≤ ring.toList.length
  left : ring'.toList = ring.toList.drop j
  start : ring'.rb.pStart = (ring.rb.pStart + j) % maxWaitRingLen
  keep : ∀ q ∈ ring'.toList, st'.ids q = st.ids q

theorem popSent_some {ring' : WaitRing maxWaitRingLen Nat} (h : popSent (st, ring) = some (st', ring')) :
    ∃ p, ring.toList = p :: ring'.toList ∧ ring'.rb.pStart = (ring.rb.pStart + 1) % maxWaitRingLen ∧
      st.release .access p = some st' := by
  have hpair : ring.popFront = (ring.toList.head?, ring.popFront.2) := Prod.ext ring.popFront_fst rfl
  have htail := ring.popFront_toList
  have hstart := ring.popFront_start
  unfold popSent at h
  rw [hpair] at h
  cases hl : ring.toList with
  | nil =>
    rw [hl] at h
    cases h
  | cons p l =>
    rw [hl, head?_cons] at h
    cases hr : st.release .access p with
    | none => simp [hr] at h
    | some st₁ =>
      simp only [hr, some.injEq, Prod.mk.injEq] at h
      obtain ⟨rfl, rfl⟩ := h
      rw [hl, tail_cons] at htail
      exact ⟨p, by rw [htail], hstart (by rw [hl]; simp), hr⟩

/-- A property of the store and the ring that survives when an identity that is done leaves the ring. -/
def PopClosed (P : Store → WaitRing maxWaitRingLen Nat → Prop) : Prop :=
  ∀ (st st' : Store) (ring ring' : WaitRing maxWaitRingLen Nat) (p : Nat), P st ring →
    ring.toList = p :: ring'.toList → ring'.rb.pStart = (ring.rb.pStart + 1) % maxWaitRingLen →
    p ∉ ring'.toList → (st.ids p).iWaitDone = true → st.release .access p = some st' → P st' ring'

/-- The loop over the replies that have gone out. -/
theorem iterOpt_popSent (hP : PopClosed P) :
    ∀ (j : Nat) (st st' : Store) (ring ring' : WaitRing maxWaitRingLen Nat), ring.toList.Nodup →
      (∀ p ∈ ring.toList.take j, (st.ids p).iWaitDone = true) → P st ring →
      iterOpt popSent j (st, ring) = some (st', ring') → Popped st ring j st' ring' ∧ P st' ring' := by
  intro j
  induction j with
  | zero =>
    intro st st' ring ring' _ _ hst h
    obtain ⟨rfl, rfl⟩ := h
    exact ⟨⟨Nat.zero_le _, rfl, (Nat.mod_eq_of_lt ring.start_lt).symm, fun _ _ => rfl⟩, hst⟩
  | succ j ih =>
    intro st st' ring ring' hnd hdone hst h
    obtain ⟨⟨st₁, ring₁⟩, h₁, h₂⟩ := bind_eq_some_iff.mp h
    obtain ⟨p, hl, hstart, hrel⟩ := popSent_some h₁
    rw [hl] at hnd hdone
    obtain ⟨hp, hnd₁⟩ := nodup_cons.mp hnd
    have hother : ∀ q ∈ ring₁.toList, st₁.ids q = st.ids q := by
      intro q hq
      apply (Store.release_some hrel).other
      rintro rfl
      exact hp hq
    have hdone₁ : ∀ q ∈ ring₁.toList.take j, (st₁.ids q).iWaitDone = true := by
      intro q hq
      rw [hother q (mem_of_mem_take hq)]
      exact hdone q (by rw [take_succ_cons]; exact mem_cons_of_mem _ hq)
    obtain ⟨hq, hP'⟩ := ih st₁ st' ring₁ ring' hnd₁ hdone₁
      (hP st st₁ ring ring₁ p hst hl hstart hp (hdone p (by simp)) hrel) h₂
    refine ⟨⟨?_, ?_, ?_, ?_⟩, hP'⟩
    · have := hq.le
      rw [hl, length_cons]
      omega
    · rw [hq.left, hl, drop_succ_cons]
    · rw [hq.start, hstart, Nat.mod_add_mod, Nat.add_assoc, Nat.add_comm 1]
    · intro q hmem
      rw [hq.keep q hmem]
      rw [hq.left] at hmem
      exact hother q (mem_of_mem_drop hmem)

theorem Queue.popped {j : Nat} (h : Queue st ev base) (hp : Popped st ev.waitRing j st' ring) (v : Nat → Iovec) :
    Queue st' { ev with vCiov := v, waitRing := ring } (base + j) := by
  have hle := hp.le
  have hlen : ring.toList.length = ev.waitRing.toList.length - j := by rw [hp.left, length_drop]
  refine ⟨?_, ?_, ?_, ?_⟩
  · show ring.rb.pStart = _
    rw [hp.start, h.start, Nat.mod_add_mod]
  · show base + j + ring.toList.length ≤ _
    have := h.total
    omega
  · show ev.ulMsgIdenty = (base + j + ring.toList.length) % _
    rw [h.next]
    congr 1
    omega
  · intro i q hi
    rw [hp.keep q (mem_of_getElem? hi)]
    rw [hp.left, getElem?_drop] at hi
    rw [h.idx (j + i) q hi, Nat.add_assoc]

/-- The first `n` identities of the ring have their replies. -/
def Ready (x : Ctx) (n : Nat) : Prop :=
  n ≤ x.ev.waitRing.toList.length ∧ ∀ p ∈ x.ev.waitRing.toList.take n, (x.st.ids p).iWaitDone = true

/-- The cells of the first `n` identities, when they are done and do not wrap around the array. -/
theorem Inv.cells (h : Inv x replies base) (hr : Ready x n) (hslice : base % maxWaitRingLen + n ≤ maxWaitRingLen) :
    (∀ i, base % maxWaitRingLen ≤ i → i < base % maxWaitRingLen + n → (x.ev.vCiov i).Valid) ∧
      (x.ev.waitRing.toList.take n).map (slot x.st x.ev) =
        ((iovSlice x.ev.vCiov (base % maxWaitRingLen) n).map Iovec.bytes).map some := by
  obtain ⟨hn, hdone⟩ := hr
  have hcell : ∀ j < n, ∃ p, x.ev.waitRing.toList[j]? = some p ∧ p ∈ x.ev.waitRing.toList.take n ∧
      (x.st.ids p).ulIndex % maxWaitRingLen = base % maxWaitRingLen + j := by
    intro j hj
    have hlt : j < x.ev.waitRing.toList.length := by omega
    have hget := getElem?_eq_getElem hlt
    refine ⟨_, hget, mem_iff_getElem?.mpr ⟨j, ?_⟩, ?_⟩
    · rw [getElem?_take, if_pos hj, hget]
    · rw [h.idx j _ hget, ← Nat.mod_add_mod, Nat.mod_eq_of_lt (by omega)]
  constructor
  · intro i hi hin
    obtain ⟨j, rfl⟩ := Nat.exists_eq_add_of_le hi
    obtain ⟨p, -, hp, hc⟩ := hcell j (by omega)
    rw [← hc]
    exact h.valid p (mem_of_mem_take hp) (hdone p hp)
  · apply ext_getElem?
    intro j
    rw [getElem?_map, getElem?_map, getElem?_map, getElem?_take]
    by_cases hj : j < n
    · obtain ⟨p, hget, hp, hc⟩ := hcell j hj
      rw [if_pos hj, hget]
      simp [slot, hdone p hp, hc, iovSlice, hj]
    · rw [if_neg hj]
      simp [iovSlice, hj]

/-- What a write event leaves alone. -/
structure Frame (ev ev' : AccessEvent) : Prop where
  fd : ev'.iFD = ev.iFD
  next : ev'.ulMsgIdenty = ev.ulMsgIdenty
  cache : ev'.pCache = ev.pCache

theorem Frame.rfl : Frame ev ev := ⟨Eq.refl _, Eq.refl _, Eq.refl _⟩

theorem Frame.trans {ev₁ ev₂ : AccessEvent} (h : Frame ev ev₁) (h' : Frame ev₁ ev₂) : Frame ev ev₂ :=
  ⟨h'.fd.trans h.fd, h'.next.trans h.next, h'.cache.trans h.cache⟩

/-- What `Sendv` achieves: it sends `j` replies completely. -/
structure Sent (x : Ctx) (n : Nat) (ret : Ret) (x' : Ctx) (j : Nat) : Prop where
  ring : x'.ev.waitRing.toList = x.ev.waitRing.toList.drop j
  keep : ∀ q ∈ x'.ev.waitRing.toList, x'.st.ids q = x.st.ids q
  ok : ret = .ok → j = n
  mask : x'.ev.mask = x.ev.mask
  frame : Frame x.ev x'.ev

/-- The loop of `Sendv` after `k` accepted bytes. -/
theorem sendvLoop_inv (h : Inv x replies base) {k : Nat} (hr : Ready x n)
    (hslice : base % maxWaitRingLen + n ≤ maxWaitRingLen) {v : Nat → Iovec} {sock : Socket} (hkmax : k ≤ maxRwCount)
    (hk : k ≤ ((iovSlice x.ev.vCiov (base % maxWaitRingLen) n).map Iovec.bytes).flatten.length)
    (hsent : sock.sent = x.sock.sent ++
      (((iovSlice x.ev.vCiov (base % maxWaitRingLen) n).map Iovec.bytes).flatten.take k))
    (hloop : sendvLoop popSent n (base % maxWaitRingLen) k x.ev.vCiov (x.st, x.ev.waitRing) =
      some (ret, v, st, ring)) : ∃ j, Sent x n ret { st, ev := { x.ev with vCiov := v, waitRing := ring }, sock } j ∧
      Inv { st, ev := { x.ev with vCiov := v, waitRing := ring }, sock } replies (base + j) := by
  obtain ⟨hvalid, hslots⟩ := h.cells hr hslice
  have hres := sendvLoop_spec popSent n _ k _ _ _ hvalid hkmax hloop
  set L := (iovSlice x.ev.vCiov (base % maxWaitRingLen) n).map Iovec.bytes with hL
  have hLlen : L.length = n := by rw [hL, length_map, iovSlice_length]
  set j := (consume k L).1
  have hjn : j ≤ n := by
    rw [← hLlen]
    exact consume_le k L
  have hdone : ∀ p ∈ x.ev.waitRing.toList.take j, (x.st.ids p).iWaitDone = true := by
    intro p hp
    exact hr.2 p (take_subset_take_left _ hjn hp)
  have hclosed : PopClosed fun st ring => st.PoolOK ring.toList := by
    intro st st' ring ring' p hok hl _ hp _ hrel
    rw [hl] at hok
    exact hok.release hp (Store.release_some hrel)
  obtain ⟨hpop, hpool⟩ := iterOpt_popSent hclosed j _ _ _ _ h.nodup hdone h.pool hres.sent
  have hlen := x.ev.waitRing.length_le
  have hnlen := hr.1
  have hringlen : ring.toList.length = x.ev.waitRing.toList.length - j := by
    rw [hpop.left, length_drop]
  have hget : ∀ i : Nat, ring.toList[i]? = x.ev.waitRing.toList[j + i]? := by
    intro i
    rw [hpop.left, getElem?_drop]
  have hidx : ∀ i q : Nat, ring.toList[i]? = some q → (st.ids q).ulIndex = base + j + i := by
    intro i q hi
    rw [hpop.keep q (mem_of_getElem? hi), h.idx (j + i) q (by rw [← hget, hi]), Nat.add_assoc]
  -- the identities behind the first `n` keep their cells
  have houter : ∀ i q : Nat, ring.toList[i]? = some q → n ≤ j + i →
      v ((st.ids q).ulIndex % maxWaitRingLen) = x.ev.vCiov ((x.st.ids q).ulIndex % maxWaitRingLen) := by
    intro i q hi hge
    have hilt : i < ring.toList.length := (List.getElem?_eq_some_iff.mp hi).1
    rw [hidx i q hi, h.idx (j + i) q (by rw [← hget, hi]), ← Nat.add_assoc]
    apply hres.frame
    rw [Nat.add_assoc]
    exact mod_outside hge (by omega)
  have hinner : ∀ i q : Nat, ring.toList[i]? = some q → j + i < n →
      (st.ids q).iWaitDone = true ∧ (st.ids q).ulIndex % maxWaitRingLen = base % maxWaitRingLen + j + i := by
    intro i q hi hlt
    constructor
    · rw [hpop.keep q (mem_of_getElem? hi)]
      apply hr.2
      refine mem_iff_getElem?.mpr ⟨j + i, ?_⟩
      rw [getElem?_take, if_pos hlt, ← hget, hi]
    · rw [hidx i q hi, Nat.add_assoc, ← Nat.mod_add_mod, Nat.mod_eq_of_lt (by omega), Nat.add_assoc]
  refine ⟨j, ⟨hpop.left, hpop.keep, ?_, rfl, rfl, rfl, rfl⟩, h.toQueue.popped hpop v, hpool, ?_, ?_⟩
  · intro hok
    rw [hres.ret_eq] at hok
    by_contra hne
    rw [if_neg hne] at hok
    cases hok
  · intro q hq hqd
    obtain ⟨i, hi⟩ := mem_iff_getElem?.mp hq
    rcases Nat.lt_or_ge (j + i) n with hlt | hge
    · rw [(hinner i q hi hlt).2]
      exact hres.valid _ (by omega) (by omega)
    · show (v _).Valid
      rw [houter i q hi hge]
      have hmem : q ∈ x.ev.waitRing.toList := mem_of_getElem? (by rw [← hget, hi])
      apply h.valid q hmem
      rw [← hpop.keep q hq]
      exact hqd
  · have hsplit : x.ev.waitRing.toList.map (slot x.st x.ev) =
        L.map some ++ (x.ev.waitRing.toList.drop n).map (slot x.st x.ev) := by
      rw [← hslots, ← map_append, take_append_drop]
    have horder := h.order
    rw [hsplit] at horder
    have hsend := InOrder.send L base k _ _ horder hk
    have hmap : ring.toList.map (slot st { x.ev with vCiov := v, waitRing := ring }) =
        (consume k L).2.map some ++ (x.ev.waitRing.toList.drop n).map (slot x.st x.ev) := by
      have hrest : (consume k L).2 = (iovSlice v (base % maxWaitRingLen + j) (n - j)).map Iovec.bytes :=
        hres.rest.symm
      apply ext_getElem?
      intro i
      rw [hrest, getElem?_map]
      rcases Nat.lt_or_ge (j + i) n with hlt | hge
      · rw [getElem?_append_left (by simp; omega), getElem?_map, getElem?_map]
        obtain ⟨q, hq⟩ : ∃ q, ring.toList[i]? = some q := ⟨_, getElem?_eq_getElem (by omega)⟩
        obtain ⟨hd, hc⟩ := hinner i q hq hlt
        rw [hq]
        simp [slot, hd, hc, iovSlice, show i < n - j by omega]
      · rw [getElem?_append_right (by simp; omega), getElem?_map, getElem?_drop]
        simp only [length_map, iovSlice_length]
        rw [show n + (i - (n - j)) = j + i by omega, ← hget]
        cases hi : ring.toList[i]? with
        | none => rfl
        | some q =>
          have hout := houter i q hi hge
          rw [hpop.keep q (mem_of_getElem? hi)] at hout
          simp only [map_some, slot, hout, hpop.keep q (mem_of_getElem? hi)]
    rw [hmap, hsent]
    exact hsend

theorem sendv_inv (h : Inv x replies base) (hn : 0 < n) (hr : Ready x n)
    (hslice : base % maxWaitRingLen + n ≤ maxWaitRingLen) (hs : sendv x (base % maxWaitRingLen) n = some (ret, x')) :
    ∃ j, Sent x n ret x' j ∧ Inv x' replies (base + j) := by
  set iov := iovSlice x.ev.vCiov (base % maxWaitRingLen) n with hiov
  have hoff := doSendv_spec iov x.sock
  unfold sendv at hs
  rw [if_neg (by omega), ← hiov] at hs
  dsimp only at hs
  have hnone : ∀ ret', ret' ≠ .ok → (doSendv iov x.sock).2.sent = x.sock.sent →
      Sent x n ret' { x with sock := (doSendv iov x.sock).2 } 0 ∧
        Inv { x with sock := (doSendv iov x.sock).2 } replies base := by
    intro ret' hret hsent
    refine ⟨⟨rfl, fun _ _ => rfl, fun hok => absurd hok hret, rfl, .rfl⟩,
      ⟨h.start, h.total, h.next, h.idx⟩, h.pool, h.valid, ?_⟩
    show InOrder _ _ _ (doSendv iov x.sock).2.sent
    rw [hsent]
    exact h.order
  rcases hoff.code with ⟨hcode, hsent⟩ | ⟨k, hk, hkoff, hkmax, hsent⟩
  · rcases hcode with hcode | hcode
    · rw [hcode, if_pos (by decide), if_neg (by decide)] at hs
      cases hs
      exact ⟨0, hnone _ (by simp) hsent⟩
    · rw [hcode, if_pos (by decide), if_pos (by decide)] at hs
      cases hs
      exact ⟨0, hnone _ (by simp) hsent⟩
  · have hflat : iov.flatMap Iovec.bytes = (iov.map Iovec.bytes).flatten := flatMap_def ..
    have hklen : k ≤ (iov.map Iovec.bytes).flatten.length := by
      rw [← hflat, ← take_append_drop 512 iov, flatMap_append, length_append]
      omega
    rw [take_offered hkoff, hflat] at hsent
    rw [hk] at hs
    split_ifs at hs with h0 h1
    · -- `writev` returned zero, which counts as an error
      cases hs
      refine ⟨0, hnone _ (by simp) ?_⟩
      rw [hsent, show k = 0 by omega, take_zero, append_nil]
    · exact absurd h1 (by unfold grEagain; omega)
    · cases hloop : sendvLoop popSent n (base % maxWaitRingLen) k x.ev.vCiov (x.st, x.ev.waitRing) with
      | none => simp [hloop] at hs
      | some r =>
        simp only [hloop, some.injEq, Prod.mk.injEq] at hs
        obtain ⟨rfl, rfl⟩ := hs
        exact sendvLoop_inv h hr hslice hkmax hklen hsent hloop

/-- A `Sendv` as the queue sees it, whatever the cells hold. -/
theorem sendv_pops (hP : PopClosed P) (h : Queue x.st x.ev base) (hx : P x.st x.ev.waitRing) {iov : Nat}
    (hr : Ready x n) (hs : sendv x iov n = some (ret, x')) :
    ∃ j, Sent x n ret x' j ∧ Queue x'.st x'.ev (base + j) ∧ P x'.st x'.ev.waitRing := by
  unfold sendv at hs
  split_ifs at hs with hn
  · cases hs
    exact ⟨0, ⟨rfl, fun _ _ => rfl, fun _ => hn.symm, rfl, .rfl⟩, h, hx⟩
  · dsimp only at hs
    split_ifs at hs with h0 h1
    · cases hs
      exact ⟨0, ⟨rfl, fun _ _ => rfl, fun hok => absurd hok (by simp), rfl, .rfl⟩, h, hx⟩
    · cases hs
      exact ⟨0, ⟨rfl, fun _ _ => rfl, fun hok => absurd hok (by simp), rfl, .rfl⟩, h, hx⟩
    · cases hloop : sendvLoop popSent n iov (doSendv (iovSlice x.ev.vCiov iov n) x.sock).1 x.ev.vCiov
          (x.st, x.ev.waitRing) with
      | none => simp [hloop] at hs
      | some r =>
        obtain ⟨ret', v, st, ring⟩ := r
        simp only [hloop, some.injEq, Prod.mk.injEq] at hs
        obtain ⟨rfl, rfl⟩ := hs
        obtain ⟨j, hjn, hiter, hok⟩ := sendvLoop_iter popSent _ _ _ _ _ hloop
        obtain ⟨hpop, hx'⟩ := iterOpt_popSent hP j _ _ _ _ h.nodup
          (fun p hp => hr.2 p (take_subset_take_left _ hjn hp)) hx hiter
        exact ⟨j, ⟨hpop.left, hpop.keep, hok, rfl, rfl, rfl, rfl⟩, h.popped hpop v, hx'⟩

end Sendv

/-! ## `Write` -/

section Write

variable {x x' : Ctx} {base : Nat}
variable {e : LoopEnd} {n : Nat}

/-- A property of the connection and the number of requests that have left the ring, which a write
event keeps. -/
structure Stable (J : Ctx → Nat → Prop) : Prop where
  queue : ∀ {x base}, J x base → Queue x.st x.ev base
  mask : ∀ {x base}, J x base → ∀ m, J { x with ev := { x.ev with mask := m } } base
  preGood : ∀ {x base p}, J x base → p ∈ x.ev.waitRing.toList →
    J { x with st := x.st.setId p { x.st.ids p with iPreGood := true } } base
  sendv : ∀ {x x' base n ret}, J x base → 0 < n → Ready x n → base % maxWaitRingLen + n ≤ maxWaitRingLen →
    sendv x (base % maxWaitRingLen) n = some (ret, x') → ∃ j, Sent x n ret x' j ∧ J x' (base + j)

theorem stable_inv (replies : List (Option (List UInt8))) : Stable fun x base => Inv x replies base where
  queue h := h.toQueue
  mask h m := h.mask m
  preGood h hp := h.setId hp rfl rfl
  sendv h hn hr hslice hs := sendv_inv h hn hr hslice hs

/-- What the queue and the store alone say about a write event. -/
theorem stable_queue {P : Store → WaitRing maxWaitRingLen Nat → Prop}
    (hpre : ∀ st p ring, P st ring → P (st.setId p { st.ids p with iPreGood := true }) ring) (hpop : PopClosed P) :
    Stable fun x base => Queue x.st x.ev base ∧ P x.st x.ev.waitRing where
  queue h := h.1
  mask h m := ⟨⟨h.1.start, h.1.total, h.1.next, h.1.idx⟩, h.2⟩
  preGood h hp := by
    refine ⟨h.1.store fun q _ => ?_, hpre _ _ _ h.2⟩
    rw [Store.setId_ids]
    split_ifs with hq
    · rw [hq]
    · rfl
  sendv h _ hr _ hs := sendv_pops hpop h.1 h.2 hr hs

/-- How the loop of `Write` ends: a `Sendv` did not finish, or the first `iSendNum` identities have
their replies and the next one does not. -/
structure Looped (J : Ctx → Nat → Prop) (x : Ctx) (e : LoopEnd) (x' : Ctx) (base : Nat) : Prop where
  inv : J x' base
  out : (∃ iRet, e = .ret iRet ∧ iRet ≠ .ok) ∨
    ∃ iStart iSendNum, e = .rest iStart iSendNum ∧ (0 < iSendNum → iStart = base % maxWaitRingLen) ∧
      Ready x' iSendNum ∧ base % maxWaitRingLen + iSendNum ≤ maxWaitRingLen ∧
      ∀ p, x'.ev.waitRing.toList[iSendNum]? = some p → (x'.st.ids p).iWaitDone = false
  mask : x'.ev.mask = x.ev.mask
  frame : Frame x.ev x'.ev

variable {J : Ctx → Nat → Prop}

theorem Looped.trans {x₁ : Ctx} (h : Looped J x₁ e x' base) (hm : x₁.ev.mask = x.ev.mask) (hf : Frame x.ev x₁.ev) :
    Looped J x e x' base :=
  ⟨h.inv, h.out, h.mask.trans hm, hf.trans h.frame⟩

/-- Marking an identity as good does not change which ones are done. -/
theorem setPreGood_done (st : Store) (p q : Nat) :
    ((st.setId p { st.ids p with iPreGood := true }).ids q).iWaitDone = (st.ids q).iWaitDone := by
  by_cases hq : q = p
  · subst hq
    rw [Store.setId_ids_self]
  · rw [Store.setId_ids_ne _ hq]

theorem Ready.preGood (h : Ready x n) (p : Nat) :
    Ready { x with st := x.st.setId p { x.st.ids p with iPreGood := true } } n := by
  refine ⟨h.1, fun q hq => ?_⟩
  rw [setPreGood_done]
  exact h.2 q hq

theorem Ready.succ {p : Nat} (h : Ready x n) (hp : x.ev.waitRing.toList[n]? = some p)
    (hd : (x.st.ids p).iWaitDone = true) : Ready x (n + 1) := by
  obtain ⟨hlt, hget⟩ := List.getElem?_eq_some_iff.mp hp
  refine ⟨hlt, fun q hq => ?_⟩
  rw [take_succ_eq_append_getElem hlt, hget] at hq
  rcases mem_append.mp hq with hq | hq
  · exact h.2 q hq
  · rw [mem_singleton.mp hq]
    exact hd

theorem Ready.zero (x : Ctx) : Ready x 0 := ⟨Nat.zero_le _, fun _ hq => nomatch hq⟩

/-- After the flush at the end of the array `GETDATA(0)` finds the front of the ring, whether the
array or the 64-bit index has wrapped. -/
theorem Queue.getData_zero (h : Queue x.st x.ev base)
    (hbase : base % maxWaitRingLen = 0 ∨ base = uint64Size) :
    x.ev.waitRing.getData 0 = x.ev.waitRing.toList[0]? := by
  rcases hbase with h0 | hmax
  · apply WaitRing.getData_eq _ maxWaitRingLen_pos
    rw [h.start, h0]
  · have hnil : x.ev.waitRing.toList = [] := by
      apply eq_nil_of_length_eq_zero
      have := h.total
      omega
    have hcell : 0 % maxWaitRingLen = (x.ev.waitRing.rb.pStart + (maxWaitRingLen - 16)) % maxWaitRingLen := by
      rw [h.start, hmax]
      decide
    rw [WaitRing.getData_eq x.ev.waitRing (by decide) hcell, hnil]
    rfl

theorem writeLoop_inv (hJ : Stable J) (self : Nat) : ∀ (n p a : Nat) (x : Ctx) (base : Nat), J x base →
    Ready x a → x.ev.waitRing.toList[a]? = some p → base % maxWaitRingLen + a < maxWaitRingLen →
    x.ev.waitRing.toList.length ≤ n + a → writeLoop self n p (base % maxWaitRingLen) a x = some (e, x') →
      ∃ base', Looped J x e x' base' := by
  intro n
  induction n with
  | zero =>
    intro p a x base _ _ hp _ hlen _
    have := (List.getElem?_eq_some_iff.mp hp).1
    omega
  | succ n ih =>
    intro p a x base h hr hp hwin hlen hw
    have hq := hJ.queue h
    have hidx := hq.idx a p hp
    have hmem : p ∈ x.ev.waitRing.toList := mem_of_getElem? hp
    have halt : a < x.ev.waitRing.toList.length := (List.getElem?_eq_some_iff.mp hp).1
    have htotal := hq.total
    set x₁ : Ctx := { x with st := x.st.setId p { x.st.ids p with iPreGood := true } } with hx₁
    have h₁ : J x₁ base := hJ.preGood h hmem
    have hr₁ : Ready x₁ a := hr.preGood p
    rw [writeLoop] at hw
    dsimp only at hw
    split_ifs at hw with howner hdone hwrap
    · -- the reply of this identity is missing
      cases hw
      refine ⟨base, h₁, .inr ⟨_, _, rfl, fun _ => rfl, hr₁, hwin.le, ?_⟩, rfl, .rfl⟩
      intro q hq
      obtain rfl : p = q := some.inj (hp.symm.trans hq)
      rw [setPreGood_done]
      exact hdone
    · -- the last cell of the array
      have hready : Ready x₁ (a + 1) := hr₁.succ hp (by rw [setPreGood_done]; simpa using hdone)
      cases hs : sendv x₁ (base % maxWaitRingLen) (a + 1) with
      | none => simp [← hx₁, hs] at hw
      | some r =>
        obtain ⟨iRet, x₂⟩ := r
        obtain ⟨j, hj, hJ₂⟩ := hJ.sendv h₁ (Nat.succ_pos a) hready (by omega) hs
        simp only [← hx₁, hs] at hw
        split_ifs at hw with hok
        · cases hw
          exact ⟨_, hJ₂, .inl ⟨_, rfl, hok⟩, hj.mask, hj.frame⟩
        · obtain rfl := hj.ok (not_not.mp hok)
          have hbase : (base + (a + 1)) % maxWaitRingLen = 0 ∨ base + (a + 1) = uint64Size := by
            rw [hidx] at hwrap
            by_cases hmax : base + (a + 1) = uint64Size
            · exact .inr hmax
            · rw [Nat.mod_eq_of_lt (show base + a + 1 < uint64Size by omega)] at hwrap
              exact .inl hwrap
          have hdata := (hJ.queue hJ₂).getData_zero hbase
          cases hg : x₂.ev.waitRing.getData 0 with
          | none =>
            simp only [hg, some.injEq, Prod.mk.injEq] at hw
            obtain ⟨rfl, rfl⟩ := hw
            refine ⟨_, hJ₂, .inr ⟨_, _, rfl, fun h0 => absurd h0 (by simp), Ready.zero _, ?_, ?_⟩,
              hj.mask, hj.frame⟩
            · rw [Nat.add_zero]
              exact (Nat.mod_lt _ maxWaitRingLen_pos).le
            · intro q hq
              rw [← hdata, hg] at hq
              cases hq
          | some q =>
            simp only [hg] at hw
            rw [hg] at hdata
            have h0 : (base + (a + 1)) % maxWaitRingLen = 0 := by
              rcases hbase with h0 | hmax
              · exact h0
              · have := (List.getElem?_eq_some_iff.mp hdata.symm).1
                have := (hJ.queue hJ₂).total
                omega
            have hlen₂ : x₂.ev.waitRing.toList.length = x.ev.waitRing.toList.length - (a + 1) := by
              rw [hj.ring, length_drop]
            obtain ⟨base', hl⟩ := ih q 0 x₂ _ hJ₂ (Ready.zero _) hdata.symm
              (by rw [h0]; exact maxWaitRingLen_pos) (by omega) (by rw [h0]; exact hw)
            exact ⟨base', hl.trans hj.mask hj.frame⟩
    · have hready : Ready x₁ (a + 1) := hr₁.succ hp (by rw [setPreGood_done]; simpa using hdone)
      have hul : ((x.st.ids p).ulIndex + 1) % uint64Size = base + a + 1 := by
        rcases Nat.lt_or_ge (base + a + 1) uint64Size with hlt | hge
        · rw [hidx, Nat.mod_eq_of_lt hlt]
        · refine absurd ?_ hwrap
          rw [hidx, show base + a + 1 = uint64Size by omega, Nat.mod_self, Nat.zero_mod]
      rw [hul] at hwrap hw
      have hwin' : base % maxWaitRingLen + (a + 1) < maxWaitRingLen := by
        rcases Nat.lt_or_ge (base % maxWaitRingLen + (a + 1)) maxWaitRingLen with hlt | hge
        · exact hlt
        · refine absurd ?_ hwrap
          rw [Nat.add_assoc, ← Nat.mod_add_mod, show base % maxWaitRingLen + (a + 1) = maxWaitRingLen by omega,
            Nat.mod_self]
      have hdata : x.ev.waitRing.getData (base + a + 1) = x.ev.waitRing.toList[a + 1]? := by
        apply WaitRing.getData_eq _ (by omega)
        rw [hq.start, Nat.mod_add_mod, Nat.add_assoc]
      rw [hdata] at hw
      cases hg : x.ev.waitRing.toList[a + 1]? with
      | none =>
        simp only [hg, some.injEq, Prod.mk.injEq] at hw
        obtain ⟨rfl, rfl⟩ := hw
        refine ⟨base, h₁, .inr ⟨_, _, rfl, fun _ => rfl, hready, hwin'.le, ?_⟩, rfl, .rfl⟩
        intro q hq
        exact absurd (hg.symm.trans hq) (by simp)
      | some q =>
        simp only [hg] at hw
        obtain ⟨base', hl⟩ := ih q (a + 1) x₁ base h₁ hready hg hwin' (by
          show x.ev.waitRing.toList.length ≤ n + (a + 1)
          omega) hw
        exact ⟨base', hl.trans rfl .rfl⟩

/-- What a write event does: write interest is dropped only if the front identity has no reply. -/
structure Written (J : Ctx → Nat → Prop) (x x' : Ctx) (base : Nat) : Prop where
  inv : J x' base
  frame : Frame x.ev x'.ev
  mask : x'.ev.mask = x.ev.mask ∨
    ∀ p, x'.ev.waitRing.toList[0]? = some p → (x'.st.ids p).iWaitDone = false

theorem write_inv (hJ : Stable J) {self : Nat} (h : J x base) {ret : Ret} (hw : write self x = some (ret, x')) :
    ∃ base', Written J x x' base' := by
  unfold write at hw
  split_ifs at hw with hfd
  · cases hw
    exact ⟨base, h, .rfl, .inl rfl⟩
  · rw [WaitRing.getFront_eq] at hw
    cases hl : x.ev.waitRing.toList with
    | nil =>
      simp only [hl, head?_nil, some.injEq, Prod.mk.injEq] at hw
      obtain ⟨rfl, rfl⟩ := hw
      refine ⟨base, hJ.mask h _, ⟨rfl, rfl, rfl⟩, .inr ?_⟩
      intro p hp
      rw [hl] at hp
      cases hp
    | cons p l =>
      have hp : x.ev.waitRing.toList[0]? = some p := by rw [hl]; rfl
      have hidx := (hJ.queue h).idx 0 p hp
      rw [Nat.add_zero] at hidx
      rw [hl, head?_cons] at hw
      simp only [hidx] at hw
      cases hloop : writeLoop self x.ev.waitRing.getNum p (base % maxWaitRingLen) 0 x with
      | none =>
        rw [hloop] at hw
        cases hw
      | some r =>
        obtain ⟨e, x₁⟩ := r
        obtain ⟨base₁, hlooped⟩ := writeLoop_inv hJ self _ p 0 x base h (Ready.zero x) hp
          (Nat.mod_lt _ maxWaitRingLen_pos) (by rw [WaitRing.getNum_eq]; omega) hloop
        rcases hlooped.out with ⟨iRet, rfl, hne⟩ | ⟨iStart, m, rfl, hstart, hready, hwin, hnext⟩
        · simp only [hloop, some.injEq, Prod.mk.injEq] at hw
          obtain ⟨rfl, rfl⟩ := hw
          exact ⟨base₁, hlooped.inv, hlooped.frame, .inl hlooped.mask⟩
        · simp only [hloop] at hw
          split_ifs at hw with hm
          · rw [hstart hm] at hw
            cases hs : sendv x₁ (base₁ % maxWaitRingLen) m with
            | none => simp [hs] at hw
            | some r =>
              obtain ⟨j, hj, hJ₂⟩ := hJ.sendv hlooped.inv hm hready hwin hs
              simp only [hs] at hw
              split_ifs at hw with hok
              · cases hw
                obtain rfl := hj.ok hok
                refine ⟨_, hJ.mask hJ₂ _, ?_, .inr ?_⟩
                · exact hlooped.frame.trans ⟨hj.frame.fd, hj.frame.next, hj.frame.cache⟩
                intro q hq
                rw [hj.keep q (mem_of_getElem? hq)]
                apply hnext
                rw [hj.ring, getElem?_drop, Nat.add_zero] at hq
                exact hq
              · cases hw
                exact ⟨_, hJ₂, hlooped.frame.trans hj.frame, .inl (hj.mask.trans hlooped.mask)⟩
          · cases hw
            exact ⟨base₁, hlooped.inv, hlooped.frame, .inl hlooped.mask⟩

end Write

end RedisProxy.AccessEvent
