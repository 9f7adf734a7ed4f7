import RedisProxy.IdentyFlow

/-!
# Proofs: the flow of identities

What every step of the flow keeps: `Wf` says that the pool, the clients and the backends agree about
who holds an identity.
-/

namespace RedisProxy

open List Function

/-! ## Counting places -/

namespace Flow

variable (v : Flow)

@[simp] theorem setId_ids_self (p : Nat) (t : Token) : (v.setId p t).ids p = t := update_self ..

theorem setId_ids_ne {p q : Nat} (h : q ≠ p) (t : Token) : (v.setId p t).ids q = v.ids q :=
  update_of_ne h ..

theorem setId_ids (p q : Nat) (t : Token) : (v.setId p t).ids q = if q = p then t else v.ids q :=
  update_apply ..

/-- Replacing the ring of one backend. -/
theorem inFlight_setRing {v w : Flow} {b : Nat} {l : List Nat} (hb : b < v.nBackends)
    (hn : w.nBackends = v.nBackends) (hr : w.redisRing = Function.update v.redisRing b l) (q : Nat) :
    w.inFlight q + (v.redisRing b).count q = v.inFlight q + l.count q := by
  have hmem : b ∈ Finset.range v.nBackends := Finset.mem_range.mpr hb
  have hother : ∀ x ∈ (Finset.range v.nBackends).erase b, (w.redisRing x).count q = (v.redisRing x).count q := by
    intro x hx
    rw [hr, update_of_ne (Finset.ne_of_mem_erase hx)]
  unfold inFlight
  rw [hn, ← Finset.add_sum_erase _ _ hmem, ← Finset.add_sum_erase _ (fun x => (v.redisRing x).count q) hmem,
    Finset.sum_congr rfl hother, hr, update_self]
  omega

/-- The count only depends on the rings. -/
theorem inFlight_congr {v w : Flow} (hn : w.nBackends = v.nBackends) (hr : w.redisRing = v.redisRing) (q : Nat) :
    w.inFlight q = v.inFlight q := by
  unfold inFlight
  rw [hn, hr]

theorem count_le_inFlight {b : Nat} (hb : b < v.nBackends) (q : Nat) : (v.redisRing b).count q ≤ v.inFlight q :=
  Finset.single_le_sum (f := fun b => (v.redisRing b).count q) (fun _ _ => Nat.zero_le _) (Finset.mem_range.mpr hb)

/-- An identity with a place is in some ring. -/
theorem exists_of_inFlight {q : Nat} (h : 1 ≤ v.inFlight q) : ∃ b < v.nBackends, q ∈ v.redisRing b := by
  by_contra hcon
  have hzero : v.inFlight q = 0 := by
    apply Finset.sum_eq_zero
    intro b hb
    apply count_eq_zero_of_not_mem
    intro hmem
    exact hcon ⟨b, Finset.mem_range.mp hb, hmem⟩
  omega

end Flow

/-! ## Well-formedness -/

/-- The requests of one client wait in the order of their indices. -/
structure Flow.ClientQueue (v : Flow) (c base : Nat) : Prop where
  start : v.clientStart c = base % maxWaitRingLen
  total : base + (v.clientRing c).length ≤ uint64Size
  next : v.clientNext c = (base + (v.clientRing c).length) % uint64Size
  idx : ∀ j p, (v.clientRing c)[j]? = some p → (v.ids p).ulIndex = base + j

/-- The pool, the clients and the backends agree about the identities. -/
structure Flow.Wf (v : Flow) : Prop where
  static : ∀ p, (v.ids p).iStaticFlag = true ↔ p = Store.askingIdenty
  asking : ¬v.Idle Store.askingIdenty ∧ (v.ids Store.askingIdenty).pAccessEvent = none
  client : ∀ c p, (v.ids p).pAccessEvent = some (.client c) ↔ p ∈ v.clientRing c
  queue : ∀ c, ∃ base, v.ClientQueue c base
  idle : ∀ p, v.Idle p → (v.ids p).pAccessEvent = none ∧ (v.ids p).pRedisEvent = none ∧ (v.ids p).hasReq = false
  fresh : ∀ p ∈ v.buffer, (v.ids p).iNeedWaitNum ≤ 1 ∧ (v.ids p).iGotNum = 0 ∧ (v.ids p).iWaitDone = false ∧
    (v.ids p).replies = []
  bufferNodup : v.buffer.Nodup
  buffer_lt : ∀ p ∈ v.buffer, p < v.nextId ∧ p ∉ v.deleted
  deleted_lt : ∀ p ∈ v.deleted, p < v.nextId
  empty : ∀ b, v.nBackends ≤ b → v.redisRing b = []

namespace Flow

variable {v w : Flow}

theorem ClientQueue.index_inj {c base : Nat} (h : v.ClientQueue c base) {i j p : Nat}
    (hi : (v.clientRing c)[i]? = some p) (hj : (v.clientRing c)[j]? = some p) : i = j := by
  have h1 := h.idx i p hi
  have h2 := h.idx j p hj
  omega

theorem ClientQueue.nodup {c base : Nat} (h : v.ClientQueue c base) : (v.clientRing c).Nodup := by
  rw [nodup_iff_injective_getElem]
  intro i j hij
  dsimp only at hij
  exact Fin.ext (h.index_inj (getElem?_eq_getElem i.2) (by rw [getElem?_eq_getElem j.2, ← hij]))

/-- The queue only depends on its ring and on the indices in it. -/
theorem ClientQueue.congr {c base : Nat} (h : v.ClientQueue c base) (hr : w.clientRing c = v.clientRing c)
    (hs : w.clientStart c = v.clientStart c) (hn : w.clientNext c = v.clientNext c)
    (hi : ∀ p ∈ v.clientRing c, (w.ids p).ulIndex = (v.ids p).ulIndex) : w.ClientQueue c base := by
  refine ⟨hs.trans h.start, ?_, ?_, ?_⟩
  · rw [hr]
    exact h.total
  · rw [hr, hn]
    exact h.next
  · intro j p hj
    rw [hr] at hj
    exact (hi p (mem_of_getElem? hj)).trans (h.idx j p hj)

theorem ClientQueue.tail {c base p : Nat} {l : List Nat} (h : v.ClientQueue c base) (hc : v.clientRing c = p :: l) :
    (v.popClient c).ClientQueue c (base + 1) := by
  have hring : (v.popClient c).clientRing c = l := by simp [popClient, hc]
  refine ⟨?_, ?_, ?_, ?_⟩
  · simp [popClient, h.start]
  · have := h.total
    rw [hring]
    rw [hc, length_cons] at this
    omega
  · rw [hring]
    show v.clientNext c = _
    rw [h.next, hc, length_cons]
    congr 1
    omega
  · intro j q hj
    rw [hring] at hj
    have := h.idx (j + 1) q (by rw [hc]; exact hj)
    show (v.ids q).ulIndex = _
    omega

namespace Wf

/-- An identity that some side holds is in use. -/
theorem not_idle (h : v.Wf) {p : Nat} (hp : (v.ids p).pAccessEvent ≠ none ∨ (v.ids p).pRedisEvent ≠ none ∨
    (v.ids p).iStaticFlag = true) : ¬v.Idle p := by
  intro hidle
  obtain ⟨ha, hr, -⟩ := h.idle p hidle
  rcases hp with hp | hp | hp
  · exact hp ha
  · exact hp hr
  · rw [(h.static p).mp hp] at hidle
    exact h.asking.1 hidle

/-- Writing an identity in use, but not who owns it, its index, or whether it is static. -/
theorem setId (h : v.Wf) {p : Nat} {t : Token} (hp : ¬v.Idle p ∨ t = v.ids p)
    (ha : t.pAccessEvent = (v.ids p).pAccessEvent) (hi : t.ulIndex = (v.ids p).ulIndex)
    (hs : t.iStaticFlag = (v.ids p).iStaticFlag) : (v.setId p t).Wf := by
  rcases hp with hp | rfl
  · have hacc : ∀ q, ((v.setId p t).ids q).pAccessEvent = (v.ids q).pAccessEvent := by
      intro q
      rw [setId_ids]
      split_ifs with hq
      · rw [hq, ha]
      · rfl
    have hother : ∀ q, v.Idle q → (v.setId p t).ids q = v.ids q := by
      intro q hq
      apply setId_ids_ne
      rintro rfl
      exact hp hq
    refine ⟨?_, ⟨h.asking.1, (hacc _).trans h.asking.2⟩, ?_, ?_, ?_, ?_, h.bufferNodup, h.buffer_lt, h.deleted_lt,
      h.empty⟩
    · intro q
      rw [← h.static q, setId_ids]
      split_ifs with hq
      · rw [hq, hs]
      · rfl
    · intro c q
      rw [hacc q]
      exact h.client c q
    · intro c
      obtain ⟨base, hq⟩ := h.queue c
      refine ⟨base, hq.congr rfl rfl rfl fun q _ => ?_⟩
      rw [setId_ids]
      split_ifs with hqp
      · rw [hqp, hi]
      · rfl
    · intro q hq
      rw [hother q hq]
      exact h.idle q hq
    · intro q hq
      rw [hother q (.inl hq)]
      exact h.fresh q hq
  · have hsame : v.setId p (v.ids p) = v := by simp [Flow.setId]
    rw [hsame]
    exact h

/-- Changing the rings of the backends. -/
theorem setRing (h : v.Wf) {ring tags : Nat → List Nat} (hr : ∀ b, v.nBackends ≤ b → ring b = []) :
    ({ v with redisRing := ring, tags := tags } : Flow).Wf :=
  ⟨h.static, h.asking, h.client, fun c => (h.queue c).imp fun _ hq => hq.congr rfl rfl rfl fun _ _ => rfl, h.idle,
    h.fresh, h.bufferNodup, h.buffer_lt, h.deleted_lt, hr⟩

theorem ring_lt (h : v.Wf) {b p : Nat} (hp : p ∈ v.redisRing b) : b < v.nBackends := by
  by_contra hge
  rw [h.empty b (Nat.not_lt.mp hge)] at hp
  exact absurd hp (not_mem_nil)

end Wf

end Flow

/-! ## Single operations -/

namespace Token

variable (t : Token)

theorem reply_of_not_client (m : List UInt8) (h : ¬t.OfClient) : t.reply m = t := by
  unfold reply
  split
  · rename_i c hc
    exact absurd ⟨c, hc⟩ h
  · rfl

theorem reply_keep (m : List UInt8) :
    (t.reply m).pAccessEvent = t.pAccessEvent ∧ (t.reply m).pRedisEvent = t.pRedisEvent ∧
    (t.reply m).iNeedWaitNum = t.iNeedWaitNum ∧ (t.reply m).iBroadcast = t.iBroadcast ∧
    (t.reply m).iStaticFlag = t.iStaticFlag ∧ (t.reply m).ulIndex = t.ulIndex := by
  unfold reply
  split <;> exact ⟨rfl, rfl, rfl, rfl, rfl, rfl⟩

theorem reply_of_client (m : List UInt8) (h : t.OfClient) :
    t.reply m =
      { t with
        iGotNum := t.iGotNum + 1
        iWaitDone := t.iWaitDone || !decide t.Partial
        replies := t.replies ++ [(m, !decide t.Partial)] } := by
  obtain ⟨c, hc⟩ := h
  unfold reply
  rw [hc]

end Token

namespace Flow

variable {v : Flow}

theorem Wf.reply (h : v.Wf) (p : Nat) (m : List UInt8) : (v.reply p m).Wf := by
  obtain ⟨ha, -, -, -, hs, hi⟩ := (v.ids p).reply_keep m
  apply h.setId _ ha hi hs
  by_cases hp : (v.ids p).OfClient
  · obtain ⟨c, hc⟩ := hp
    left
    exact h.not_idle (.inl (by rw [hc]; simp))
  · exact .inr (Token.reply_of_not_client _ m hp)

/-- Recycling an identity that nobody holds. -/
theorem Wf.recycle (h : v.Wf) {p : Nat} (hp : ¬v.Idle p) (ha : (v.ids p).pAccessEvent = none)
    (hr : (v.ids p).pRedisEvent = none) : (v.recycle p).Wf := by
  have hcl : ∀ c, p ∉ v.clientRing c := by
    intro c hmem
    rw [(h.client c p).mpr hmem] at ha
    exact absurd ha (by simp)
  unfold Flow.recycle
  split_ifs with hs hfull
  · exact h.setId (.inl hp) rfl rfl rfl
  · -- the pool is full
    have h' := h.setId (t := { v.ids p with hasReq := false }) (.inl hp) rfl rfl rfl
    have hp0 : p ≠ Store.askingIdenty := fun h0 => hs ((h.static p).mpr h0)
    have hlt : p < v.nextId := by
      by_contra hge
      exact hp (.inr (.inr (Nat.not_lt.mp hge)))
    refine ⟨h'.static, ⟨?_, h'.asking.2⟩, h'.client, fun c => (h'.queue c).imp fun _ hq => hq.congr rfl rfl rfl
      fun _ _ => rfl, ?_, h'.fresh, h'.bufferNodup, ?_, ?_, h'.empty⟩
    · rintro (hmem | hmem | hmem)
      · exact h'.asking.1 (.inl hmem)
      · rcases mem_cons.mp hmem with h0 | hmem
        · exact hp0 h0.symm
        · exact h'.asking.1 (.inr (.inl hmem))
      · exact h'.asking.1 (.inr (.inr hmem))
    · intro q hq
      by_cases hqp : q = p
      · subst hqp
        simp [Flow.setId, ha, hr]
      · apply h'.idle
        rcases hq with hq | hq | hq
        · exact .inl hq
        · exact .inr (.inl ((mem_cons.mp hq).resolve_left hqp))
        · exact .inr (.inr hq)
    · intro q hq
      refine ⟨(h.buffer_lt q hq).1, ?_⟩
      intro hmem
      rcases mem_cons.mp hmem with rfl | hmem
      · exact hp (.inl hq)
      · exact (h.buffer_lt q hq).2 hmem
    · intro q hq
      rcases mem_cons.mp hq with rfl | hq
      · exact hlt
      · exact h.deleted_lt q hq
  · have hp0 : p ≠ Store.askingIdenty := fun h0 => hs ((h.static p).mpr h0)
    have hlt : p < v.nextId := by
      by_contra hge
      exact hp (.inr (.inr (Nat.not_lt.mp hge)))
    have hids : ∀ q, q ≠ p → (v.setId p MsgIdenty.zero.token).ids q = v.ids q :=
      fun q hq => setId_ids_ne _ hq _
    have hmemb : ∀ q, q ≠ p → (q ∈ v.buffer ++ [p] ↔ q ∈ v.buffer) := by
      intro q hq
      simp [hq]
    refine ⟨?_, ⟨?_, ?_⟩, ?_, ?_, ?_, ?_, ?_, ?_, h.deleted_lt, h.empty⟩
    · intro q
      by_cases hqp : q = p
      · subst hqp
        simp only [setId_ids_self]
        exact ⟨fun hz => absurd hz (by decide), fun h0 => absurd h0 hp0⟩
      · rw [hids q hqp]
        exact h.static q
    · rintro (hmem | hmem | hmem)
      · exact h.asking.1 (.inl ((hmemb _ (Ne.symm hp0)).mp hmem))
      · exact h.asking.1 (.inr (.inl hmem))
      · exact h.asking.1 (.inr (.inr hmem))
    · rw [hids _ (Ne.symm hp0)]
      exact h.asking.2
    · intro c q
      by_cases hqp : q = p
      · subst hqp
        exact ⟨fun hz => absurd hz (by simp [MsgIdenty.token, MsgIdenty.zero]), fun hmem => absurd hmem (hcl c)⟩
      · rw [hids q hqp]
        exact h.client c q
    · intro c
      obtain ⟨base, hq⟩ := h.queue c
      refine ⟨base, hq.congr rfl rfl rfl fun q hmem => ?_⟩
      have hqp : q ≠ p := by
        rintro rfl
        exact hcl c hmem
      rw [hids q hqp]
    · intro q hq
      by_cases hqp : q = p
      · subst hqp
        simp only [setId_ids_self]
        exact ⟨rfl, rfl, rfl⟩
      · rw [hids q hqp]
        apply h.idle
        rcases hq with hq | hq | hq
        · exact .inl ((hmemb q hqp).mp hq)
        · exact .inr (.inl hq)
        · exact .inr (.inr hq)
    · intro q hq
      by_cases hqp : q = p
      · subst hqp
        simp only [setId_ids_self]
        exact ⟨by decide, rfl, rfl, rfl⟩
      · rw [hids q hqp]
        exact h.fresh q ((hmemb q hqp).mp hq)
    · rw [nodup_append]
      refine ⟨h.bufferNodup, nodup_singleton p, ?_⟩
      intro a ha' b hb
      rw [mem_singleton.mp hb]
      rintro rfl
      exact hp (.inl ha')
    · intro q hq
      by_cases hqp : q = p
      · subst hqp
        exact ⟨hlt, fun hmem => hp (.inr (.inl hmem))⟩
      · exact h.buffer_lt q ((hmemb q hqp).mp hq)

theorem Wf.release_redis (h : v.Wf) {p : Nat} (hp : (v.ids p).pAccessEvent ≠ none ∨
    (v.ids p).pRedisEvent ≠ none ∨ (v.ids p).iStaticFlag = true) : (v.release .redis p).Wf := by
  have hidle := h.not_idle hp
  have h' : (v.setId p ((v.ids p).letGo .redis)).Wf := h.setId (.inl hidle) rfl rfl rfl
  unfold Flow.release
  dsimp only
  split_ifs with hnone
  · exact h'.recycle hidle (by rw [setId_ids_self]; exact hnone.1) (by rw [setId_ids_self]; exact hnone.2)
  · exact h'

/-- The identity that leaves the ring of its client. -/
theorem Wf.leave (h : v.Wf) {c p : Nat} {l : List Nat} (hc : v.clientRing c = p :: l) :
    ((v.popClient c).release .access p).Wf := by
  have hp : (v.ids p).pAccessEvent = some (.client c) := (h.client c p).mpr (by rw [hc]; simp)
  have hidle : ¬v.Idle p := h.not_idle (.inl (by rw [hp]; simp))
  obtain ⟨base, hq⟩ := h.queue c
  have hnd := hq.nodup
  rw [hc] at hnd
  obtain ⟨hpl, -⟩ := nodup_cons.mp hnd
  have hring : ∀ c', ((v.popClient c).clientRing c') = if c' = c then l else v.clientRing c' := by
    intro c'
    simp only [popClient, update_apply, hc, tail_cons]
  have hsub : ∀ c' q, q ∈ (v.popClient c).clientRing c' → q ∈ v.clientRing c' := by
    intro c' q hq'
    rw [hring c'] at hq'
    split_ifs at hq' with hcc
    · rw [hcc, hc]
      exact mem_cons_of_mem _ hq'
    · exact hq'
  have hpout : ∀ c', p ∉ (v.popClient c).clientRing c' := by
    intro c' hmem
    have hcc : c' = c := by
      have := (h.client c' p).mpr (hsub c' p hmem)
      rw [hp] at this
      simpa using this.symm
    rw [hring c', if_pos hcc] at hmem
    exact hpl hmem
  have h' : ((v.popClient c).setId p ((v.ids p).letGo .access)).Wf := by
    refine ⟨?_, ⟨h.asking.1, ?_⟩, ?_, ?_, ?_, ?_, h.bufferNodup, h.buffer_lt, h.deleted_lt, h.empty⟩
    · intro q
      rw [← h.static q, setId_ids]
      split_ifs with hqp
      · rw [hqp]
        rfl
      · rfl
    · rw [setId_ids]
      split_ifs
      · rfl
      · exact h.asking.2
    · intro c' q
      rw [setId_ids]
      split_ifs with hqp
      · subst hqp
        exact ⟨fun hn => absurd hn (by simp [Token.letGo]), fun hmem => absurd hmem (hpout c')⟩
      · rw [show (v.popClient c).ids q = v.ids q from rfl, h.client c' q]
        show q ∈ v.clientRing c' ↔ q ∈ (v.popClient c).clientRing c'
        rw [hring c']
        split_ifs with hcc
        · rw [hcc, hc, mem_cons]
          exact ⟨fun hm => hm.resolve_left hqp, .inr⟩
        · exact Iff.rfl
    · intro c'
      by_cases hcc : c' = c
      · subst hcc
        refine ⟨base + 1, (hq.tail hc).congr rfl rfl rfl fun q hmem => ?_⟩
        have hqp : q ≠ p := by
          rintro rfl
          exact hpout _ hmem
        rw [setId_ids_ne _ hqp]
      · obtain ⟨base', hq'⟩ := h.queue c'
        refine ⟨base', hq'.congr ?_ ?_ rfl fun q hmem => ?_⟩
        · show (v.popClient c).clientRing c' = _
          rw [hring c', if_neg hcc]
        · simp [popClient, Flow.setId, hcc]
        · rw [setId_ids]
          split_ifs with hqp
          · rw [hqp]
            rfl
          · rfl
    · intro q hidl
      rw [setId_ids_ne _ (by rintro rfl; exact hidle hidl)]
      exact h.idle q hidl
    · intro q hmem
      rw [setId_ids_ne _ (by rintro rfl; exact hidle (.inl hmem))]
      exact h.fresh q hmem
  unfold Flow.release
  dsimp only
  split_ifs with hnone
  · refine h'.recycle hidle ?_ ?_
    · rw [setId_ids_self]
      rfl
    · rw [setId_ids_self]
      exact hnone.2
  · exact h'

/-! ## `Get` -/

theorem nextIdenty_idle : v.Idle v.nextIdenty := by
  unfold nextIdenty
  cases hb : v.buffer with
  | nil => exact .inr (.inr le_rfl)
  | cons p l => exact .inl (by rw [hb]; simp)

theorem take_ids (t : Token) (q : Nat) : (v.take t).ids q = if q = v.nextIdenty then t else v.ids q :=
  setId_ids ..

/-- After `Get` the identity is in use, and no other one. -/
theorem Wf.take_idle (h : v.Wf) (t : Token) (q : Nat) :
    (v.take t).Idle q ↔ v.Idle q ∧ q ≠ v.nextIdenty := by
  have hnd := h.bufferNodup
  have hlt := h.buffer_lt
  have hdel := h.deleted_lt
  unfold take Idle
  cases hb : v.buffer with
  | nil =>
    have hnext : v.nextIdenty = v.nextId := by simp [nextIdenty, hb]
    simp only [tail_nil, if_true, hnext, not_mem_nil, false_or]
    constructor
    · rintro (hq | hq)
      · exact ⟨.inl hq, Nat.ne_of_lt (hdel q hq)⟩
      · exact ⟨.inr (by omega), by omega⟩
    · rintro ⟨hq | hq, hne⟩
      · exact .inl hq
      · exact .inr (by omega)
  | cons p l =>
    have hnext : v.nextIdenty = p := by simp [nextIdenty, hb]
    rw [hb] at hnd hlt
    obtain ⟨hp, -⟩ := nodup_cons.mp hnd
    obtain ⟨hplt, hpd⟩ := hlt p (by simp)
    simp only [tail_cons, hnext, cons_ne_nil, if_false]
    constructor
    · rintro (hq | hq | hq)
      · refine ⟨.inl (mem_cons_of_mem _ hq), ?_⟩
        rintro rfl
        exact hp hq
      · refine ⟨.inr (.inl hq), ?_⟩
        rintro rfl
        exact hpd hq
      · exact ⟨.inr (.inr hq), by omega⟩
    · rintro ⟨hq | hq, hne⟩
      · exact .inl ((mem_cons.mp hq).resolve_left hne)
      · exact .inr hq

/-- `Get` hands out blank identities. -/
structure Blank (t : Token) : Prop where
  access : t.pAccessEvent = none
  redis : t.pRedisEvent = none
  need : t.iNeedWaitNum ≤ 1
  got : t.iGotNum = 0
  done : t.iWaitDone = false
  broadcast : t.iBroadcast = false
  static : t.iStaticFlag = false
  replies : t.replies = []

theorem Wf.fetched_blank (h : v.Wf) : Blank v.fetched := by
  unfold fetched
  split_ifs with hb
  · exact ⟨rfl, rfl, by decide, rfl, rfl, rfl, rfl, rfl⟩
  · have hmem : v.nextIdenty ∈ v.buffer := by
      unfold nextIdenty
      cases hl : v.buffer with
      | nil => exact absurd hl hb
      | cons p l => simp
    obtain ⟨ha, hr, -⟩ := h.idle _ (.inl hmem)
    obtain ⟨hn, hg, hd, hnil⟩ := h.fresh _ hmem
    refine ⟨ha, hr, hn, hg, hd, rfl, ?_, hnil⟩
    by_contra hs
    have hs' : (v.ids v.nextIdenty).iStaticFlag = true := by simpa using hs
    rw [(h.static _).mp hs'] at hmem
    exact h.asking.1 (.inl hmem)

/-- `Get` for an identity that is not put into a client's ring. -/
theorem Wf.take (h : v.Wf) {t : Token} (ht : t.iStaticFlag = false) (ring next : Nat → _)
    (hclient : ∀ c p, ((v.take t).ids p).pAccessEvent = some (.client c) ↔ p ∈ ring c)
    (hqueue : ∀ c, ∃ base, ({ v.take t with clientRing := ring, clientNext := next } : Flow).ClientQueue c base) :
    ({ v.take t with clientRing := ring, clientNext := next } : Flow).Wf := by
  have hidle := h.take_idle t
  have hne0 : Store.askingIdenty ≠ v.nextIdenty := by
    intro h0
    exact h.asking.1 (h0 ▸ nextIdenty_idle)
  have hold : ∀ q, (v.take t).Idle q → v.Idle q ∧ (v.take t).ids q = v.ids q := by
    intro q hq
    obtain ⟨hq', hne⟩ := (hidle q).mp hq
    exact ⟨hq', by rw [take_ids, if_neg hne]⟩
  refine ⟨?_, ⟨?_, ?_⟩, hclient, hqueue, ?_, ?_, ?_, ?_, ?_, h.empty⟩
  · intro q
    rw [take_ids]
    split_ifs with hq
    · rw [ht, hq]
      exact ⟨fun hf => absurd hf (by simp), fun h0 => absurd h0.symm hne0⟩
    · exact h.static q
  · intro hi
    exact h.asking.1 ((hidle _).mp hi).1
  · show ((v.take t).ids _).pAccessEvent = none
    rw [take_ids, if_neg hne0]
    exact h.asking.2
  · intro q hq
    obtain ⟨hq', he⟩ := hold q hq
    rw [he]
    exact h.idle q hq'
  · intro q hq
    obtain ⟨-, he⟩ := hold q (.inl hq)
    rw [he]
    exact h.fresh q (mem_of_mem_tail hq)
  · exact h.bufferNodup.tail
  · intro q hq
    obtain ⟨hlt, hd⟩ := h.buffer_lt q (mem_of_mem_tail hq)
    refine ⟨?_, hd⟩
    show q < if v.buffer = [] then v.nextId + 1 else v.nextId
    split_ifs <;> omega
  · intro q hq
    have := h.deleted_lt q hq
    show q < if v.buffer = [] then v.nextId + 1 else v.nextId
    split_ifs <;> omega

theorem Wf.select (h : v.Wf) (b : Nat) : (v.select b).Wf := by
  have hblank := h.fetched_blank
  apply h.take (t := { v.fetched with pAccessEvent := some (.redis b) }) hblank.static v.clientRing v.clientNext
  · intro c p
    rw [take_ids]
    split_ifs with hp
    · constructor
      · intro hc
        simp at hc
      · intro hmem
        have hidle : v.Idle p := hp ▸ nextIdenty_idle
        have := (h.client c p).mpr hmem
        rw [(h.idle p hidle).1] at this
        cases this
    · exact h.client c p
  · intro c
    obtain ⟨base, hq⟩ := h.queue c
    refine ⟨base, hq.congr rfl rfl rfl fun p hmem => ?_⟩
    rw [take_ids, if_neg]
    intro hp
    have := (h.client c p).mpr hmem
    rw [(h.idle p (hp ▸ nextIdenty_idle)).1] at this
    cases this

theorem Wf.ask (h : v.Wf) {c : Nat} (hcell : (v.clientStart c + (v.clientRing c).length) % maxWaitRingLen =
    v.clientNext c % maxWaitRingLen) : (v.ask c).Wf := by
  have hblank := h.fetched_blank
  have hout : ∀ c', v.nextIdenty ∉ v.clientRing c' := by
    intro c' hmem
    have := (h.client c' _).mpr hmem
    rw [(h.idle _ nextIdenty_idle).1] at this
    exact absurd this (by simp)
  have hring : ∀ c', (v.ask c).clientRing c' =
      if c' = c then v.clientRing c ++ [v.nextIdenty] else v.clientRing c' := by
    intro c'
    simp only [Flow.ask, update_apply]
  have hidx : ∀ c', ∀ p ∈ v.clientRing c', ((v.ask c).ids p).ulIndex = (v.ids p).ulIndex := by
    intro c' p hmem
    show ((v.take _).ids p).ulIndex = _
    rw [take_ids, if_neg]
    rintro rfl
    exact hout c' hmem
  apply h.take (t := { v.fetched with pAccessEvent := some (.client c), ulIndex := v.clientNext c }) hblank.static
  · intro c' p
    rw [take_ids]
    show _ ↔ p ∈ (v.ask c).clientRing c'
    rw [hring c']
    split_ifs with hp hcc hcc
    · subst hp
      subst hcc
      simp
    · subst hp
      constructor
      · intro he
        simp only [Option.some.injEq, Owner.client.injEq] at he
        exact absurd he.symm hcc
      · intro hmem
        exact absurd hmem (hout c')
    · rw [hcc, h.client c p]
      simp [hp]
    · exact h.client c' p
  · intro c'
    obtain ⟨base, hq⟩ := h.queue c'
    by_cases hcc : c' = c
    · subst hcc
      -- the counter has not wrapped: the ring refuses the request after the last index
      have hfresh : base + (v.clientRing c').length < uint64Size := by
        by_contra hge
        have heq : base + (v.clientRing c').length = uint64Size := Nat.le_antisymm hq.total (Nat.not_lt.mp hge)
        have hnext := hq.next
        rw [heq, Nat.mod_self] at hnext
        rw [hq.start, Nat.mod_add_mod, heq, hnext] at hcell
        exact absurd hcell (by decide)
      have hnext := hq.next
      rw [Nat.mod_eq_of_lt hfresh] at hnext
      have hr : (v.ask c').clientRing c' = v.clientRing c' ++ [v.nextIdenty] := by rw [hring, if_pos rfl]
      refine ⟨base, ?_⟩
      change (v.ask c').ClientQueue c' base
      refine ⟨hq.start, ?_, ?_, ?_⟩
      · rw [hr, length_append, length_singleton]
        omega
      · rw [hr, length_append, length_singleton]
        simp only [Flow.ask, update_self]
        rw [hnext, Nat.add_assoc]
      · intro j p hj
        rw [hr] at hj
        rcases Nat.lt_or_ge j (v.clientRing c').length with hlt | hge
        · rw [getElem?_append_left hlt] at hj
          rw [hidx c' p (mem_of_getElem? hj)]
          exact hq.idx j p hj
        · rw [getElem?_append_right hge] at hj
          obtain ⟨hj0, rfl⟩ : j - (v.clientRing c').length = 0 ∧ v.nextIdenty = p := by
            simpa [getElem?_singleton] using hj
          show ((v.take _).ids _).ulIndex = _
          rw [take_ids, if_pos rfl]
          show v.clientNext c' = base + j
          omega
    · refine ⟨base, hq.congr ?_ rfl ?_ (hidx c')⟩
      · show (v.ask c).clientRing c' = _
        rw [hring, if_neg hcc]
      · simp [hcc]

end Flow

/-! ## Steps -/

theorem FlowStep.wf {strict keep last : Prop} {s s' : FlowState} (hs : FlowStep strict keep last s s') (h : s.v.Wf) : s'.v.Wf := by
  cases hs with
  | pop hp =>
    apply h.setRing
    intro b hb
    rw [update_apply]
    split_ifs with hbb
    · rw [← hbb, h.empty b hb]
      rfl
    · exact h.empty b hb
  | refuse => exact h.reply _ _
  | @answer v p m hp _ =>
    apply (h.reply p m).release_redis
    obtain ⟨ha, hr, -, -, hst, -⟩ := (v.ids p).reply_keep m
    simp only [Flow.reply, Flow.setId_ids_self, ha, hr, hst]
    exact hp
  | setReq q hq => exact h.setId (.inl hq) rfl rfl rfl
  | @push v p k b i hp hb _ =>
    apply (h.setId (t := { v.ids p with pRedisEvent := some b }) (.inl hp) rfl rfl rfl).setRing
    intro b' hb'
    rw [update_of_ne (by rintro rfl; exact absurd hb (Nat.not_lt.mpr hb'))]
    exact h.empty b' hb'
  | @pushAsking v p k b i hb =>
    apply (h.setId (t := { v.ids Store.askingIdenty with pRedisEvent := some b }) (.inl h.asking.1) rfl rfl rfl).setRing
    intro b' hb'
    rw [update_of_ne (by rintro rfl; exact absurd hb (Nat.not_lt.mpr hb'))]
    exact h.empty b' hb'
  | leave hc => exact h.leave hc
  | ask _ hcell => exact h.ask hcell
  | select => exact h.select _
  | broadcast hc =>
    obtain ⟨c, hc⟩ := hc
    exact h.setId (.inl (h.not_idle (.inl (by rw [hc]; simp)))) rfl rfl rfl
  | skip hc =>
    obtain ⟨c, hc⟩ := hc
    exact h.setId (.inl (h.not_idle (.inl (by rw [hc]; simp)))) rfl rfl rfl
  | nobody => exact h.reply _ _
  | sent => exact h
  | wipe =>
    apply h.setRing
    intro b hb
    rw [update_apply]
    split_ifs
    · rfl
    · exact h.empty b hb
  | addServer =>
    exact ⟨h.static, h.asking, h.client, fun c => (h.queue c).imp fun _ hq => hq.congr rfl rfl rfl fun _ _ => rfl,
      h.idle, h.fresh, h.bufferNodup, h.buffer_lt, h.deleted_lt, fun b hb => h.empty b (Nat.le_of_succ_le hb)⟩

theorem FlowSteps.wf {strict keep last : Prop} {s s' : FlowState} (hs : FlowSteps strict keep last s s') (h : s.v.Wf) : s'.v.Wf := by
  induction hs with
  | refl => exact h
  | tail _ hstep ih => exact hstep.wf ih

/-! ## What a step leaves alone -/

/-- The step changes nothing but the identity `p`. -/
structure Elsewhere (s s' : FlowState) (p : Nat) : Prop where
  inFlight : ∀ q, q ≠ p → s'.v.inFlight q = s.v.inFlight q
  held : ∀ q, q ≠ p → s'.held q = s.held q
  ids : ∀ q, q ≠ p → s'.v.ids q = s.v.ids q
  idle : ∀ q, q ≠ p → (s'.v.Idle q ↔ s.v.Idle q)
  loop : ∀ q, q ≠ p → (s'.isLoop = true ∧ q = s'.p ↔ s.isLoop = true ∧ q = s.p)

namespace FlowState

theorem held_self (v : Flow) (p k : Nat) (i : Bool) : (FlowState.mk v p k i).held p = k := if_pos rfl

theorem held_zero (v : Flow) (p q : Nat) (i : Bool) : (FlowState.mk v p 0 i).held q = 0 := ite_self _

theorem held_ne (v : Flow) {p q : Nat} (k : Nat) (i : Bool) (h : q ≠ p) : (FlowState.mk v p k i).held q = 0 := if_neg h

end FlowState

namespace Flow

variable {v w : Flow} {p : Nat}

/-- Code that only writes the identity in its hands. -/
theorem setId_elsewhere (t : Token) {k k' : Nat} {i i' : Bool} :
    Elsewhere ⟨v, p, k, i⟩ ⟨v.setId p t, p, k', i'⟩ p where
  inFlight _ _ := rfl
  held _ hq := by rw [FlowState.held_ne _ _ _ hq, FlowState.held_ne _ _ _ hq]
  ids _ hq := setId_ids_ne _ hq t
  idle _ _ := Iff.rfl
  loop _ hq := ⟨fun h => absurd h.2 hq, fun h => absurd h.2 hq⟩

/-- What `Release` does to an identity that is not static. -/
theorem release_cases (side : Side) (hs : (v.ids p).iStaticFlag = false) :
    ((((v.ids p).letGo side).pAccessEvent = none ∧ ((v.ids p).letGo side).pRedisEvent = none) ∧
      (v.release side p).Idle p) ∨ v.release side p = v.setId p ((v.ids p).letGo side) := by
  have hst : ((v.ids p).letGo side).iStaticFlag = false := by
    cases side <;> exact hs
  unfold Flow.release
  dsimp only
  split_ifs with hnone
  · refine .inl ⟨hnone, ?_⟩
    unfold Flow.recycle
    rw [setId_ids_self, hst, if_neg (by simp)]
    split_ifs
    · exact .inr (.inl (mem_cons_self ..))
    · exact .inl (by simp)
  · exact .inr rfl

/-- What `Release` leaves alone. -/
theorem release_frame (v : Flow) (side : Side) (p : Nat) :
    (v.release side p).redisRing = v.redisRing ∧ (v.release side p).nBackends = v.nBackends ∧
      (v.release side p).tags = v.tags ∧ (v.release side p).serial = v.serial ∧
      (∀ q, q ≠ p → (v.release side p).ids q = v.ids q) ∧
      ∀ q, q ≠ p → ((v.release side p).Idle q ↔ v.Idle q) := by
  unfold Flow.release Flow.recycle
  dsimp only
  split_ifs
  · refine ⟨rfl, rfl, rfl, rfl, fun q hq => ?_, fun _ _ => Iff.rfl⟩
    rw [setId_ids_ne _ hq, setId_ids_ne _ hq]
  · refine ⟨rfl, rfl, rfl, rfl, fun q hq => ?_, fun q hq => ?_⟩
    · show ((v.setId p _).setId p _).ids q = _
      rw [setId_ids_ne _ hq, setId_ids_ne _ hq]
    · simp [Idle, Flow.setId, hq]
  · refine ⟨rfl, rfl, rfl, rfl, fun q hq => ?_, fun q hq => ?_⟩
    · show ((v.setId p _).setId p _).ids q = _
      rw [setId_ids_ne _ hq, setId_ids_ne _ hq]
    · simp [Idle, Flow.setId, hq]
  · exact ⟨rfl, rfl, rfl, rfl, fun q hq => setId_ids_ne _ hq _, fun _ _ => Iff.rfl⟩

theorem pop_inFlight (h : v.Wf) {b : Nat} {l : List Nat} (hr : v.redisRing b = p :: l) (q : Nat) :
    (v.pop b).inFlight q + (if q = p then 1 else 0) = v.inFlight q := by
  have hb : b < v.nBackends := h.ring_lt (by rw [hr]; exact mem_cons_self ..)
  have hcount := inFlight_setRing (w := v.pop b) hb rfl rfl q
  rw [hr, tail_cons, count_cons] at hcount
  simp only [beq_iff_eq, eq_comm (a := p)] at hcount
  omega

theorem push_inFlight {b : Nat} (hb : b < v.nBackends) (q : Nat) :
    (v.push b p).inFlight q = v.inFlight q + if q = p then 1 else 0 := by
  have hcount := inFlight_setRing (w := v.push b p) hb rfl rfl q
  rw [count_append, count_singleton] at hcount
  simp only [beq_iff_eq, eq_comm (a := p)] at hcount
  omega

theorem pop_elsewhere (h : v.Wf) {b q : Nat} {l : List Nat} (hr : v.redisRing b = p :: l) :
    Elsewhere ⟨v, q, 0, false⟩ ⟨v.pop b, p, 1, false⟩ p where
  inFlight r hrp := by
    have := pop_inFlight h hr r
    rwa [if_neg hrp, Nat.add_zero] at this
  held r hrp := by rw [FlowState.held_zero, FlowState.held_ne _ _ _ hrp]
  ids _ _ := rfl
  idle _ _ := Iff.rfl
  loop _ _ := ⟨fun h => absurd h.1 (by simp), fun h => absurd h.1 (by simp)⟩

theorem push_elsewhere {b k : Nat} {i : Bool} (hb : b < v.nBackends) :
    Elsewhere ⟨v, p, k + 1, i⟩ ⟨v.push b p, p, k, i⟩ p where
  inFlight q hq := by
    have := push_inFlight (p := p) hb q
    rwa [if_neg hq, Nat.add_zero] at this
  held q hq := by rw [FlowState.held_ne _ _ _ hq, FlowState.held_ne _ _ _ hq]
  ids _ hq := setId_ids_ne _ hq _
  idle _ _ := Iff.rfl
  loop _ _ := Iff.rfl

theorem pushAsking_elsewhere {b k : Nat} {i : Bool} (hb : b < v.nBackends) :
    Elsewhere ⟨v, p, k, i⟩ ⟨v.push b Store.askingIdenty, p, k, i⟩ Store.askingIdenty where
  inFlight q hq := by
    have := push_inFlight (p := Store.askingIdenty) hb q
    rwa [if_neg hq, Nat.add_zero] at this
  held _ _ := rfl
  ids _ hq := setId_ids_ne _ hq _
  idle _ _ := Iff.rfl
  loop _ _ := Iff.rfl

/-- `Get`, and possibly more that the invariants do not look at. -/
theorem take_elsewhere (h : v.Wf) {t : Token} {q : Nat} (ring next : Nat → _) :
    Elsewhere ⟨v, q, 0, false⟩ ⟨{ v.take t with clientRing := ring, clientNext := next }, v.nextIdenty, 1, false⟩
      v.nextIdenty where
  inFlight _ _ := rfl
  held r hr := by rw [FlowState.held_zero, FlowState.held_ne _ _ _ hr]
  ids r hr := by
    rw [take_ids, if_neg hr]
  idle r hr := (h.take_idle t r).trans (and_iff_left hr)
  loop _ _ := ⟨fun h => absurd h.1 (by simp), fun h => absurd h.1 (by simp)⟩

theorem answer_elsewhere {m : List UInt8} :
    Elsewhere ⟨v, p, 1, false⟩ ⟨(v.reply p m).release .redis p, p, 0, false⟩ p := by
  obtain ⟨hr, hn, -, -, hids, hidle⟩ := (v.reply p m).release_frame .redis p
  refine ⟨fun q hq => ?_, fun q hq => ?_, fun q hq => ?_, hidle, fun _ hq => ?_⟩
  · exact inFlight_congr hn hr q
  · rw [FlowState.held_zero, FlowState.held_ne _ _ _ hq]
  · exact (hids q hq).trans (setId_ids_ne _ hq _)
  · exact Iff.rfl

theorem leave_elsewhere {c q : Nat} :
    Elsewhere ⟨v, q, 0, false⟩ ⟨(v.popClient c).release .access p, q, 0, false⟩ p := by
  obtain ⟨hr, hn, -, -, hids, hidle⟩ := (v.popClient c).release_frame .access p
  exact ⟨fun q _ => inFlight_congr hn hr q, fun _ _ => rfl, hids, hidle, fun _ _ => Iff.rfl⟩

theorem setReq_elsewhere {q k : Nat} {i : Bool} : Elsewhere ⟨v, p, k, i⟩ ⟨v.setReq q, p, k, i⟩ q :=
  ⟨fun _ _ => rfl, fun _ _ => rfl, fun _ hr => setId_ids_ne _ hr _, fun _ _ => Iff.rfl, fun _ _ => Iff.rfl⟩

/-- A backend that is added has an empty ring. -/
theorem addServer_inFlight (h : v.Wf) (q : Nat) : v.addServer.inFlight q = v.inFlight q := by
  have hnew : v.addServer.redisRing v.nBackends = [] := h.empty v.nBackends le_rfl
  show ∑ b ∈ Finset.range (v.nBackends + 1), (v.addServer.redisRing b).count q = _
  rw [Finset.sum_range_succ, hnew, count_nil, Nat.add_zero]
  rfl

theorem wipe_inFlight_le (b q : Nat) : (v.wipe b).inFlight q ≤ v.inFlight q := by
  apply Finset.sum_le_sum
  intro b' _
  simp only [wipe, update_apply]
  split_ifs
  · exact Nat.zero_le _
  · exact le_rfl

end Flow

/-- What `Release` leaves of an identity that its owner keeps. -/
theorem Flow.release_ids {v : Flow} {p : Nat} {side : Side} {o : Owner}
    (ho : ((v.release side p).ids p).pAccessEvent = some o) : (v.release side p).ids p = (v.ids p).letGo side := by
  unfold Flow.release at ho ⊢
  dsimp only at ho ⊢
  split_ifs at ho ⊢ with hnone
  · unfold Flow.recycle at ho
    rw [Flow.setId_ids_self] at ho
    split_ifs at ho
    · rw [Flow.setId_ids_self, hnone.1] at ho
      cases ho
    · simp only [Flow.setId, update_self] at ho
      rw [hnone.1] at ho
      cases ho
    · simp [Flow.setId, MsgIdenty.token, MsgIdenty.zero] at ho
  · rw [Flow.setId_ids_self]

/-- Backends are never taken away. -/
theorem FlowStep.nBackends_le {strict keep last : Prop} {s s' : FlowState} (hs : FlowStep strict keep last s s') :
    s.v.nBackends ≤ s'.v.nBackends := by
  cases hs with
  | @answer v p m _ _ => exact ((v.reply p m).release_frame .redis p).2.1.ge
  | @leave v q c p l _ _ => exact ((v.popClient c).release_frame .access p).2.1.ge
  | addServer => exact Nat.le_succ _
  | _ => exact le_rfl

theorem FlowSteps.nBackends_le {strict keep last : Prop} {s s' : FlowState} (hs : FlowSteps strict keep last s s') :
    s.v.nBackends ≤ s'.v.nBackends := by
  induction hs with
  | refl => exact le_rfl
  | tail _ hstep ih => exact ih.trans hstep.nBackends_le

end RedisProxy
