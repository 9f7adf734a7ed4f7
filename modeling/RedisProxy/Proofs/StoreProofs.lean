import RedisProxy.MsgIdenty

/-!
# Proofs: the identities and their pool

What `Get` and `Release` do to the identities. `PoolOK` says that the pool can hand out identities
without touching those in use.
-/

namespace RedisProxy.Store

open List Option Function

variable {p : Nat} {st st' : Store} {side : Side} {used : List Nat}

@[simp] theorem setId_ids_self (st : Store) (p : Nat) (i : MsgIdenty) : (st.setId p i).ids p = i :=
  update_self ..

theorem setId_ids_ne (st : Store) {q : Nat} (h : q ≠ p) (i : MsgIdenty) : (st.setId p i).ids q = st.ids q :=
  update_of_ne h ..

theorem setId_ids (st : Store) (p q : Nat) (i : MsgIdenty) :
    (st.setId p i).ids q = if q = p then i else st.ids q :=
  update_apply ..

@[simp] theorem setId_buffer (st : Store) (p : Nat) (i : MsgIdenty) :
    (st.setId p i).identyBuffer = st.identyBuffer := rfl

@[simp] theorem setId_nextId (st : Store) (p : Nat) (i : MsgIdenty) : (st.setId p i).nextId = st.nextId := rfl

@[simp] theorem setId_mem (st : Store) (p : Nat) (i : MsgIdenty) : (st.setId p i).mem = st.mem := rfl

@[simp] theorem setId_deleted (st : Store) (p : Nat) (i : MsgIdenty) :
    (st.setId p i).deleted = st.deleted := rfl

/-! ## `Release` -/

/-- Giving back a block changes nothing but the memory pool. -/
theorem releaseData_some {d : Option Nat} (h : st.releaseData d = some st') : ∃ mem, st' = { st with mem } := by
  unfold releaseData at h
  cases d with
  | none => exact ⟨st.mem, (some.inj h).symm⟩
  | some pData =>
    cases hr : st.mem.release pData with
    | none => simp [hr] at h
    | some mem =>
      simp only [hr, some.injEq] at h
      exact ⟨mem, h.symm⟩

/-- How `Release` can leave the identity `p`: it has been let go of from one side, it waits for reuse,
or it has been deleted. -/
structure Released (st : Store) (side : Side) (p : Nat) (st' : Store) : Prop where
  other : ∀ q, q ≠ p → st'.ids q = st.ids q
  nextId : st'.nextId = st.nextId
  out : (st'.ids p = (st.ids p).letGo side ∧ st'.identyBuffer = st.identyBuffer ∧
        st'.deleted = st.deleted ∧ st'.mem = st.mem) ∨
      ((st.ids p).iStaticFlag = true ∧ st'.identyBuffer = st.identyBuffer ∧ st'.deleted = st.deleted) ∨
      (st'.ids p = .zero ∧ st'.identyBuffer.toList = st.identyBuffer.toList ++ [p] ∧
        st'.deleted = st.deleted) ∨
      (st'.identyBuffer = st.identyBuffer ∧ st'.deleted = p :: st.deleted)
  held : ((st.ids p).letGo side).pAccessEvent ≠ none ∨ ((st.ids p).letGo side).pRedisEvent ≠ none →
    st'.ids p = (st.ids p).letGo side ∧ st'.identyBuffer = st.identyBuffer ∧ st'.deleted = st.deleted ∧
      st'.mem = st.mem

/-- Recycling only touches the identity itself. -/
theorem recycle_some (h : st.recycle p = some st') : (∀ q, q ≠ p → st'.ids q = st.ids q) ∧ st'.nextId = st.nextId ∧
      (((st.ids p).iStaticFlag = true ∧ st'.identyBuffer = st.identyBuffer ∧ st'.deleted = st.deleted) ∨
      (st'.ids p = .zero ∧ st'.identyBuffer.toList = st.identyBuffer.toList ++ [p] ∧ st'.deleted = st.deleted) ∨
      (st'.identyBuffer = st.identyBuffer ∧ st'.deleted = p :: st.deleted)) := by
  unfold recycle at h
  cases h₁ : st.releaseData (st.ids p).pData with
  | none => simp [h₁] at h
  | some st₁ =>
    obtain ⟨mem₁, rfl⟩ := releaseData_some h₁
    simp only [h₁] at h
    cases h₂ : Store.releaseData { st with mem := mem₁ } (st.ids p).pReqData with
    | none => simp [h₂] at h
    | some st₂ =>
      obtain ⟨mem₂, rfl⟩ := releaseData_some h₂
      simp only [h₂, setId_ids_self] at h
      split_ifs at h with hs
      · cases h
        exact ⟨fun q hq => setId_ids_ne _ hq _, rfl, .inl ⟨hs, rfl, rfl⟩⟩
      · split at h
        · cases h
          exact ⟨fun q hq => setId_ids_ne _ hq _, rfl, .inr (.inr ⟨rfl, rfl⟩)⟩
        · rename_i buf hadd
          cases h
          refine ⟨fun q hq => ?_, rfl, .inr (.inl ⟨setId_ids_self .., ?_, rfl⟩)⟩
          · show (setId (setId _ _ _) _ _).ids q = _
            rw [setId_ids_ne _ hq, setId_ids_ne _ hq]
          · exact (WaitRing.addData_some hadd).2.1

theorem release_some (h : st.release side p = some st') : Released st side p st' := by
  unfold release at h
  dsimp only at h
  split_ifs at h with ha hb
  · simp only [setId_ids_self] at hb
    obtain ⟨ho, hn, hout⟩ := recycle_some h
    refine ⟨fun q hq => (ho q hq).trans (setId_ids_ne _ hq _), hn, .inr ?_, fun hheld => ?_⟩
    · rcases hout with ⟨hs, hbuf, hd⟩ | ⟨hz, hbuf, hd⟩ | ⟨hbuf, hd⟩
      · refine .inl ⟨?_, hbuf, hd⟩
        rw [setId_ids_self] at hs
        cases side
        · exact hs
        · exact hs
      · exact .inr (.inl ⟨hz, hbuf, hd⟩)
      · exact .inr (.inr ⟨hbuf, hd⟩)
    · rcases hheld with hheld | hheld
      · exact absurd hb.1 hheld
      · exact absurd hb.2 hheld
  · cases h
    have hself : (st.setId p ((st.ids p).letGo side)).ids p = (st.ids p).letGo side := setId_ids_self ..
    exact ⟨fun q hq => setId_ids_ne _ hq _, rfl, .inl ⟨hself, rfl, rfl, rfl⟩, fun _ => ⟨hself, rfl, rfl, rfl⟩⟩

/-! ## `Get` -/

/-- The pool hands out blank identities, each once, and none of those in `used`. -/
structure PoolOK (st : Store) (used : List Nat) : Prop where
  nodup : st.identyBuffer.toList.Nodup
  fresh : ∀ p ∈ st.identyBuffer.toList, p ∉ used ∧ p < st.nextId ∧ (st.ids p).iWaitDone = false
  bound : ∀ p ∈ used, p < st.nextId

instance (st : Store) (used : List Nat) : Decidable (st.PoolOK used) :=
  decidable_of_iff (st.identyBuffer.toList.Nodup ∧
      (∀ p ∈ st.identyBuffer.toList, p ∉ used ∧ p < st.nextId ∧ (st.ids p).iWaitDone = false) ∧
      ∀ p ∈ used, p < st.nextId)
    ⟨fun h => ⟨h.1, h.2.1, h.2.2⟩, fun h => ⟨h.nodup, h.fresh, h.bound⟩⟩

theorem init_poolOK : init.PoolOK [] :=
  ⟨nodup_nil, fun _ hp => absurd hp (not_mem_nil), fun _ hp => absurd hp (not_mem_nil)⟩

theorem takeIdenty_spec (h : st.PoolOK used) :
    st.takeIdenty.1 ∉ used ∧ (st.takeIdenty.2.ids st.takeIdenty.1).iWaitDone = false ∧
      st.takeIdenty.2.PoolOK (used ++ [st.takeIdenty.1]) ∧ ∀ q ∈ used, st.takeIdenty.2.ids q = st.ids q := by
  have hfst := st.identyBuffer.popFront_fst
  have htail := st.identyBuffer.popFront_toList
  unfold takeIdenty
  cases hpop : st.identyBuffer.popFront with
  | mk front buf =>
    rw [hpop] at hfst htail
    cases front with
    | none =>
      have hnil : st.identyBuffer.toList = [] := head?_eq_none_iff.mp hfst.symm
      have hnew : ∀ q ∈ used, q ≠ st.nextId := fun q hq => Nat.ne_of_lt (h.bound q hq)
      refine ⟨fun hmem => hnew _ hmem rfl, ?_, ⟨?_, ?_, ?_⟩, fun q hq => setId_ids_ne _ (hnew q hq) _⟩
      · show ((st.setId st.nextId _).ids st.nextId).iWaitDone = false
        rw [setId_ids_self]
        rfl
      · exact h.nodup
      · intro p hp
        have hp' : p ∈ st.identyBuffer.toList := hp
        rw [hnil] at hp'
        exact absurd hp' (not_mem_nil)
      · intro p hp
        rcases mem_append.mp hp with hp | hp
        · exact Nat.lt_succ_of_lt (h.bound p hp)
        · rw [mem_singleton.mp hp]
          exact Nat.lt_succ_self _
    | some p =>
      obtain ⟨rest, hcons⟩ : ∃ rest, st.identyBuffer.toList = p :: rest := by
        cases hl : st.identyBuffer.toList with
        | nil => simp [hl] at hfst
        | cons a rest =>
          rw [hl, head?_cons, some.injEq] at hfst
          exact ⟨rest, by rw [hfst]⟩
      have hbuf : buf.toList = rest := by rw [htail, hcons, tail_cons]
      have hnd := h.nodup
      have hfr := h.fresh
      rw [hcons] at hnd hfr
      obtain ⟨hpused, hplt, hpdone⟩ := hfr p (mem_cons_self ..)
      refine ⟨hpused, hpdone, ⟨?_, ?_, ?_⟩, fun _ _ => rfl⟩
      · show buf.toList.Nodup
        rw [hbuf]
        exact (nodup_cons.mp hnd).2
      · intro q hq
        have hq' : q ∈ rest := by
          rw [← hbuf]
          exact hq
        obtain ⟨hqused, hqlt, hqdone⟩ := hfr q (mem_cons_of_mem _ hq')
        refine ⟨?_, hqlt, hqdone⟩
        intro hmem
        rcases mem_append.mp hmem with hmem | hmem
        · exact hqused hmem
        · rw [mem_singleton.mp hmem] at hq'
          exact (nodup_cons.mp hnd).1 hq'
      · intro q hq
        rcases mem_append.mp hq with hq | hq
        · exact h.bound q hq
        · rw [mem_singleton.mp hq]
          exact hplt

/-- Writing an identity in use does not disturb the pool. -/
theorem PoolOK.setId (h : st.PoolOK used) (hp : p ∈ used) (i : MsgIdenty) : (st.setId p i).PoolOK used := by
  refine ⟨h.nodup, ?_, h.bound⟩
  intro q hq
  obtain ⟨hused, hlt, hdone⟩ := h.fresh q hq
  have hne : q ≠ p := by
    rintro rfl
    exact hused hp
  exact ⟨hused, hlt, by rw [setId_ids_ne _ hne]; exact hdone⟩

/-- What `Get` returns: a blank identity that was not in use. -/
theorem get_some (h : st.PoolOK used) (hg : st.get = some (p, st')) :
    p ∉ used ∧ (st'.ids p).iWaitDone = false ∧ st'.PoolOK (used ++ [p]) ∧ ∀ q ∈ used, st'.ids q = st.ids q := by
  obtain ⟨hnot, hdone, hok, hsame⟩ := takeIdenty_spec h
  unfold get at hg
  dsimp only at hg
  split_ifs at hg
  cases hg
  refine ⟨hnot, ?_, hok.setId (by simp) _, fun q hq => ?_⟩
  · rw [setId_ids_self]
    exact hdone
  · have hne : q ≠ st.takeIdenty.1 := by
      rintro rfl
      exact hnot hq
    rw [setId_ids_ne _ hne]
    exact hsame q hq

/-- Giving back the first of the identities in use. -/
theorem PoolOK.release (h : st.PoolOK (p :: used)) (hp : p ∉ used) (hr : Released st side p st') :
    st'.PoolOK used := by
  have hpbuf : p ∉ st.identyBuffer.toList := fun hmem => (h.fresh p hmem).1 (mem_cons_self ..)
  have hbound : ∀ q ∈ used, q < st'.nextId := by
    intro q hq
    rw [hr.nextId]
    exact h.bound q (mem_cons_of_mem _ hq)
  have hkeep : ∀ q ∈ st.identyBuffer.toList, q ∉ used ∧ q < st'.nextId ∧ (st'.ids q).iWaitDone = false := by
    intro q hq
    obtain ⟨hused, hlt, hdone⟩ := h.fresh q hq
    refine ⟨fun hmem => hused (mem_cons_of_mem _ hmem), by rw [hr.nextId]; exact hlt, ?_⟩
    rw [hr.other q (by rintro rfl; exact hpbuf hq)]
    exact hdone
  have hsame : st'.identyBuffer = st.identyBuffer → st'.PoolOK used := by
    intro hbuf
    exact ⟨by rw [hbuf]; exact h.nodup, by rw [hbuf]; exact hkeep, hbound⟩
  rcases hr.out with ⟨-, hbuf, -, -⟩ | ⟨-, hbuf, -⟩ | ⟨hz, hbuf, -⟩ | ⟨hbuf, -⟩
  · exact hsame hbuf
  · exact hsame hbuf
  · refine ⟨?_, ?_, hbound⟩
    · rw [hbuf, nodup_append]
      refine ⟨h.nodup, nodup_singleton p, ?_⟩
      intro a ha b hb
      rw [mem_singleton.mp hb]
      rintro rfl
      exact hpbuf ha
    · intro q hq
      rw [hbuf] at hq
      rcases mem_append.mp hq with hq | hq
      · exact hkeep q hq
      · rw [mem_singleton.mp hq]
        refine ⟨hp, ?_, by rw [hz]; rfl⟩
        rw [hr.nextId]
        exact h.bound p (mem_cons_self ..)
  · exact hsame hbuf

end RedisProxy.Store
