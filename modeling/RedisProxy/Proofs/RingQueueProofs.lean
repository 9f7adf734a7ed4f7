import RedisProxy.RingQueue
import RedisProxy.Proofs.RingBufferProofs

/-!
# Proofs: a `RingBuffer` refines a bounded queue

The start of the ring is the cell of the first live index, and the ring holds the elements of the queue. One
operation keeps this and returns what the queue returns, so every sequence of operations does.
-/

namespace RedisProxy

open Lib List

/-! ## The live indices -/

namespace RingQueue

variable {α : Type} {q : RingQueue α} {n i j : Nat}

theorem length_items (q : RingQueue α) : q.items.length = q.added.length - q.popped := length_drop

/-- An index that is found is live, and in the same cell. -/
theorem liveAt_some (h : q.liveAt n i = some j) : q.Live j ∧ j % n = i % n := by
  constructor
  · have hmem := mem_of_find?_eq_some h
    rw [mem_range'_1, length_items] at hmem
    exact ⟨hmem.1, by omega⟩
  · have hmod := find?_some h
    exact beq_iff_eq.mp hmod

theorem liveAt_none (h : q.liveAt n i = none) (hj : q.Live j) : j % n ≠ i % n := by
  have hmem : j ∈ range' q.popped q.items.length := by
    rw [mem_range'_1, length_items]
    exact ⟨hj.1, by have := hj.2; omega⟩
  have hmod := find?_eq_none.mp h j hmem
  exact fun he => hmod (beq_iff_eq.mpr he)

theorem items_getElem? (q : RingQueue α) (j : Nat) : q.items[j]? = q.added[q.popped + j]? := getElem?_drop

theorem items_add (h : q.popped ≤ q.added.length) (x : α) : (q.add x).items = q.items ++ [x] :=
  drop_append_of_le_length h

end RingQueue

/-! ## The refinement -/

namespace RingBuffer

variable {α : Type} {rb : RingBuffer α} {q : RingQueue α} {n : Nat}

/-- The last element is in front of `pEnd`. -/
theorem WF.getBack_eq (h : rb.WF) : rb.getBack = rb.toList.getLast? := by
  have hlen := h.length_toList
  have hlt := h.start_lt
  have hle := h.num_le
  unfold getBack
  by_cases h0 : rb.iDataNum = 0
  · rw [if_pos h0, eq_nil_of_length_eq_zero (hlen.trans h0)]
    rfl
  · rw [if_neg h0, getLast?_eq_getElem?, hlen, ← h.cell (by omega)]
    have hend : rb.pEnd = rb.next ((rb.pStart + (rb.iDataNum - 1)) % rb.iPoolLen) := by
      rw [next_eq hlt, h.end_eq]
      congr 2
      omega
    unfold next at hend
    by_cases hlast : (rb.pStart + (rb.iDataNum - 1)) % rb.iPoolLen + 1 = rb.iPoolLen
    · rw [if_pos hlast] at hend
      rw [if_pos (.inl hend)]
      congr 1
      omega
    · rw [if_neg hlast] at hend
      rw [if_neg (by omega), hend, Nat.add_sub_cancel]

/-- The macro reads the first cell even if the ring is empty, but then it is null. -/
theorem WF.getFront_method (h : rb.WF) : Method.getFront rb = rb.getFront := by
  unfold Method.getFront
  by_cases h0 : rb.iDataNum = 0
  · rw [if_pos h0, h.getFront_eq, eq_nil_of_length_eq_zero (h.length_toList.trans h0)]
    rfl
  · rw [if_neg h0]
    rfl

/-- The ring holds the elements of the queue. -/
structure Holds (n : Nat) (rb : RingBuffer α) (q : RingQueue α) : Prop where
  wf : rb.WF
  len : rb.iPoolLen = n
  items : rb.toList = q.items
  start : rb.pStart = q.popped % n
  le : q.popped ≤ q.added.length

theorem init_holds (hn : 0 < n) : Holds n (init n : RingBuffer α) .empty where
  wf := init_wf hn
  len := rfl
  items := rfl
  start := (Nat.zero_mod n).symm
  le := le_rfl

theorem Holds.pos (h : Holds n rb q) : 0 < n := by
  have hlt := h.wf.start_lt
  rw [h.len] at hlt
  omega

theorem Holds.length_le (h : Holds n rb q) : q.items.length ≤ n := by
  rw [← h.items, h.wf.length_toList, ← h.len]
  exact h.wf.num_le

theorem Holds.end_eq (h : Holds n rb q) : rb.pEnd = q.added.length % n := by
  have hlen := congrArg List.length h.items
  rw [h.wf.length_toList, q.length_items] at hlen
  have hle := h.le
  rw [h.wf.end_eq, h.start, h.len, Nat.mod_add_mod, hlen, Nat.add_sub_cancel' hle]

/-- The cell of a live index has its element. -/
theorem Holds.live (h : Holds n rb q) {j : Nat} (hj : q.Live j) : rb.pWaitMsgPool (j % n) = q.added[j]? := by
  obtain ⟨hpopped, hlt⟩ := hj
  have hle := h.length_le
  rw [q.length_items] at hle
  have hcell := h.wf.cell (j := j - q.popped) (by rw [h.len]; omega)
  rwa [h.len, h.start, Nat.mod_add_mod, Nat.add_sub_cancel' hpopped, h.items, q.items_getElem?,
    Nat.add_sub_cancel' hpopped] at hcell

/-- A cell that belongs to no live index is null. -/
theorem Holds.dead (h : Holds n rb q) {i : Nat} (hi : ∀ j, q.Live j → j % n ≠ i % n) : rb.pWaitMsgPool (i % n) = none := by
  have hn := h.pos
  -- the distance of the cell from the start
  obtain ⟨d, hd⟩ : ∃ d, d = (i + q.popped * (n - 1)) % n := ⟨_, rfl⟩
  have hlt : d < n := hd ▸ Nat.mod_lt _ hn
  have hmod : (q.popped + d) % n = i % n := by
    have hsum : q.popped + (i + q.popped * (n - 1)) = i + q.popped * n := by
      obtain ⟨m, rfl⟩ : ∃ m, n = m + 1 := ⟨n - 1, by omega⟩
      rw [Nat.add_sub_cancel]
      ring
    rw [hd, Nat.add_mod_mod, hsum, Nat.add_mul_mod_self_right]
  have hcell := h.wf.cell (by rw [h.len]; exact hlt)
  rw [h.len, h.start, Nat.mod_add_mod, hmod, h.items] at hcell
  rw [hcell, getElem?_eq_none]
  by_contra hlive
  rw [q.length_items] at hlive
  exact hi (q.popped + d) ⟨by omega, by omega⟩ hmod

theorem Holds.getData_eq (h : Holds n rb q) (i : Nat) : rb.getData i = (q.liveAt n i).bind fun j => q.added[j]? := by
  unfold getData
  rw [h.len]
  cases hat : q.liveAt n i with
  | some j =>
    obtain ⟨hlive, hmod⟩ := RingQueue.liveAt_some hat
    rw [← hmod, h.live hlive]
    rfl
  | none => exact h.dead fun j hj => RingQueue.liveAt_none hat hj

theorem Holds.pushed (h : Holds n rb q) (hlt : q.items.length < n) (x : α) : Holds n (rb.pushed x) (q.add x) := by
  have hnum : rb.iDataNum < rb.iPoolLen := by
    rw [← h.wf.length_toList, h.items, h.len]
    exact hlt
  refine ⟨pushed_wf h.wf hnum x, h.len, ?_, h.start, ?_⟩
  · rw [pushed_toList h.wf hnum, h.items, RingQueue.items_add h.le]
  · have hle := h.le
    simp only [RingQueue.add, length_append, length_singleton]
    omega

theorem Holds.popFront (h : Holds n rb q) :
    Holds n rb.popFront.2 (if q.items = [] then q else { q with popped := q.popped + 1 }) := by
  have htail := (popFront_toList h.wf).2
  by_cases hnil : q.items = []
  · have h0 : rb.iDataNum = 0 := by rw [← h.wf.length_toList, h.items, hnil]; rfl
    rw [if_pos hnil, RingBuffer.popFront, if_pos h0]
    exact h
  · have hpos := length_pos_iff.mpr hnil
    have h0 : rb.iDataNum ≠ 0 := by
      rw [← h.wf.length_toList, h.items]
      omega
    rw [q.length_items] at hpos
    rw [if_neg hnil]
    refine ⟨popFront_wf h.wf, ?_, ?_, ?_, ?_⟩
    · rw [popFront_eq h.wf h0]
      exact h.len
    · rw [htail, h.items, RingQueue.items, RingQueue.items, tail_drop]
    · rw [popFront_eq h.wf h0]
      rw [h.start, h.len, Nat.mod_add_mod]
    · change q.popped + 1 ≤ q.added.length
      omega

/-- One operation returns what the queue returns, and the ring holds the elements of the queue after it. -/
theorem Holds.perform (h : Holds n rb q) (o : Op α) :
    (rb.perform o).1 = (q.perform n o).1 ∧ Holds n (rb.perform o).2 (q.perform n o).2 := by
  cases o with
  | addData x =>
    unfold RingBuffer.perform RingQueue.perform
    dsimp only
    rw [addData_eq h.wf, h.items, h.len]
    by_cases hlt : q.items.length < n
    · rw [if_pos hlt, if_pos hlt]
      exact ⟨rfl, h.pushed hlt x⟩
    · rw [if_neg hlt, if_neg hlt]
      exact ⟨rfl, h⟩
  | addDataIdx x i =>
    unfold RingBuffer.perform RingQueue.perform
    dsimp only
    rw [addDataIdx_eq h.wf, h.items, h.len, h.end_eq]
    by_cases hlt : q.items.length < n ∧ q.added.length % n = i % n
    · rw [if_pos hlt, if_pos hlt]
      exact ⟨rfl, h.pushed hlt.1 x⟩
    · rw [if_neg hlt, if_neg hlt]
      exact ⟨rfl, h⟩
  | popFront =>
    constructor
    · exact congrArg Result.pointer (by rw [(popFront_toList h.wf).1, h.items])
    · exact h.popFront
  | getFront => exact ⟨congrArg Result.pointer (by rw [h.wf.getFront_method, h.wf.getFront_eq, h.items]), h⟩
  | getBack => exact ⟨congrArg Result.pointer (by rw [h.wf.getBack_eq, h.items]), h⟩
  | getData i => exact ⟨congrArg Result.pointer (h.getData_eq i), h⟩
  | reInit =>
    constructor
    · rfl
    · have hinit := init_holds (α := α) h.pos
      rw [← h.len] at hinit ⊢
      exact hinit

theorem performAll_holds (hn : 0 < n) (ops : List (Op α)) :
    (performAll perform (init n) ops).1 = (performAll (RingQueue.perform n) .empty ops).1 ∧
      Holds n (performAll perform (init n) ops).2 (performAll (RingQueue.perform n) .empty ops).2 :=
  performAll_simulation (fun _ _ o h => h.perform o) ops _ _ (init_holds hn)

/-- An index that is the number of the elements added before is refused only by a full ring. -/
theorem Holds.addDataIdx_none (h : Holds n rb q) (x : α) :
    rb.addDataIdx x q.added.length = none ↔ rb.poolFull = true := by
  have hle := h.length_le
  rw [h.wf.poolFull_iff, addDataIdx_eq h.wf, h.items, h.len, h.end_eq]
  by_cases hlt : q.items.length < n
  · rw [if_pos ⟨hlt, rfl⟩]
    simp [hlt.ne]
  · rw [if_neg fun hc => hlt hc.1]
    simp
    omega

/-- A `RingBuffer` refines a queue of its capacity. For every sequence of operations the results are those of the
queue; the cells that belong to no live index are null, so the macro `GR_RB_GETFRONT` agrees with the method
(the macros `GR_RB_POPFRONT` and `GR_RB_GETDATA` have the same text as the methods). If the elements are added with
consecutive indices, an element is refused only by a full ring, and `GetData` returns the element with an index
while it is live, and null or the element with another index otherwise. -/
theorem ringBuffer_refines (n : Nat) (hn : 0 < n) (ops : List (Op α)) :
    let rb := (performAll perform (init n) ops).2
    let q := (performAll (RingQueue.perform n) .empty ops).2
    (performAll perform (init n) ops).1 = (performAll (RingQueue.perform n) .empty ops).1 ∧
    (∀ k < n, (∀ i, q.Live i → i % n ≠ k) → rb.pWaitMsgPool k = none) ∧
    rb.getFront = Method.getFront rb ∧
    (RingQueue.Consecutive n ops →
      (∀ before x i after, ops = before ++ .addDataIdx x i :: after →
        ((performAll perform (init n) before).2.addDataIdx x i = none ↔
          (performAll perform (init n) before).2.poolFull = true)) ∧
      (∀ i, q.Live i → rb.getData i = q.added[i]?) ∧
      (∀ i, ¬q.Live i → rb.getData i = none ∨ ∃ j, q.Live j ∧ j ≠ i ∧ rb.getData i = q.added[j]?) ∧
      (q.added.Nodup → ∀ i < q.added.length, rb.getData i = q.added[i]? ↔ q.Live i)) := by
  intro rb q
  obtain ⟨hresults, hholds⟩ := performAll_holds hn ops
  have hlive : ∀ i, q.Live i → rb.getData i = q.added[i]? := by
    intro i hi
    rw [getData, hholds.len]
    exact hholds.live hi
  have hdead : ∀ i, ¬q.Live i → rb.getData i = none ∨ ∃ j, q.Live j ∧ j ≠ i ∧ rb.getData i = q.added[j]? := by
    intro i hi
    rw [hholds.getData_eq]
    cases hat : q.liveAt n i with
    | none => exact .inl rfl
    | some j =>
      have hj := (RingQueue.liveAt_some hat).1
      exact .inr ⟨j, hj, fun he => hi (he ▸ hj), rfl⟩
  refine ⟨hresults, ?_, hholds.wf.getFront_method.symm, fun hcons => ⟨?_, hlive, hdead, ?_⟩⟩
  · intro k hk hout
    have hnull := hholds.dead fun j hj => by rw [Nat.mod_eq_of_lt hk]; exact hout j hj
    rwa [Nat.mod_eq_of_lt hk] at hnull
  · intro before x i after hops
    obtain ⟨-, hbefore⟩ := performAll_holds hn before
    rw [(hcons before after _ hops).2 x i rfl]
    exact hbefore.addDataIdx_none x
  · intro hnodup i hi
    constructor
    · intro hget
      by_contra hout
      rw [getElem?_eq_getElem hi] at hget
      rcases hdead i hout with hnone | ⟨j, hj, hne, hother⟩
      · rw [hnone] at hget
        cases hget
      · rw [hget, getElem?_eq_getElem hj.2] at hother
        exact hne ((hnodup.getElem_inj_iff).mp (Option.some.inj hother)).symm
    · exact hlive i

/-- A ring of two cells, where the first of two elements has been popped. -/
theorem ringBuffer_refines_two :
    let ops : List (Op Nat) := [.addDataIdx 7 0, .popFront, .addDataIdx 8 1]
    RingQueue.Consecutive 2 ops ∧ (performAll perform (init 2) ops).2.getData 1 = some 8 := by
  intro ops
  have hcons : RingQueue.Consecutive 2 ops := by
    intro before after o h
    rcases before with _ | ⟨a, _ | ⟨b, _ | ⟨c, rest⟩⟩⟩ <;>
      simp only [ops, nil_append, cons_append, cons.injEq, nil_eq, append_eq_nil_iff] at h
    · obtain ⟨rfl, -⟩ := h
      simp [RingQueue.empty]
    · obtain ⟨rfl, rfl, -⟩ := h
      simp
    · obtain ⟨rfl, rfl, rfl, -⟩ := h
      simp [RingQueue.perform, RingQueue.empty, RingQueue.items, RingQueue.add]
    · simp at h
  obtain ⟨-, hlive, -, -⟩ := (ringBuffer_refines 2 (by decide) ops).2.2.2 hcons
  exact ⟨hcons, hlive 1 ⟨by decide, by decide⟩⟩

end RingBuffer

end RedisProxy
