import RedisProxy.RingBuffer

/-!
# Proofs: `RingBuffer` is a bounded queue

Every operation keeps the ring consistent, and acts on `toList` as a queue of capacity `iPoolLen`.
-/

namespace RedisProxy

open Lib List Option Function

namespace RingBuffer

variable {α : Type} {rb : RingBuffer α}

theorem next_eq (h : rb.pStart < rb.iPoolLen) (k : Nat) :
    rb.next ((rb.pStart + k) % rb.iPoolLen) = (rb.pStart + (k + 1)) % rb.iPoolLen := by
  have hlt : (rb.pStart + k) % rb.iPoolLen < rb.iPoolLen := Nat.mod_lt _ (by omega)
  rw [next, ← Nat.add_assoc, ← Nat.mod_add_mod (rb.pStart + k)]
  split_ifs with he
  · rw [he, Nat.mod_self]
  · exact (Nat.mod_eq_of_lt (by omega)).symm

theorem start_next (h : rb.pStart < rb.iPoolLen) :
    (if rb.iPoolLen ≤ rb.pStart + 1 then 0 else rb.pStart + 1) = (rb.pStart + 1) % rb.iPoolLen := by
  split_ifs with he
  · rw [show rb.pStart + 1 = rb.iPoolLen by omega, Nat.mod_self]
  · exact (Nat.mod_eq_of_lt (by omega)).symm

/-- The live cells are exactly the elements. -/
theorem WF.window_eq (h : rb.WF) :
    window rb.pWaitMsgPool rb.iPoolLen rb.pStart rb.iDataNum = rb.toList.map some := by
  have key : ∀ l : List (Option α), (∀ x ∈ l, x.isSome) → l = l.reduceOption.map some := by
    intro l
    induction l with
    | nil => intro _; rfl
    | cons x l ih =>
      intro hl
      obtain ⟨a, rfl⟩ := isSome_iff_exists.mp (hl x (mem_cons_self ..))
      rw [reduceOption_cons_of_some, map_cons, ← ih fun y hy => hl y (mem_cons_of_mem _ hy)]
  apply key
  intro x hx
  simp only [window, List.mem_map, List.mem_range] at hx
  obtain ⟨i, hi, rfl⟩ := hx
  exact h.live i hi

theorem WF.length_toList (h : rb.WF) : rb.toList.length = rb.iDataNum := by
  have := congrArg List.length h.window_eq
  simpa using this.symm

theorem WF.toList_eq (h : rb.WF) {l : List α}
    (hl : window rb.pWaitMsgPool rb.iPoolLen rb.pStart rb.iDataNum = l.map some) : rb.toList = l := by
  have : rb.toList.map some = l.map some := h.window_eq.symm.trans hl
  exact map_injective_iff.mpr (some_injective α) this

/-- The element at offset `j` of the queue lies `j` cells behind the start. -/
theorem WF.cell (h : rb.WF) {j : Nat} (hj : j < rb.iPoolLen) :
    rb.pWaitMsgPool ((rb.pStart + j) % rb.iPoolLen) = rb.toList[j]? := by
  rcases Nat.lt_or_ge j rb.iDataNum with hlt | hge
  · have h1 := getElem?_window rb.pWaitMsgPool rb.iPoolLen rb.pStart hlt
    rw [h.window_eq, getElem?_map] at h1
    cases hx : rb.toList[j]? with
    | none =>
      have := getElem?_eq_none_iff.mp hx
      rw [h.length_toList] at this
      omega
    | some x =>
      rw [hx, map_some] at h1
      exact (some.inj h1).symm
  · rw [h.dead j hge hj, getElem?_eq_none]
    rw [h.length_toList]
    exact hge

theorem WF.getFront_eq (h : rb.WF) : rb.getFront = rb.toList.head? := by
  have := h.cell (Nat.zero_lt_of_lt h.start_lt)
  rw [Nat.add_zero, Nat.mod_eq_of_lt h.start_lt] at this
  rw [getFront, this, head?_eq_getElem?]

theorem WF.poolFull_iff (h : rb.WF) : rb.poolFull = true ↔ rb.toList.length = rb.iPoolLen := by
  simp [poolFull, h.length_toList]

theorem init_wf {n : Nat} (hn : 0 < n) : (init n : RingBuffer α).WF where
  start_lt := hn
  num_le := Nat.zero_le _
  end_eq := by simp [init]
  live := by intro i hi; simp [init] at hi
  dead := by intro i _ _; rfl

theorem reInit_wf (h : rb.WF) : rb.reInit.WF :=
  init_wf (Nat.zero_lt_of_lt h.start_lt)

/-- What both forms of `AddData` do to a ring that is not full. -/
def pushed (rb : RingBuffer α) (x : α) : RingBuffer α :=
  { rb with
    iDataNum := rb.iDataNum + 1
    pWaitMsgPool := Function.update rb.pWaitMsgPool rb.pEnd (some x)
    pEnd := rb.next rb.pEnd }

theorem pushed_wf (h : rb.WF) (hn : rb.iDataNum < rb.iPoolLen) (x : α) : (rb.pushed x).WF where
  start_lt := h.start_lt
  num_le := hn
  end_eq := by
    show rb.next rb.pEnd = _
    rw [h.end_eq, next_eq h.start_lt]
    rfl
  live := by
    intro i hi
    show (update rb.pWaitMsgPool rb.pEnd (some x) ((rb.pStart + i) % rb.iPoolLen)).isSome
    rcases Nat.lt_succ_iff_lt_or_eq.mp hi with hlt | heq
    · rw [update_apply]
      split_ifs
      · rfl
      · exact h.live i hlt
    · rw [heq, h.end_eq, update_self]
      rfl
  dead := by
    intro i hge hlt
    have hge' : rb.iDataNum + 1 ≤ i := hge
    show update rb.pWaitMsgPool rb.pEnd (some x) ((rb.pStart + i) % rb.iPoolLen) = none
    rw [update_of_ne]
    · exact h.dead i (by omega) hlt
    · rw [h.end_eq]
      intro he
      have := add_mod_inj hlt hn he
      omega

theorem pushed_toList (h : rb.WF) (hn : rb.iDataNum < rb.iPoolLen) (x : α) :
    (rb.pushed x).toList = rb.toList ++ [x] := by
  apply (pushed_wf h hn x).toList_eq
  show window (update rb.pWaitMsgPool rb.pEnd (some x)) rb.iPoolLen rb.pStart (rb.iDataNum + 1) = _
  rw [h.end_eq, window_push _ hn, h.window_eq]
  simp

theorem addData_eq (h : rb.WF) (x : α) :
    rb.addData x = if rb.toList.length < rb.iPoolLen then some (rb.pushed x) else none := by
  have hle := h.num_le
  rw [addData, h.length_toList]
  by_cases hf : rb.iDataNum = rb.iPoolLen
  · simp [poolFull, hf]
  · rw [if_neg (by simp [poolFull, hf]), if_pos (by omega)]
    rfl

theorem addDataIdx_eq (h : rb.WF) (x : α) (ulIndex : Nat) :
    rb.addDataIdx x ulIndex = if rb.toList.length < rb.iPoolLen ∧ rb.pEnd = ulIndex % rb.iPoolLen then
      some (rb.pushed x) else none := by
  have hle := h.num_le
  rw [addDataIdx, h.length_toList]
  by_cases hf : rb.iDataNum = rb.iPoolLen
  · simp [poolFull, hf]
  · rw [if_neg (by simp [poolFull, hf])]
    by_cases he : rb.pEnd = ulIndex % rb.iPoolLen
    · rw [if_neg (not_not.mpr he), if_pos ⟨by omega, he⟩]
      rfl
    · rw [if_pos he, if_neg fun hc => he hc.2]

theorem popFront_eq (h : rb.WF) (h0 : rb.iDataNum ≠ 0) : rb.popFront =
    (rb.toList.head?,
      { rb with
        iDataNum := rb.iDataNum - 1
        pWaitMsgPool := Function.update rb.pWaitMsgPool rb.pStart none
        pStart := (rb.pStart + 1) % rb.iPoolLen }) := by
  rw [popFront, if_neg h0, start_next h.start_lt, ← h.getFront_eq]
  rfl

theorem popFront_wf (h : rb.WF) : rb.popFront.2.WF := by
  by_cases h0 : rb.iDataNum = 0
  · rw [popFront, if_pos h0]
    exact h
  · rw [popFront_eq h h0]
    refine
      { start_lt := ?_
        num_le := ?_
        end_eq := ?_
        live := ?_
        dead := ?_ }
    · exact Nat.mod_lt _ (Nat.zero_lt_of_lt h.start_lt)
    · exact (Nat.sub_le _ _).trans h.num_le
    · show rb.pEnd = ((rb.pStart + 1) % rb.iPoolLen + (rb.iDataNum - 1)) % rb.iPoolLen
      rw [h.end_eq, Nat.mod_add_mod]
      congr 1
      omega
    · intro i hi
      have hi' : i < rb.iDataNum - 1 := hi
      show (update rb.pWaitMsgPool rb.pStart none
        (((rb.pStart + 1) % rb.iPoolLen + i) % rb.iPoolLen)).isSome
      rw [Nat.mod_add_mod, Nat.add_assoc, update_of_ne]
      · exact h.live _ (by omega)
      · intro he
        have hz : (rb.pStart + (1 + i)) % rb.iPoolLen = (rb.pStart + 0) % rb.iPoolLen := by
          rw [he, Nat.add_zero, Nat.mod_eq_of_lt h.start_lt]
        have hle := h.num_le
        have := add_mod_inj (by omega) (by omega) hz
        omega
    · intro i hge hlt
      have hge' : rb.iDataNum - 1 ≤ i := hge
      have hlt' : i < rb.iPoolLen := hlt
      show update rb.pWaitMsgPool rb.pStart none
        (((rb.pStart + 1) % rb.iPoolLen + i) % rb.iPoolLen) = none
      rw [Nat.mod_add_mod, Nat.add_assoc, update_apply]
      split_ifs with he
      · rfl
      · -- the last cell of the turn is the one just emptied
        rcases Nat.lt_or_ge (1 + i) rb.iPoolLen with hl | hl
        · exact h.dead _ (by omega) hl
        · exfalso
          apply he
          rw [show 1 + i = rb.iPoolLen by omega, Nat.add_mod_right, Nat.mod_eq_of_lt h.start_lt]

theorem popFront_toList (h : rb.WF) :
    rb.popFront.1 = rb.toList.head? ∧ rb.popFront.2.toList = rb.toList.tail := by
  by_cases h0 : rb.iDataNum = 0
  · have hnil : rb.toList = [] := eq_nil_of_length_eq_zero (by rw [h.length_toList, h0])
    have hp : rb.popFront = (none, rb) := by rw [popFront, if_pos h0]
    rw [hp]
    simp [hnil]
  · refine ⟨by rw [popFront_eq h h0], ?_⟩
    apply (popFront_wf h).toList_eq
    rw [popFront_eq h h0]
    have hw := window_cons rb.pWaitMsgPool rb.iPoolLen rb.pStart (rb.iDataNum - 1)
    rw [Nat.sub_add_cancel (Nat.pos_of_ne_zero h0), h.window_eq] at hw
    have hlt : rb.iDataNum - 1 < rb.iPoolLen := by have := h.num_le; omega
    have hu := window_update_before (s := rb.pStart) rb.pWaitMsgPool hlt none
    rw [Nat.mod_eq_of_lt h.start_lt] at hu
    rw [window_mod, hu, map_tail, hw, tail_cons]

end RingBuffer

end RedisProxy
