import RedisProxy.Proofs.RingBufferProofs

/-!
# `WaitRing`

A `RingBuffer` of a fixed capacity together with its consistency. The events own one each, in
`m_pWaitRing`; only the operations of `RingBuffer` build one, so an inconsistent wait ring does not
exist and the events need not carry its invariant around.
-/

namespace RedisProxy

open Lib

/-- A consistent `RingBuffer` of capacity `n`. -/
structure WaitRing (n : Nat) (α : Type) where
  rb : RingBuffer α
  wf : rb.WF
  len_eq : rb.iPoolLen = n

namespace WaitRing

variable {n : Nat} {α : Type}

/-- `new RingBuffer(n)`. -/
def empty (hn : 0 < n) : WaitRing n α where
  rb := RingBuffer.init n
  wf := RingBuffer.init_wf hn
  len_eq := rfl

/-- `ReInit`. -/
def reInit (r : WaitRing n α) : WaitRing n α where
  rb := r.rb.reInit
  wf := RingBuffer.reInit_wf r.wf
  len_eq := r.len_eq

/-- The queued elements, oldest first. -/
def toList (r : WaitRing n α) : List α := r.rb.toList

/-- `GetNum`. -/
def getNum (r : WaitRing n α) : Nat := r.rb.iDataNum

/-- `RINGBUFFER_POOLFULL`. -/
def poolFull (r : WaitRing n α) : Bool := r.rb.poolFull

/-- `GR_RB_GETFRONT`. -/
def getFront (r : WaitRing n α) : Option α := r.rb.getFront

/-- `GR_RB_GETDATA`. -/
def getData (r : WaitRing n α) (ulIndex : Nat) : Option α := r.rb.getData ulIndex

/-- `GetPre`. -/
def getPre (r : WaitRing n α) (ulIndex : Nat) : Option α := r.rb.getPre ulIndex

theorem addData_wf {r : WaitRing n α} {x : α} {rb' : RingBuffer α} (h : r.rb.addData x = some rb') :
    rb'.WF ∧ rb'.iPoolLen = n := by
  rw [RingBuffer.addData_eq r.wf] at h
  split_ifs at h with hlt
  cases h
  rw [r.wf.length_toList] at hlt
  exact ⟨RingBuffer.pushed_wf r.wf hlt x, r.len_eq⟩

theorem addDataIdx_wf {r : WaitRing n α} {x : α} {ulIndex : Nat} {rb' : RingBuffer α}
    (h : r.rb.addDataIdx x ulIndex = some rb') : rb'.WF ∧ rb'.iPoolLen = n := by
  rw [RingBuffer.addDataIdx_eq r.wf] at h
  split_ifs at h with hlt
  cases h
  rw [r.wf.length_toList] at hlt
  exact ⟨RingBuffer.pushed_wf r.wf hlt.1 x, r.len_eq⟩

theorem popFront_len (r : WaitRing n α) : r.rb.popFront.2.iPoolLen = n := by
  by_cases h0 : r.rb.iDataNum = 0
  · rw [RingBuffer.popFront, if_pos h0]
    exact r.len_eq
  · rw [RingBuffer.popFront_eq r.wf h0]
    exact r.len_eq

/-- `AddData(pData)`; `none` is the result `false`. -/
def addData (r : WaitRing n α) (x : α) : Option (WaitRing n α) :=
  match h : r.rb.addData x with
  | none => none
  | some rb' => some ⟨rb', (addData_wf h).1, (addData_wf h).2⟩

/-- `AddData(pData, ulIndex)`; `none` is the result `false`. -/
def addDataIdx (r : WaitRing n α) (x : α) (ulIndex : Nat) : Option (WaitRing n α) :=
  match h : r.rb.addDataIdx x ulIndex with
  | none => none
  | some rb' => some ⟨rb', (addDataIdx_wf h).1, (addDataIdx_wf h).2⟩

/-- `GR_RB_POPFRONT`. -/
def popFront (r : WaitRing n α) : Option α × WaitRing n α :=
  (r.rb.popFront.1, ⟨r.rb.popFront.2, RingBuffer.popFront_wf r.wf, r.popFront_len⟩)

/-! ## The operations on the queue -/

section Queue

variable (r : WaitRing n α)
variable {ulIndex j : Nat}

theorem length_le : r.toList.length ≤ n := by
  have := r.wf.num_le
  rw [r.len_eq, ← r.wf.length_toList] at this
  exact this

theorem start_lt : r.rb.pStart < n := by
  have := r.wf.start_lt
  rwa [r.len_eq] at this

@[simp] theorem getNum_eq : r.getNum = r.toList.length := r.wf.length_toList.symm

@[simp] theorem getFront_eq : r.getFront = r.toList.head? := r.wf.getFront_eq

@[simp] theorem toList_empty (hn : 0 < n) : (empty hn : WaitRing n α).toList = [] := rfl

@[simp] theorem start_empty (hn : 0 < n) : (empty hn : WaitRing n α).rb.pStart = 0 := rfl

@[simp] theorem toList_reInit : r.reInit.toList = [] := rfl

theorem poolFull_iff : r.poolFull = true ↔ r.toList.length = n := by
  rw [poolFull, r.wf.poolFull_iff, r.len_eq, toList]

/-- `AddData` fails exactly on a full ring. -/
theorem addData_eq_none_iff (x : α) : r.addData x = none ↔ r.toList.length = n := by
  have hle := r.length_le
  have he := RingBuffer.addData_eq r.wf x
  rw [r.len_eq] at he
  rw [addData]
  split
  · rename_i hnone
    rw [hnone] at he
    split_ifs at he with hlt
    exact ⟨fun _ => by rw [toList] at hle ⊢; omega, fun _ => rfl⟩
  · rename_i rb' hsome
    rw [hsome] at he
    split_ifs at he with hlt
    refine ⟨fun h => by simp at h, fun h => ?_⟩
    rw [toList] at h
    omega

variable {r}

/-- An accepted element is the newest of the queue. -/
theorem addData_some {x : α} {r' : WaitRing n α} (h : r.addData x = some r') :
    r.toList.length < n ∧ r'.toList = r.toList ++ [x] ∧ r'.rb.pStart = r.rb.pStart := by
  rw [addData] at h
  split at h
  · cases h
  · rename_i rb' hsome
    cases h
    rw [RingBuffer.addData_eq r.wf, r.len_eq] at hsome
    split_ifs at hsome with hlt
    cases hsome
    have hn : r.rb.iDataNum < r.rb.iPoolLen := by rw [← r.wf.length_toList, r.len_eq]; exact hlt
    exact ⟨hlt, RingBuffer.pushed_toList r.wf hn x, rfl⟩

/-- `AddData` with an index accepts an element only in the cell that the index names. -/
theorem addDataIdx_some {x : α} {r' : WaitRing n α} (h : r.addDataIdx x ulIndex = some r') :
    r.toList.length < n ∧ (r.rb.pStart + r.toList.length) % n = ulIndex % n ∧
      r'.toList = r.toList ++ [x] ∧ r'.rb.pStart = r.rb.pStart := by
  rw [addDataIdx] at h
  split at h
  · cases h
  · rename_i rb' hsome
    cases h
    rw [RingBuffer.addDataIdx_eq r.wf, r.len_eq] at hsome
    split_ifs at hsome with hlt
    cases hsome
    have hn : r.rb.iDataNum < r.rb.iPoolLen := by rw [← r.wf.length_toList, r.len_eq]; exact hlt.1
    refine ⟨hlt.1, ?_, RingBuffer.pushed_toList r.wf hn x, rfl⟩
    rw [← hlt.2, r.wf.end_eq, r.len_eq, toList, r.wf.length_toList]

variable (r)

/-- `AddData` with the index of the next cell succeeds unless the ring is full. -/
theorem addDataIdx_isSome {x : α} (hlt : r.toList.length < n) (hi : (r.rb.pStart + r.toList.length) % n = ulIndex % n) :
    (r.addDataIdx x ulIndex).isSome := by
  have he := RingBuffer.addDataIdx_eq r.wf x ulIndex
  rw [r.len_eq, if_pos] at he
  · rw [addDataIdx]
    split
    · rename_i hnone
      rw [hnone] at he
      simp at he
    · rfl
  · refine ⟨hlt, ?_⟩
    rw [r.wf.end_eq, r.len_eq, ← hi, toList, r.wf.length_toList]

@[simp] theorem popFront_fst : r.popFront.1 = r.toList.head? := (RingBuffer.popFront_toList r.wf).1

@[simp] theorem popFront_toList : r.popFront.2.toList = r.toList.tail :=
  (RingBuffer.popFront_toList r.wf).2

/-- Removing the front moves the start of a non-empty ring to the next cell. -/
theorem popFront_start (h : r.toList ≠ []) : r.popFront.2.rb.pStart = (r.rb.pStart + 1) % n := by
  have h0 : r.rb.iDataNum ≠ 0 := by
    intro h0
    exact h (List.eq_nil_of_length_eq_zero (by rw [toList, r.wf.length_toList, h0]))
  show r.rb.popFront.2.pStart = _
  rw [RingBuffer.popFront_eq r.wf h0, r.len_eq]

/-- The cell that lies `j` cells behind the start holds element `j` of the queue. -/
theorem cell (hj : j < n) : r.rb.pWaitMsgPool ((r.rb.pStart + j) % n) = r.toList[j]? := by
  have := r.wf.cell (j := j) (by rw [r.len_eq]; exact hj)
  rwa [r.len_eq] at this

/-- `GETDATA` at an index that lies `j` cells behind the start yields element `j` of the queue. -/
theorem getData_eq (hj : j < n) (h : ulIndex % n = (r.rb.pStart + j) % n) : r.getData ulIndex = r.toList[j]? := by
  rw [getData, RingBuffer.getData, r.len_eq, h, r.cell hj]

end Queue

end WaitRing

end RedisProxy
