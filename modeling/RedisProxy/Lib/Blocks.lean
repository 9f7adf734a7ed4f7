import Mathlib

/-!
# Consecutive blocks

Block `j` has `ws[j]` places, and the blocks lie one behind the other. The block of a place is found by the sums
of the sizes before it.
-/

namespace RedisProxy.Lib

open List

/-- The number of its block at every place; the first block has the number `k`. -/
def blocksFrom (k : Nat) (ws : List Nat) : List Nat := (ws.zipIdx k).flatMap fun w => List.replicate w.1 w.2

/-- The number of its block at every place. -/
def blocks (ws : List Nat) : List Nat := blocksFrom 0 ws

@[simp] theorem blocksFrom_nil (k : Nat) : blocksFrom k [] = [] := rfl

@[simp] theorem blocksFrom_cons (k w : Nat) (ws : List Nat) :
    blocksFrom k (w :: ws) = List.replicate w k ++ blocksFrom (k + 1) ws := by
  simp [blocksFrom]

theorem length_blocksFrom (k : Nat) (ws : List Nat) : (blocksFrom k ws).length = ws.sum := by
  induction ws generalizing k with
  | nil => rfl
  | cons w ws ih => simp [ih]

theorem mem_blocksFrom {k j : Nat} {ws : List Nat} (h : j ∈ blocksFrom k ws) : k ≤ j ∧ j < k + ws.length := by
  induction ws generalizing k with
  | nil => simp at h
  | cons w ws ih =>
    rw [blocksFrom_cons, mem_append] at h
    rw [length_cons]
    rcases h with h | h
    · have := eq_of_mem_replicate h
      omega
    · have := ih h
      omega

/-- A place lies in block `k + j` iff it comes behind the blocks before it and not behind its own. -/
theorem blocksFrom_getElem? (k : Nat) (ws : List Nat) (i j : Nat) :
    (blocksFrom k ws)[i]? = some (k + j) ↔ (ws.take j).sum ≤ i ∧ i < (ws.take (j + 1)).sum := by
  induction ws generalizing k i j with
  | nil => simp
  | cons w ws ih =>
    rw [blocksFrom_cons]
    by_cases hi : i < w
    · rw [getElem?_append_left (by simpa using hi), getElem?_replicate, if_pos hi]
      cases j with
      | zero => simp [hi]
      | succ j =>
        simp only [Option.some.injEq, take_succ_cons, sum_cons]
        omega
    · rw [getElem?_append_right (by simpa using hi), length_replicate]
      cases j with
      | zero =>
        constructor
        · intro h
          have := mem_blocksFrom (mem_of_getElem? h)
          omega
        · intro h
          simp at h
          omega
      | succ j =>
        have hk : k + (j + 1) = k + 1 + j := by omega
        rw [hk, ih, take_succ_cons, take_succ_cons, sum_cons, sum_cons]
        omega

theorem blocks_getElem? (ws : List Nat) (i j : Nat) :
    (blocks ws)[i]? = some j ↔ (ws.take j).sum ≤ i ∧ i < (ws.take (j + 1)).sum := by
  have := blocksFrom_getElem? 0 ws i j
  rwa [Nat.zero_add] at this

end RedisProxy.Lib
