import Mathlib

/-!
# Vectored writes

A writer holds a list of segments and hands them to a device that takes any number of elements off
the front of their concatenation. `consume` is the bookkeeping behind this: which segments are
exhausted and what is left of the others.
-/

namespace RedisProxy.Lib

open List

variable {β : Type}
variable {k : Nat}

/-- `k` elements leave through the front: the number of exhausted segments, and the rest. -/
def consume : Nat → List (List β) → Nat × List (List β)
  | _, [] => (0, [])
  | k, x :: l =>
    if x.length ≤ k then ((consume (k - x.length) l).1 + 1, (consume (k - x.length) l).2)
    else (0, x.drop k :: l)

@[simp] theorem consume_nil (k : Nat) : consume k ([] : List (List β)) = (0, []) := rfl

theorem consume_cons_le {x : List β} (l : List (List β)) (h : x.length ≤ k) :
    consume k (x :: l) = ((consume (k - x.length) l).1 + 1, (consume (k - x.length) l).2) := by
  rw [consume, if_pos h]

theorem consume_cons_gt {x : List β} (l : List (List β)) (h : k < x.length) :
    consume k (x :: l) = (0, x.drop k :: l) := by
  rw [consume, if_neg (Nat.not_le.mpr h)]

/-- What is left is what the device did not take. -/
theorem consume_flatten (k : Nat) (l : List (List β)) : (consume k l).2.flatten = l.flatten.drop k := by
  induction l generalizing k with
  | nil => simp
  | cons x l ih =>
    rcases Nat.lt_or_ge k x.length with h | h
    · rw [consume_cons_gt l h, flatten_cons, flatten_cons, drop_append_of_le_length h.le]
    · rw [consume_cons_le l h, flatten_cons, ih, drop_append, drop_of_length_le h,
        nil_append]

/-- Every segment is either exhausted or left. -/
theorem consume_length (k : Nat) (l : List (List β)) : (consume k l).1 + (consume k l).2.length = l.length := by
  induction l generalizing k with
  | nil => simp
  | cons x l ih =>
    rcases Nat.lt_or_ge k x.length with h | h
    · rw [consume_cons_gt l h]
      simp
    · have := ih (k - x.length)
      rw [consume_cons_le l h, length_cons]
      simp only
      omega

theorem consume_le (k : Nat) (l : List (List β)) : (consume k l).1 ≤ l.length := by
  have := consume_length k l
  omega

/-- No segment of the rest is empty if none was empty before. -/
theorem consume_ne_nil {l : List (List β)} (hl : ∀ x ∈ l, x ≠ []) : ∀ x ∈ (consume k l).2, x ≠ [] := by
  induction l generalizing k with
  | nil => simp
  | cons y l ih =>
    have hl' : ∀ x ∈ l, x ≠ [] := fun x hx => hl x (mem_cons_of_mem _ hx)
    rcases Nat.lt_or_ge k y.length with h | h
    · rw [consume_cons_gt l h]
      intro x hx
      rcases mem_cons.mp hx with rfl | hx
      · intro hnil
        have := drop_eq_nil_iff.mp hnil
        omega
      · exact hl' x hx
    · rw [consume_cons_le l h]
      exact ih hl'

/-- An exhausted segment was taken to its last element. -/
theorem consume_take_le (k : Nat) (l : List (List β)) : (l.take (consume k l).1).flatten.length ≤ k := by
  induction l generalizing k with
  | nil => simp
  | cons x l ih =>
    rcases Nat.lt_or_ge k x.length with h | h
    · rw [consume_cons_gt l h]
      simp
    · have := ih (k - x.length)
      rw [consume_cons_le l h, take_succ_cons, flatten_cons, length_append]
      omega

theorem consume_zero {l : List (List β)} (hl : ∀ x ∈ l, x ≠ []) : consume 0 l = (0, l) := by
  cases l with
  | nil => rfl
  | cons x l =>
    rw [consume_cons_gt l (length_pos_iff.mpr (hl x (mem_cons_self ..)))]
    rfl

/-- Two takings in a row are one. -/
theorem consume_add (k k' : Nat) (l : List (List β)) :
    consume (k + k') l =
      ((consume k l).1 + (consume k' (consume k l).2).1, (consume k' (consume k l).2).2) := by
  induction l generalizing k with
  | nil => simp
  | cons x l ih =>
    rcases Nat.lt_or_ge k x.length with h | h
    · rw [consume_cons_gt l h]
      rcases Nat.lt_or_ge (k + k') x.length with h' | h'
      · rw [consume_cons_gt l h', consume_cons_gt l (by rw [length_drop]; omega), drop_drop]
        rfl
      · rw [consume_cons_le l h', consume_cons_le l (by rw [length_drop]; omega), length_drop,
          show k' - (x.length - k) = k + k' - x.length by omega]
        simp
    · rw [consume_cons_le l h, consume_cons_le l (by omega : x.length ≤ k + k'),
        show k + k' - x.length = k - x.length + k' by omega, ih]
      simp only [Nat.add_right_comm]

/-- Segments behind those that the device takes from stay as they are. -/
theorem consume_append (l₁ : List (List β)) {l₂ : List (List β)} (hl : ∀ x ∈ l₂, x ≠ []) (hk : k ≤ l₁.flatten.length) :
    consume k (l₁ ++ l₂) = ((consume k l₁).1, (consume k l₁).2 ++ l₂) := by
  induction l₁ generalizing k with
  | nil =>
    have hk0 : k = 0 := by simpa using hk
    subst hk0
    cases l₂ with
    | nil => rfl
    | cons x l₂ =>
      have hx := length_pos_iff.mpr (hl x (mem_cons_self ..))
      rw [nil_append, consume_cons_gt l₂ hx]
      rfl
  | cons x l₁ ih =>
    rw [flatten_cons, length_append] at hk
    rcases Nat.lt_or_ge k x.length with h | h
    · rw [cons_append, consume_cons_gt _ h, consume_cons_gt _ h]
      rfl
    · rw [cons_append, consume_cons_le _ h, consume_cons_le _ h, ih (by omega)]

/-- A segment that the taken elements cover is exhausted. -/
theorem le_consume {j : Nat} {l : List (List β)} (hj : j ≤ l.length) (h : (l.take j).flatten.length ≤ k) :
    j ≤ (consume k l).1 := by
  induction l generalizing j k with
  | nil => simpa using hj
  | cons x l ih =>
    cases j with
    | zero => exact Nat.zero_le _
    | succ j =>
      rw [take_succ_cons, flatten_cons, length_append] at h
      rw [consume_cons_le l (by omega)]
      exact Nat.succ_le_succ (ih (Nat.le_of_succ_le_succ hj) (by omega))

/-- All segments are exhausted exactly if the device took everything. -/
theorem consume_all_iff {l : List (List β)} : (consume k l).1 = l.length ↔ l.flatten.length ≤ k := by
  constructor
  · intro h
    have := consume_take_le k l
    rwa [h, take_length] at this
  · intro h
    have h1 := le_consume (k := k) le_rfl (by rwa [take_length])
    exact le_antisymm (consume_le k l) h1

/-- `f` applied `j` times, `none` as soon as one application fails. -/
def iterOpt {σ : Type} (f : σ → Option σ) : Nat → σ → Option σ
  | 0, s => some s
  | j + 1, s => (f s).bind (iterOpt f j)

end RedisProxy.Lib
