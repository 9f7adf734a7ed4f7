import Mathlib

/-!
# Circular windows

A window of `k` consecutive cells of a circular array of length `n`, read off from cell `s` on.
The cells are a function on `Nat`; only those below `n` are ever inspected. A queue that lives in a
circular array is such a window: adding at the back writes the first cell after it, removing from
the front shifts its start by one.
-/

namespace RedisProxy.Lib

open List Function

variable {α : Type}
variable {n s i k : Nat}

/-- The `k` cells of the circular array `f` of length `n` that start at cell `s`. -/
def window (f : Nat → α) (n s k : Nat) : List α :=
  (List.range k).map fun i => f ((s + i) % n)

@[simp] theorem window_zero (f : Nat → α) (n s : Nat) : window f n s 0 = [] := rfl

@[simp] theorem window_length (f : Nat → α) (n s k : Nat) : (window f n s k).length = k := by
  simp [window]

/-- Two offsets below `n` name the same cell only if they are equal. -/
theorem add_mod_inj {j : Nat} (hi : i < n) (hj : j < n) (h : (s + i) % n = (s + j) % n) : i = j := by
  have hm : i ≡ j [MOD n] := Nat.ModEq.add_left_cancel' s h
  rwa [Nat.ModEq, Nat.mod_eq_of_lt hi, Nat.mod_eq_of_lt hj] at hm

/-- The cells from offset `m` on, within one turn, are none of the `m` cells that start at `s`. -/
theorem mod_outside {m : Nat} (hm : m ≤ i) (hi : i < n) : (s + i) % n < s % n ∨ s % n + m ≤ (s + i) % n := by
  by_contra hcon
  obtain ⟨h1, h2⟩ := not_or.mp hcon
  obtain ⟨t, ht⟩ := Nat.exists_eq_add_of_le (Nat.not_lt.mp h1)
  have he : (s + i) % n = (s + t) % n := by rw [← Nat.mod_add_mod s n t, ← ht, Nat.mod_mod]
  have := add_mod_inj hi (by omega) he
  omega

theorem getElem?_window (f : Nat → α) (n s : Nat) (h : i < k) : (window f n s k)[i]? = some (f ((s + i) % n)) := by
  simp [window, h]

/-- A window only depends on its start modulo the length. -/
theorem window_mod (f : Nat → α) (n s k : Nat) : window f n (s % n) k = window f n s k := by
  simp [window]

/-- Two arrays that agree on the cells of a window have the same window. -/
theorem window_congr {f g : Nat → α}
    (h : ∀ i < k, f ((s + i) % n) = g ((s + i) % n)) : window f n s k = window g n s k := by
  apply map_congr_left
  intro i hi
  exact h i (mem_range.mp hi)

/-- The window grows at the back by the next cell. -/
theorem window_succ (f : Nat → α) (n s k : Nat) :
    window f n s (k + 1) = window f n s k ++ [f ((s + k) % n)] := by
  simp [window, range_succ]

/-- The window starts with its first cell. -/
theorem window_cons (f : Nat → α) (n s k : Nat) :
    window f n s (k + 1) = f (s % n) :: window f n (s + 1) k := by
  simp only [window, range_succ_eq_map, map_cons, map_map, Nat.add_zero]
  refine congrArg _ (map_congr_left fun i _ => ?_)
  simp only [comp_apply, Nat.succ_eq_add_one]
  rw [Nat.add_right_comm, Nat.add_assoc]

/-- Two adjacent windows form one. -/
theorem window_append (f : Nat → α) (n s j k : Nat) :
    window f n s (j + k) = window f n s j ++ window f n (s + j) k := by
  induction k with
  | zero => simp
  | succ k ih => rw [← Nat.add_assoc, window_succ, ih, window_succ, append_assoc, Nat.add_assoc]

/-- Writing the first cell after a window that does not fill the array leaves the window alone. -/
theorem window_update_after (f : Nat → α) (hk : k < n) (x : α) :
    window (Function.update f ((s + k) % n) x) n s k = window f n s k := by
  apply window_congr
  intro i hi
  apply update_of_ne
  intro he
  have := add_mod_inj (by omega) hk he
  omega

/-- Adding at the back: the written cell becomes the last of the window. -/
theorem window_push (f : Nat → α) (hk : k < n) (x : α) :
    window (Function.update f ((s + k) % n) x) n s (k + 1) = window f n s k ++ [x] := by
  rw [window_succ, window_update_after f hk, update_self]

/-- Writing the first cell of a window replaces its head. -/
theorem window_update_head (f : Nat → α) (hk : k + 1 ≤ n) (x : α) :
    window (Function.update f (s % n) x) n s (k + 1) = x :: window f n (s + 1) k := by
  rw [window_cons, update_self]
  refine congrArg _ (window_congr fun i hi => ?_)
  apply update_of_ne
  intro he
  have h1 : (s + (1 + i)) % n = (s + 0) % n := by rw [← Nat.add_assoc]; simpa using he
  have := add_mod_inj (by omega) (by omega) h1
  omega

/-- Writing the cell just before a window that does not fill the array leaves the window alone. -/
theorem window_update_before (f : Nat → α) (hk : k < n) (x : α) :
    window (Function.update f (s % n) x) n (s + 1) k = window f n (s + 1) k := by
  have h := window_update_head (s := s) f hk x
  rw [window_cons] at h
  exact (cons.inj h).2

/-- A window that does not reach the end of the array is read without wrapping. -/
theorem window_eq_slice {f : Nat → α} (h : s + k ≤ n) : window f n s k = (List.range k).map fun i => f (s + i) := by
  apply map_congr_left
  intro i hi
  have := mem_range.mp hi
  rw [Nat.mod_eq_of_lt (by omega)]

end RedisProxy.Lib
