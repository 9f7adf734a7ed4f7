import Mathlib

/-!
# Search in sorted data

Bisection finds the place where a property that holds up to some index stops to hold. In a circle of
points, the point that is next to a position is the first one from there on, or the first one of all
when there is none; adding points replaces the next point by one of the added points or not at all.
-/

namespace RedisProxy.Lib

open List

/-! ## Bisection -/

/-- The loop `while (left < right)` of a bisection, for at most `fuel` rounds. `test` looks at the middle;
it has no result where there is nothing to look at. -/
def bisect (test : Nat → Option Bool) : Nat → Nat → Nat → Option Nat
  | 0, left, right => if left < right then none else some right
  | fuel + 1, left, right =>
    if left < right then
      let middle := left + (right - left) / 2
      match test middle with
      | none => none
      | some true => bisect test fuel (middle + 1) right
      | some false => bisect test fuel left middle
    else some right

/-- Below `n`, the property holds exactly up to `i`. -/
structure IsCut (p : Nat → Prop) (n i : Nat) : Prop where
  le : i ≤ n
  below : ∀ j < i, p j
  above : ∀ j, i ≤ j → j < n → ¬p j

section Bisect

variable {test : Nat → Option Bool} {p : Nat → Prop} [DecidablePred p] {n : Nat}

/-- The loop finds the cut that lies between its bounds; each round halves what is left of them. -/
theorem bisect_loop (hdown : ∀ i j, i ≤ j → j < n → p j → p i) (htest : ∀ m < n, test m = some (decide (p m)))
    (fuel : Nat) : ∀ left right, right - left ≤ fuel → left ≤ right → right ≤ n → (∀ j < left, p j) →
      (∀ j, right ≤ j → j < n → ¬p j) → ∃ i, bisect test fuel left right = some i ∧ IsCut p n i := by
  induction fuel with
  | zero =>
    intro left right hfuel hle hn hbelow habove
    refine ⟨right, if_neg (by omega), hn, fun j hj => hbelow j (by omega), habove⟩
  | succ fuel ih =>
    intro left right hfuel hle hn hbelow habove
    rw [bisect]
    by_cases hlt : left < right
    · have hmid : left + (right - left) / 2 < right := by omega
      rw [if_pos hlt]
      dsimp only
      rw [htest _ (by omega)]
      by_cases hp : p (left + (right - left) / 2)
      · rw [decide_eq_true hp]
        refine ih _ _ (by omega) (by omega) hn ?_ habove
        intro j hj
        exact hdown j _ (by omega) (by omega) hp
      · rw [decide_eq_false hp]
        refine ih _ _ (by omega) (by omega) (by omega) hbelow ?_
        intro j hj hjn hpj
        exact hp (hdown _ j hj hjn hpj)
    · rw [if_neg hlt]
      exact ⟨right, rfl, hn, fun j hj => hbelow j (by omega), habove⟩

theorem bisect_cut (hdown : ∀ i j, i ≤ j → j < n → p j → p i) (htest : ∀ m < n, test m = some (decide (p m))) :
    ∃ i, bisect test n 0 n = some i ∧ IsCut p n i := by
  apply bisect_loop hdown htest n 0 n (Nat.sub_le n 0) (Nat.zero_le n) le_rfl
  · intro j hj
    exact absurd hj (Nat.not_lt_zero j)
  · intro j hj hjn
    omega

end Bisect

/-- The entry at the cut is the first one without the property. -/
theorem IsCut.find {α : Type*} {q : α → Bool} {l : List α} {i : Nat}
    (h : IsCut (fun j => ∃ a ∈ l[j]?, q a = false) l.length i) : l.find? q = l[i]? := by
  induction l generalizing i with
  | nil => simp
  | cons a l ih =>
    cases i with
    | zero =>
      have ha : q a = true := by
        by_contra hq
        exact h.above 0 le_rfl (Nat.succ_pos _) ⟨a, rfl, Bool.eq_false_iff.mpr hq⟩
      rw [find?_cons_of_pos ha, getElem?_cons_zero]
    | succ i =>
      obtain ⟨b, hb, hq⟩ := h.below 0 (Nat.succ_pos _)
      obtain rfl : a = b := Option.some.inj hb
      rw [find?_cons_of_neg (by rw [hq]; exact Bool.false_ne_true), getElem?_cons_succ]
      apply ih
      refine ⟨Nat.le_of_succ_le_succ h.le, fun j hj => ?_, fun j hj hjn => ?_⟩
      · exact h.below (j + 1) (Nat.succ_lt_succ hj)
      · exact h.above (j + 1) (Nat.succ_le_succ hj) (Nat.succ_lt_succ hjn)

/-! ## The next point of a circle -/

section Circle

variable {α : Type*} [LinearOrder α] {S T : Set α} {h v w : α}

/-- `v` is the first of the points `S` from `h` on, or the first of all if they all lie before `h`. -/
structure IsNext (S : Set α) (h v : α) : Prop where
  mem : v ∈ S
  first : (h ≤ v ∧ ∀ u ∈ S, h ≤ u → v ≤ u) ∨ ((∀ u ∈ S, u < h) ∧ ∀ u ∈ S, v ≤ u)

/-- After points have been added, the next point is one of them or the old one. -/
theorem IsNext.union (hv : IsNext S h v) (hw : IsNext (S ∪ T) h w) : w ∈ T ∨ w = v := by
  rcases hw.mem with hwS | hwT
  · right
    have hvU : v ∈ S ∪ T := .inl hv.mem
    rcases hv.first with ⟨hle, hmin⟩ | ⟨hall, hmin⟩
    · rcases hw.first with ⟨hle', hmin'⟩ | ⟨hall', -⟩
      · exact le_antisymm (hmin' v hvU hle) (hmin w hwS hle')
      · exact absurd hle (not_le.mpr (hall' v hvU))
    · rcases hw.first with ⟨hle', -⟩ | ⟨-, hmin'⟩
      · exact absurd hle' (not_le.mpr (hall w hwS))
      · exact le_antisymm (hmin' v hvU) (hmin w hwS)
  · exact .inl hwT

/-- The first entry of a sorted list from `h` on, or its first entry. -/
theorem isNext_find {β : Type*} {f : β → α} {l : List β} (hne : l ≠ []) (hs : l.Pairwise fun a b => f a ≤ f b) (h : α) :
    IsNext {v | ∃ b ∈ l, f b = v} h (f ((l.find? fun b => decide (h ≤ f b)).getD (l.head hne))) := by
  cases hfind : l.find? fun b => decide (h ≤ f b) with
  | none =>
    have hall : ∀ b ∈ l, f b < h := by
      intro b hb
      simpa using find?_eq_none.mp hfind b hb
    refine ⟨⟨l.head hne, head_mem hne, rfl⟩, .inr ⟨?_, ?_⟩⟩
    · rintro u ⟨b, hb, rfl⟩
      exact hall b hb
    · rintro u ⟨b, hb, rfl⟩
      cases l with
      | nil => exact absurd rfl hne
      | cons a l =>
        rcases mem_cons.mp hb with rfl | hb
        · exact le_rfl
        · exact (pairwise_cons.mp hs).1 b hb
  | some b =>
    obtain ⟨hb, as, bs, rfl, hbefore⟩ := find?_eq_some_iff_append.mp hfind
    refine ⟨⟨b, by simp, rfl⟩, .inl ⟨of_decide_eq_true hb, ?_⟩⟩
    rintro u ⟨c, hc, rfl⟩ hle
    rcases mem_append.mp hc with hc | hc
    · exact absurd (decide_eq_true hle) (by simpa using hbefore c hc)
    · rcases mem_cons.mp hc with rfl | hc
      · exact le_rfl
      · exact (pairwise_cons.mp (pairwise_append.mp hs).2.1).1 c hc

end Circle

end RedisProxy.Lib
