import Mathlib

/-!
# Doubly linked lists

The nodes are linked by two functions. `Linked next prev pre head l` says that the nodes reached from `head` by `next` are
those of `l`, in this order and up to a null pointer, and that `prev` leads back along them and from the first one to
`pre`. A node is removed by making its neighbours point to each other.
-/

namespace RedisProxy.Lib

open List Option

variable {α : Type}

/-- The nodes from `head` on are those of `l`, linked in both directions. -/
def Linked (next prev : α → Option α) : Option α → Option α → List α → Prop
  | _, head, [] => head = none
  | pre, head, p :: l => head = some p ∧ prev p = pre ∧ Linked next prev (some p) (next p) l

/-- At most `n` nodes from `head` on. -/
def walk (next : α → Option α) : Nat → Option α → List α
  | 0, _ => []
  | _, none => []
  | n + 1, some p => p :: walk next n (next p)

namespace Linked

variable {next prev next' prev' : α → Option α} {pre head : Option α} {p : α} {a b l : List α}

theorem head_eq (h : Linked next prev pre head l) : head = l.head? := by
  cases l with
  | nil => exact h
  | cons p l => exact h.1

/-- The links of other nodes do not matter. -/
theorem congr (h : Linked next prev pre head l) (hl : ∀ q ∈ l, next' q = next q ∧ prev' q = prev q) :
    Linked next' prev' pre head l := by
  induction l generalizing pre head with
  | nil => exact h
  | cons q l ih =>
    obtain ⟨hhead, hprev, hrest⟩ := h
    obtain ⟨hn, hp⟩ := hl q (mem_cons_self ..)
    refine ⟨hhead, hp.trans hprev, ?_⟩
    rw [hn]
    exact ih hrest fun r hr => hl r (mem_cons_of_mem _ hr)

/-- A list is determined by its first node. -/
theorem unique {l' : List α} {pre' : Option α} (h : Linked next prev pre head l) (h' : Linked next prev pre' head l') :
    l = l' := by
  induction l generalizing pre pre' head l' with
  | nil =>
    cases l' with
    | nil => rfl
    | cons q l' => exact absurd (h.symm.trans h'.1) (by simp)
  | cons q l ih =>
    cases l' with
    | nil => exact absurd (h'.symm.trans h.1) (by simp)
    | cons r l' =>
      have hqr : q = r := some.inj (h.1.symm.trans h'.1)
      subst hqr
      rw [ih h.2.2 h'.2.2]

/-- The node before `p`. -/
theorem prev_eq (h : Linked next prev pre head (a ++ p :: b)) : prev p = a.getLast?.or pre := by
  induction a generalizing pre head with
  | nil => exact h.2.1
  | cons q a ih =>
    rw [ih h.2.2]
    cases a with
    | nil => rfl
    | cons r a => rw [getLast?_cons_cons, getLast?_cons, some_or, some_or]

/-- The node behind `p`. -/
theorem next_eq (h : Linked next prev pre head (a ++ p :: b)) : next p = b.head? := by
  induction a generalizing pre head with
  | nil => exact h.2.2.head_eq
  | cons q a ih => exact ih h.2.2

/-- The nodes from `p` on. -/
theorem rest (h : Linked next prev pre head (a ++ p :: b)) : ∃ pre', Linked next prev pre' (some p) (p :: b) := by
  induction a generalizing pre head with
  | nil =>
    obtain ⟨-, hprev, hrest⟩ := h
    exact ⟨pre, rfl, hprev, hrest⟩
  | cons q a ih => exact ih h.2.2

/-- No node comes twice: the nodes behind it would be the same. -/
theorem nodup (h : Linked next prev pre head l) : l.Nodup := by
  induction l generalizing pre head with
  | nil => exact nodup_nil
  | cons p l ih =>
    refine nodup_cons.mpr ⟨fun hp => ?_, ih h.2.2⟩
    obtain ⟨a, b, rfl⟩ := append_of_mem hp
    obtain ⟨pre', hrest⟩ := h.2.2.rest
    have hself : Linked next prev pre (some p) (p :: (a ++ p :: b)) := ⟨rfl, h.2.1, h.2.2⟩
    have hlen := congrArg List.length (hrest.unique hself)
    simp only [length_cons, length_append] at hlen
    omega

/-- A walk of at most `n` nodes sees the first `n` of the list. -/
theorem walk_eq (h : Linked next prev pre head l) (n : Nat) : walk next n head = l.take n := by
  induction n generalizing pre head l with
  | zero => rfl
  | succ n ih =>
    cases l with
    | nil => rw [show head = none from h]; rfl
    | cons p l =>
      obtain ⟨rfl, -, hrest⟩ := h
      rw [walk, ih hrest, take_succ_cons]

variable [DecidableEq α]

/-- A node is put in front. -/
theorem push (h : Linked next prev none head l) (hnext : next' p = head) (hprev : prev' p = none)
    (hn : ∀ q ∈ l, next' q = next q) (hp : ∀ q ∈ l, prev' q = if head = some q then some p else prev q) :
    Linked next' prev' none (some p) (p :: l) := by
  refine ⟨rfl, hprev, ?_⟩
  rw [hnext]
  have hnodup := h.nodup
  cases l with
  | nil => exact h
  | cons u l =>
    obtain ⟨hu, -, hrest⟩ := h
    refine ⟨hu, ?_, ?_⟩
    · rw [hp u (mem_cons_self ..), if_pos hu]
    · rw [hn u (mem_cons_self ..)]
      refine hrest.congr fun q hq => ⟨hn q (mem_cons_of_mem _ hq), ?_⟩
      have hne : head ≠ some q := by
        rintro rfl
        exact (nodup_cons.mp hnodup).1 (some.inj hu ▸ hq)
      rw [hp q (mem_cons_of_mem _ hq), if_neg hne]

/-- The first node is taken away. -/
theorem pop (h : Linked next prev none (some p) (p :: l)) (hn : ∀ q ∈ l, next' q = next q)
    (hp : ∀ q ∈ l, prev' q = if next p = some q then none else prev q) : Linked next' prev' none (next p) l := by
  obtain ⟨-, -, hrest⟩ := h
  have hnodup := hrest.nodup
  cases l with
  | nil => exact hrest
  | cons u l =>
    obtain ⟨hu, -, hrest⟩ := hrest
    refine ⟨hu, ?_, ?_⟩
    · rw [hp u (mem_cons_self ..), if_pos hu]
    · rw [hn u (mem_cons_self ..)]
      refine hrest.congr fun q hq => ⟨hn q (mem_cons_of_mem _ hq), ?_⟩
      have hne : next p ≠ some q := by
        rw [hu]
        rintro hq'
        exact (nodup_cons.mp hnodup).1 (some.inj hq' ▸ hq)
      rw [hp q (mem_cons_of_mem _ hq), if_neg hne]

/-- The neighbours of `p` point to each other. The induction is on the nodes before `p`; `pre` is outside of the list. -/
theorem remove_from (h : Linked next prev pre head (a ++ p :: b)) (hpre : ∀ q ∈ a ++ p :: b, pre ≠ some q)
    (hn : ∀ q ∈ a ++ b, next' q = if prev p = some q then next p else next q)
    (hp : ∀ q ∈ a ++ b, prev' q = if next p = some q then prev p else prev q) :
    Linked next' prev' pre (if head = some p then next p else head) (a ++ b) := by
  have hnodup := h.nodup
  induction a generalizing pre head with
  | nil =>
    obtain ⟨hhead, hprev, hrest⟩ := h
    rw [if_pos hhead]
    cases b with
    | nil => exact hrest
    | cons r b =>
      obtain ⟨hr, -, hrest⟩ := hrest
      have hpr : ∀ q ∈ r :: b, prev p ≠ some q := fun q hq => hprev ▸ hpre q (mem_cons_of_mem _ hq)
      refine ⟨hr, ?_, ?_⟩
      · rw [hp r (mem_cons_self ..), if_pos hr, hprev]
      · rw [hn r (mem_cons_self ..), if_neg (hpr r (mem_cons_self ..))]
        refine hrest.congr fun q hq => ⟨?_, ?_⟩
        · rw [hn q (mem_cons_of_mem _ hq), if_neg (hpr q (mem_cons_of_mem _ hq))]
        · have hne : next p ≠ some q := by
            rw [hr]
            rintro hq'
            exact (nodup_cons.mp (nodup_cons.mp hnodup).2).1 (some.inj hq' ▸ hq)
          rw [hp q (mem_cons_of_mem _ hq), if_neg hne]
  | cons x a ih =>
    obtain ⟨hhead, hprev, hrest⟩ := h
    have hx : x ∉ a ++ p :: b := (nodup_cons.mp hnodup).1
    have hxp : x ≠ p := by
      rintro rfl
      exact hx (by simp)
    have hxb : next p ≠ some x := by
      rw [hrest.next_eq]
      intro hb
      exact hx (mem_append_right _ (mem_cons_of_mem _ (mem_of_mem_head? hb)))
    have hbehind : prev p = some x ↔ next x = some p := by
      rw [hrest.prev_eq, hrest.head_eq]
      cases a with
      | nil => simp
      | cons y a =>
        have hy : y ≠ p := by
          rintro rfl
          exact (nodup_cons.mp hrest.nodup).1 (by simp)
        rw [getLast?_eq_some_getLast (by simp), some_or]
        constructor
        · intro hlast
          exact absurd (mem_append_left _ (some.inj hlast ▸ getLast_mem _)) hx
        · intro hhead'
          exact absurd (some.inj hhead') hy
    refine ⟨?_, ?_, ?_⟩
    · rw [if_neg (by rw [hhead]; exact fun h => hxp (some.inj h)), hhead]
    · rw [hp x (mem_cons_self ..), if_neg hxb, hprev]
    · have htail := ih hrest (fun q hq h => hx (some.inj h ▸ hq)) (fun q hq => hn q (mem_cons_of_mem _ hq))
        (fun q hq => hp q (mem_cons_of_mem _ hq)) hrest.nodup
      rw [hn x (mem_cons_self ..)]
      by_cases hxnext : next x = some p
      · rw [if_pos (hbehind.mpr hxnext)]
        rwa [if_pos hxnext] at htail
      · rw [if_neg fun h => hxnext (hbehind.mp h)]
        rwa [if_neg hxnext] at htail

/-- A node is removed. -/
theorem remove (h : Linked next prev none head (a ++ p :: b))
    (hn : ∀ q ∈ a ++ b, next' q = if prev p = some q then next p else next q)
    (hp : ∀ q ∈ a ++ b, prev' q = if next p = some q then prev p else prev q) :
    Linked next' prev' none (if head = some p then next p else head) (a ++ b) :=
  h.remove_from (fun _ _ => by simp) hn hp

end Linked

end RedisProxy.Lib
