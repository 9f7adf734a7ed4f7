import RedisProxy.Lib.VecWrite

/-!
# In-order delivery of answers that complete out of order

Questions are answered in any order, and the answers are delivered in the order of the questions,
some bytes at a time. `replies` are the answers to all questions so far, `rest` is what is still to be
delivered, from the first question on whose answer has not been delivered completely.
-/

namespace RedisProxy.Lib

open List

variable {β : Type}

/-- The answers in front of the first question that has none. -/
def answered : List (Option (List β)) → List (List β)
  | some x :: l => x :: answered l
  | _ => []

/-- Puts the delivered part of the first answer back in front of it. -/
def attach (part : List β) : List (Option (List β)) → List (Option (List β))
  | some x :: l => some (part ++ x) :: l
  | l => l

/-- The first `n` answers have been delivered completely, `sent` are these and a part of the next one,
and `rest` is what is left. -/
def InOrder (replies : List (Option (List β))) (n : Nat) (rest : List (Option (List β)))
    (sent : List β) : Prop :=
  ∃ (D : List (List β)) (part : List β), D.length = n ∧ replies = D.map some ++ attach part rest ∧ sent = D.flatten ++ part ∧
    (part ≠ [] → ∃ x l, rest = some x :: l)

@[simp] theorem attach_nil (l : List (Option (List β))) : attach [] l = l := by
  rcases l with _ | ⟨_ | x, l⟩ <;> rfl

@[simp] theorem attach_length (part : List β) (l : List (Option (List β))) :
    (attach part l).length = l.length := by
  rcases l with _ | ⟨_ | x, l⟩ <;> rfl

theorem answered_append (D : List (List β)) (l : List (Option (List β))) :
    answered (D.map some ++ l) = D ++ answered l := by
  induction D with
  | nil => rfl
  | cons x D ih => simp [answered, ih]

namespace InOrder

variable {replies rest : List (Option (List β))} {n : Nat} {sent : List β}

theorem init : InOrder ([] : List (Option (List β))) 0 [] [] :=
  ⟨[], [], rfl, rfl, rfl, fun h => absurd rfl h⟩

theorem length_eq (h : InOrder replies n rest sent) : replies.length = n + rest.length := by
  obtain ⟨D, part, rfl, rfl, -, -⟩ := h
  simp

/-- A new question is asked. -/
theorem ask (h : InOrder replies n rest sent) : InOrder (replies ++ [none]) n (rest ++ [none]) sent := by
  obtain ⟨D, part, hn, rfl, hs, hp⟩ := h
  refine ⟨D, part, hn, ?_, hs, ?_⟩
  · rw [append_assoc]
    rcases rest with _ | ⟨_ | x, l⟩ <;> rfl
  · intro hne
    obtain ⟨x, l, rfl⟩ := hp hne
    exact ⟨x, l ++ [none], rfl⟩

/-- A question that had no answer gets one. -/
theorem answer (h : InOrder replies n rest sent) {j : Nat} (hj : rest[j]? = some none) (r : List β) :
    InOrder (replies.set (n + j) (some r)) n (rest.set j (some r)) sent := by
  obtain ⟨D, part, rfl, rfl, hs, hp⟩ := h
  have hset : ∀ l : List (Option (List β)), (D.map some ++ l).set (D.length + j) (some r) =
      D.map some ++ l.set j (some r) := by
    intro l
    rw [set_append_right _ _ (by simp)]
    simp
  refine ⟨D, part, rfl, ?_, hs, ?_⟩
  · rw [hset]
    rcases rest with _ | ⟨_ | x, l⟩
    · rfl
    · -- the first question has no answer yet, so nothing of it has been delivered
      have hnil : part = [] := by
        by_contra hne
        obtain ⟨x, l', he⟩ := hp hne
        simp at he
      rw [hnil, attach_nil, attach_nil]
    · cases j with
      | zero => simp at hj
      | succ j => rfl
  · intro hne
    obtain ⟨x, l, rfl⟩ := hp hne
    cases j with
    | zero => simp at hj
    | succ j => exact ⟨x, l.set j (some r), rfl⟩

/-- `k` bytes of the answers `L` at the front go out. -/
theorem send : ∀ (L : List (List β)) (n k : Nat) (T : List (Option (List β))) (sent : List β),
    InOrder replies n (L.map some ++ T) sent → k ≤ L.flatten.length →
      InOrder replies (n + (consume k L).1) ((consume k L).2.map some ++ T) (sent ++ L.flatten.take k) := by
  intro L
  induction L with
  | nil =>
    intro n k T sent h hk
    have hk0 : k = 0 := by simpa using hk
    simpa using h
  | cons x L ih =>
    intro n k T sent h hk
    obtain ⟨D, part, rfl, hr, rfl, -⟩ := h
    rw [flatten_cons, length_append] at hk
    rcases Nat.lt_or_ge k x.length with hlt | hge
    · -- the bytes end inside the first answer
      rw [consume_cons_gt L hlt]
      refine ⟨D, part ++ x.take k, rfl, ?_, ?_, fun _ => ⟨_, _, rfl⟩⟩
      · rw [hr]
        simp [attach]
      · rw [flatten_cons, take_append_of_le_length hlt.le, append_assoc]
    · rw [consume_cons_le L hge]
      have hnext : InOrder replies (D ++ [part ++ x]).length (L.map some ++ T)
          (D.flatten ++ part ++ x) := by
        refine ⟨D ++ [part ++ x], [], rfl, ?_, ?_, fun h => absurd rfl h⟩
        · rw [hr, attach_nil]
          simp [attach]
        · simp
      have hih := ih _ (k - x.length) T _ hnext (by omega)
      rw [length_append, length_singleton, Nat.add_assoc, Nat.add_comm 1] at hih
      rw [flatten_cons, take_append, take_of_length_le hge]
      simpa [append_assoc] using hih

/-- What has been delivered is a prefix of the answers in the order of the questions. -/
theorem sent_prefix (h : InOrder replies n rest sent) : sent <+: (answered replies).flatten := by
  obtain ⟨D, part, -, rfl, rfl, hp⟩ := h
  rw [answered_append, flatten_append]
  rcases eq_or_ne part [] with rfl | hne
  · rw [append_nil]
    exact prefix_append _ _
  · obtain ⟨x, l, rfl⟩ := hp hne
    simp only [attach, answered, flatten_cons, append_assoc]
    rw [← append_assoc]
    exact prefix_append _ _

/-- The first `n` answers exist and have been delivered to their last byte. -/
theorem delivered (h : InOrder replies n rest sent) :
    ∃ D : List (List β), replies.take n = D.map some ∧ D.flatten <+: sent := by
  obtain ⟨D, part, rfl, rfl, rfl, -⟩ := h
  exact ⟨D, by rw [take_left' (by simp)], prefix_append _ _⟩

end InOrder

end RedisProxy.Lib
