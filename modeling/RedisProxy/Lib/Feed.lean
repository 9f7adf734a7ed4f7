import Mathlib

/-!
# Machines that read symbol after symbol

A machine reads a list of symbols and stops at the first one that makes it, with a verdict; what it has
not read is returned. Reading a list in two parts is the same as reading it in one go, so how the
symbols arrive does not matter.
-/

namespace RedisProxy.Lib

open List

variable {β σ τ ε : Type*}

/-- Reads the symbols up to the first one that stops the machine. -/
def feeds (step : β → σ → Option ε × σ) : List β → σ → Option ε × σ × List β
  | [], s => (none, s, [])
  | b :: bs, s =>
    match step b s with
    | (none, s) => feeds step bs s
    | (some e, s) => (some e, s, bs)

/-- Each symbol that is read meets `P` in the state before it. -/
def Along (P : β → σ → Prop) (step : β → σ → Option ε × σ) : List β → σ → Prop
  | [], _ => True
  | b :: bs, s =>
    P b s ∧
      match step b s with
      | (none, s) => Along P step bs s
      | (some _, _) => True

instance decidableAlong (P : β → σ → Prop) [∀ b s, Decidable (P b s)] (step : β → σ → Option ε × σ) :
    ∀ bs s, Decidable (Along P step bs s)
  | [], _ => .isTrue trivial
  | b :: bs, s =>
    have : Decidable (match step b s with
      | (none, s) => Along P step bs s
      | (some _, _) => True) :=
      match step b s with
      | (none, s) => decidableAlong P step bs s
      | (some _, _) => .isTrue trivial
    inferInstanceAs (Decidable (_ ∧ _))

section Feeds

variable {step : β → σ → Option ε × σ} {P : β → σ → Prop} {b : β} {bs cs : List β} {s t : σ} {e : ε}
  {o : Option ε}

theorem feeds_cons_none (h : step b s = (none, t)) : feeds step (b :: bs) s = feeds step bs t := by
  simp only [feeds, h]

theorem feeds_cons_some (h : step b s = (some e, t)) : feeds step (b :: bs) s = (some e, t, bs) := by
  simp only [feeds, h]

theorem feeds_append (h : feeds step bs s = (none, t, [])) : feeds step (bs ++ cs) s = feeds step cs t := by
  induction bs generalizing s with
  | nil => simp only [feeds, Prod.mk.injEq] at h; rw [nil_append, h.2.1]
  | cons b bs ih =>
    rcases hs : step b s with ⟨_ | e, s'⟩
    · rw [feeds_cons_none hs] at h; rw [cons_append, feeds_cons_none hs, ih h]
    · rw [feeds_cons_some hs] at h; simp at h

theorem feeds_stop (h : feeds step bs s = (some e, t, [])) : feeds step (bs ++ cs) s = (some e, t, cs) := by
  induction bs generalizing s with
  | nil => cases h
  | cons b bs ih =>
    rcases hs : step b s with ⟨_ | e', s'⟩
    · rw [feeds_cons_none hs] at h; rw [cons_append, feeds_cons_none hs, ih h]
    · rw [feeds_cons_some hs] at h; cases h; rw [cons_append, feeds_cons_some hs, nil_append]

/-- An input that shares its beginning with one at whose last symbol the machine stops: the machine goes on, or
stops at the same symbol. -/
theorem feeds_cut {ws : List β} (h : feeds step bs s = (some e, t, [])) (hw : ws <+: bs ++ cs) :
    (∃ s', feeds step ws s = (none, s', []) ∧ ws.length < bs.length) ∨
      ∃ r, ws = bs ++ r ∧ feeds step ws s = (some e, t, r) := by
  induction bs generalizing s ws with
  | nil => cases h
  | cons b bs ih =>
    cases ws with
    | nil => exact .inl ⟨s, rfl, by simp⟩
    | cons b' ws =>
      rw [cons_append, cons_prefix_cons] at hw
      obtain ⟨rfl, hw⟩ := hw
      rcases hs : step b' s with ⟨_ | e', s'⟩
      · rw [feeds_cons_none hs] at h
        rw [feeds_cons_none hs]
        rcases ih h hw with ⟨s'', h1, h2⟩ | ⟨r, rfl, h1⟩
        · exact .inl ⟨s'', h1, by simpa using h2⟩
        · exact .inr ⟨r, rfl, h1⟩
      · rw [feeds_cons_some hs] at h
        cases h
        exact .inr ⟨ws, rfl, feeds_cons_some hs⟩

theorem Along.cons_none (h : Along P step (b :: bs) s) (hs : step b s = (none, t)) : Along P step bs t := by
  simp only [Along, hs] at h; exact h.2

theorem Along.mono {Q : β → σ → Prop} (hPQ : ∀ b s, P b s → Q b s) (h : Along P step bs s) : Along Q step bs s := by
  induction bs generalizing s with
  | nil => exact trivial
  | cons b bs ih =>
    refine ⟨hPQ b s h.1, ?_⟩
    rcases hs : step b s with ⟨_ | e, s'⟩
    · exact ih (h.cons_none hs)
    · exact trivial

theorem Along.append (h : Along P step bs s) (hf : feeds step bs s = (none, t, [])) (hc : Along P step cs t) :
    Along P step (bs ++ cs) s := by
  induction bs generalizing s with
  | nil => simp only [feeds, Prod.mk.injEq] at hf; rw [nil_append, hf.2.1]; exact hc
  | cons b bs ih =>
    rcases hs : step b s with ⟨_ | e, s'⟩
    · rw [feeds_cons_none hs] at hf
      refine ⟨h.1, ?_⟩
      simp only [hs]
      exact ih (h.cons_none hs) hf
    · rw [feeds_cons_some hs] at hf; simp at hf

theorem Along.left (h : Along P step (bs ++ cs) s) : Along P step bs s := by
  induction bs generalizing s with
  | nil => exact trivial
  | cons b bs ih =>
    refine ⟨h.1, ?_⟩
    rcases hs : step b s with ⟨_ | e, s'⟩
    · exact ih (Along.cons_none h hs)
    · exact trivial

/-- A condition on an input at whose last symbol the machine stops holds on every input that shares its beginning
with it. -/
theorem Along.cut {ws : List β} (h : Along P step bs s) (hf : feeds step bs s = (some e, t, [])) (hw : ws <+: bs ++ cs) :
    Along P step ws s := by
  induction bs generalizing s ws with
  | nil => cases hf
  | cons b bs ih =>
    cases ws with
    | nil => exact trivial
    | cons b' ws =>
      rw [cons_append, cons_prefix_cons] at hw
      obtain ⟨rfl, hw⟩ := hw
      refine ⟨h.1, ?_⟩
      rcases hs : step b' s with ⟨_ | e', s'⟩
      · rw [feeds_cons_none hs] at hf
        exact ih (h.cons_none hs) hf hw
      · exact trivial

theorem Along.right (h : Along P step (bs ++ cs) s) (hf : feeds step bs s = (none, t, [])) :
    Along P step cs t := by
  induction bs generalizing s with
  | nil => simp only [feeds, Prod.mk.injEq] at hf; rw [← hf.2.1]; exact h
  | cons b bs ih =>
    rcases hs : step b s with ⟨_ | e, s'⟩
    · rw [feeds_cons_none hs] at hf
      exact ih (Along.cons_none h hs) hf
    · rw [feeds_cons_some hs] at hf; simp at hf

/-- A condition is carried from one machine to another one that follows it. -/
theorem Along.sim {ε' : Type*} {step' : β → τ → Option ε' × τ} {Q : β → τ → Prop} {R : σ → τ → Prop}
    (hPQ : ∀ b s t, R s t → P b s → Q b t)
    (hstep : ∀ b s t t', R s t → step' b t = (none, t') → ∃ s', step b s = (none, s') ∧ R s' t') {t : τ}
    (hR : R s t) (h : Along P step bs s) : Along Q step' bs t := by
  induction bs generalizing s t with
  | nil => exact trivial
  | cons b bs ih =>
    refine ⟨hPQ b s t hR h.1, ?_⟩
    rcases ht : step' b t with ⟨_ | e, t'⟩
    · obtain ⟨s', hs, hR'⟩ := hstep b s t t' hR ht
      exact ih hR' (h.cons_none hs)
    · exact trivial

end Feeds

end RedisProxy.Lib
