import Mathlib

/-!
# Ownership

Things that are kept in a number of stacks, and things that are held by slots, each in one place only.
-/

namespace RedisProxy.Lib

open List Function

/-! ## Stacks -/

/-- No entry occurs twice, neither in one stack nor in two of them. -/
structure Apart {κ δ : Type*} (stack : κ → List δ) : Prop where
  nodup : ∀ k, (stack k).Nodup
  inj : ∀ {k k' d}, d ∈ stack k → d ∈ stack k' → k = k'

namespace Apart

variable {κ δ : Type*} {stack : κ → List δ}

/-- The entries of two positions differ. -/
theorem position (h : Apart stack) (k k' : κ) {n n' : Nat} {d : δ} (hd : (stack k)[n]? = some d)
    (hd' : (stack k')[n']? = some d) : k = k' ∧ n = n' := by
  obtain rfl := h.inj (mem_of_getElem? hd) (mem_of_getElem? hd')
  refine ⟨rfl, ?_⟩
  obtain ⟨hlt, hget⟩ := List.getElem?_eq_some_iff.mp hd
  obtain ⟨hlt', hget'⟩ := List.getElem?_eq_some_iff.mp hd'
  exact (h.nodup k).getElem_inj_iff.mp (hget.trans hget'.symm)

variable [DecidableEq κ]

theorem push (h : Apart stack) {d : δ} (hd : ∀ k, d ∉ stack k) (k : κ) :
    Apart (Function.update stack k (d :: stack k)) := by
  have hmem : ∀ {k' e}, e ∈ update stack k (d :: stack k) k' → e ∈ stack k' ∨ (k' = k ∧ e = d) := by
    intro k' e he
    rw [update_apply] at he
    split_ifs at he with hk
    · rcases mem_cons.mp he with rfl | he
      · exact .inr ⟨hk, rfl⟩
      · exact .inl (hk ▸ he)
    · exact .inl he
  refine ⟨fun k' => ?_, fun {k₁ k₂ e} h₁ h₂ => ?_⟩
  · rw [update_apply]
    split_ifs
    · exact nodup_cons.mpr ⟨hd k, h.nodup k⟩
    · exact h.nodup k'
  · rcases hmem h₁ with h₁' | ⟨hk₁, he₁⟩
    · rcases hmem h₂ with h₂' | ⟨-, he₂⟩
      · exact h.inj h₁' h₂'
      · exact absurd (he₂ ▸ h₁') (hd k₁)
    · rcases hmem h₂ with h₂' | ⟨hk₂, -⟩
      · exact absurd (he₁ ▸ h₂') (hd k₂)
      · exact hk₁.trans hk₂.symm

theorem mem_of_pop {k k' : κ} {d e : δ} {l : List δ} (hk : stack k = d :: l)
    (he : e ∈ Function.update stack k l k') : e ∈ stack k' := by
  rw [update_apply] at he
  split_ifs at he with heq
  · rw [heq, hk]
    exact mem_cons_of_mem d he
  · exact he

theorem pop (h : Apart stack) {k : κ} {d : δ} {l : List δ} (hk : stack k = d :: l) :
    Apart (Function.update stack k l) ∧ ∀ k', d ∉ Function.update stack k l k' := by
  have hcons := h.nodup k
  rw [hk] at hcons
  obtain ⟨hnot, hl⟩ := nodup_cons.mp hcons
  refine ⟨⟨fun k' => ?_, fun h₁ h₂ => h.inj (mem_of_pop hk h₁) (mem_of_pop hk h₂)⟩, fun k' hd => ?_⟩
  · rw [update_apply]
    split_ifs
    · exact hl
    · exact h.nodup k'
  · have hkk : k' = k := h.inj (mem_of_pop hk hd) (by rw [hk]; exact mem_cons_self)
    rw [hkk, update_self] at hd
    exact hnot hd

end Apart

/-! ## Slots -/

/-- No two slots hold the same thing. -/
def Exclusive {σ δ : Type*} (own : σ → Option δ) : Prop := ∀ ⦃s t d⦄, own s = some d → own t = some d → s = t

namespace Exclusive

variable {σ δ : Type*} {own own' : σ → Option δ}

/-- Slots may become empty. -/
theorem shrink (h : Exclusive own) (hs : ∀ s d, own' s = some d → own s = some d) : Exclusive own' :=
  fun s t d hd hd' => h (hs s d hd) (hs t d hd')

/-- A slot may take what nobody holds. -/
theorem place [DecidableEq σ] (h : Exclusive own) {d : δ} (hd : ∀ t, own t ≠ some d) (s : σ) :
    Exclusive (Function.update own s (some d)) := by
  intro t t' e ht ht'
  rw [update_apply] at ht ht'
  split_ifs at ht ht' with h₁ h₂ h₂
  · rw [h₁, h₂]
  · exact absurd (ht'.trans ht.symm) (hd t')
  · exact absurd (ht.trans ht'.symm) (hd t)
  · exact h ht ht'

end Exclusive

end RedisProxy.Lib
