import RedisProxy.Lib.Runs

/-!
# Machines with results

A machine performs operations one after the other; each returns a result. A machine refines another one if
a relation between their states is kept by every operation, and both return the same.
-/

namespace RedisProxy.Lib

variable {σ τ ο ρ : Type}

/-- The results of a list of operations, and the state after them. -/
def performAll (step : σ → ο → ρ × σ) : σ → List ο → List ρ × σ
  | s, [] => ([], s)
  | s, o :: ops =>
    let (r, s') := step s o
    let (rs, t) := performAll step s' ops
    (r :: rs, t)

@[simp] theorem performAll_nil (step : σ → ο → ρ × σ) (s : σ) : performAll step s [] = ([], s) := rfl

@[simp] theorem performAll_cons (step : σ → ο → ρ × σ) (s : σ) (o : ο) (ops : List ο) :
    performAll step s (o :: ops) =
      ((step s o).1 :: (performAll step (step s o).2 ops).1, (performAll step (step s o).2 ops).2) := rfl

/-- The simulation rule: what holds for one operation holds for every sequence of operations. -/
theorem performAll_simulation {step : σ → ο → ρ × σ} {step' : τ → ο → ρ × τ} {R : σ → τ → Prop}
    (h : ∀ s t o, R s t → (step s o).1 = (step' t o).1 ∧ R (step s o).2 (step' t o).2) :
    ∀ (ops : List ο) (s : σ) (t : τ), R s t →
      (performAll step s ops).1 = (performAll step' t ops).1 ∧
        R (performAll step s ops).2 (performAll step' t ops).2 := by
  intro ops
  induction ops with
  | nil =>
    intro s t hR
    exact ⟨rfl, hR⟩
  | cons o ops ih =>
    intro s t hR
    obtain ⟨hresult, hnext⟩ := h s t o hR
    obtain ⟨hresults, hlast⟩ := ih _ _ hnext
    constructor
    · rw [performAll_cons, performAll_cons, hresult, hresults]
    · exact hlast

/-! ## Machines that may abort -/

/-- The results of a list of operations and the state after them, if none of them aborts. -/
def tryAll (step : σ → ο → Option (ρ × σ)) : σ → List ο → Option (List ρ × σ)
  | s, [] => some ([], s)
  | s, o :: ops => (step s o).bind fun r => (tryAll step r.2 ops).map fun rs => (r.1 :: rs.1, rs.2)

/-- The steps of such a machine without their results. -/
def next (step : σ → ο → Option (ρ × σ)) (s : σ) (o : ο) : Option σ := (step s o).map Prod.snd

/-- The simulation rule for a machine that may abort: it does not, if each operation is allowed where it is performed. -/
theorem tryAll_simulation {step : σ → ο → Option (ρ × σ)} {step' : τ → ο → ρ × τ} {C : σ → ο → Prop} {R : σ → τ → Prop}
    (h : ∀ s t o, R s t → C s o → ∃ s', step s o = some ((step' t o).1, s') ∧ R s' (step' t o).2) :
    ∀ (ops : List ο) (s : σ) (t : τ), R s t → Meets (next step) C s ops →
      ∃ s', tryAll step s ops = some ((performAll step' t ops).1, s') ∧ R s' (performAll step' t ops).2 := by
  intro ops
  induction ops with
  | nil =>
    intro s t hR _
    exact ⟨s, rfl, hR⟩
  | cons o ops ih =>
    intro s t hR hC
    obtain ⟨s₁, hstep, hR₁⟩ := h s t o hR hC.1
    have hnext : next step s o = some s₁ := by
      rw [next, hstep]
      rfl
    obtain ⟨s', htry, hR'⟩ := ih s₁ _ hR₁ (hC.2 s₁ hnext)
    refine ⟨s', ?_, hR'⟩
    rw [tryAll, hstep, Option.bind_some, htry]
    rfl

end RedisProxy.Lib
