import Mathlib

/-!
# Runs of a machine

A machine takes labelled steps; a step without a result aborts it. A property of every reachable
state follows from one step that keeps an invariant, where the steps may be restricted by a condition
on the state before them and on their label.
-/

namespace RedisProxy.Lib

variable {σ ℓ : Type}

/-- The state after the steps `ls`, if none of them aborts. -/
def run (step : σ → ℓ → Option σ) : σ → List ℓ → Option σ
  | s, [] => some s
  | s, l :: ls => (step s l).bind fun s' => run step s' ls

/-- Every step of the run meets the condition `C` in the state in which it is taken. -/
def Meets (step : σ → ℓ → Option σ) (C : σ → ℓ → Prop) : σ → List ℓ → Prop
  | _, [] => True
  | s, l :: ls => C s l ∧ ∀ s', step s l = some s' → Meets step C s' ls

section

variable {step : σ → ℓ → Option σ} {C : σ → ℓ → Prop}

@[simp] theorem run_nil (s : σ) : run step s [] = some s := rfl

@[simp] theorem run_cons (s : σ) (l : ℓ) (ls : List ℓ) :
    run step s (l :: ls) = (step s l).bind fun s' => run step s' ls := rfl

theorem run_append (s : σ) (ls ls' : List ℓ) :
    run step s (ls ++ ls') = (run step s ls).bind fun s' => run step s' ls' := by
  induction ls generalizing s with
  | nil => rfl
  | cons l ls ih =>
    rw [List.cons_append, run_cons, run_cons, Option.bind_assoc]
    congr 1
    funext s'
    exact ih s'

/-- The run rule: what one step preserves, every run preserves. -/
theorem run_inv {I : σ → Prop} (hstep : ∀ s l s', I s → C s l → step s l = some s' → I s') :
    ∀ (ls : List ℓ) (s s' : σ), I s → Meets step C s ls → run step s ls = some s' → I s' := by
  intro ls
  induction ls with
  | nil =>
    intro s s' hI _ h
    cases h
    exact hI
  | cons l ls ih =>
    intro s s' hI hC h
    obtain ⟨s1, h1, h2⟩ := Option.bind_eq_some_iff.mp h
    exact ih s1 s' (hstep s l s1 hI hC.1 h1) (hC.2 s1 h1) h2

/-- A run does not abort if no step of it does. -/
theorem run_isSome {I : σ → Prop} (hstep : ∀ s l, I s → C s l → ∃ s', step s l = some s' ∧ I s') :
    ∀ (ls : List ℓ) (s : σ), I s → Meets step C s ls → ∃ s', run step s ls = some s' ∧ I s' := by
  intro ls
  induction ls with
  | nil =>
    intro s hI _
    exact ⟨s, rfl, hI⟩
  | cons l ls ih =>
    intro s hI hC
    obtain ⟨s1, h1, hI1⟩ := hstep s l hI hC.1
    obtain ⟨s', h2, hI'⟩ := ih s1 hI1 (hC.2 s1 h1)
    refine ⟨s', ?_, hI'⟩
    rw [run_cons, h1]
    exact h2

/-- A decidable condition can be checked along a given run. -/
instance decidableMeets [∀ s l, Decidable (C s l)] : ∀ (s : σ) (ls : List ℓ), Decidable (Meets step C s ls)
  | _, [] => isTrue trivial
  | s, l :: ls =>
    match h : step s l with
    | none => decidable_of_iff (C s l) (by simp [Meets, h])
    | some s' =>
      haveI := decidableMeets s' ls
      decidable_of_iff (C s l ∧ Meets step C s' ls) (by simp [Meets, h])

/-- A condition that every step meets holds along every run. -/
theorem meets_of_forall (h : ∀ s l, C s l) : ∀ (ls : List ℓ) (s : σ), Meets step C s ls := by
  intro ls
  induction ls with
  | nil => intro s; trivial
  | cons l ls ih => intro s; exact ⟨h s l, fun s' _ => ih s'⟩

end

end RedisProxy.Lib
