import RedisProxy.Lib.Runs

/-!
# Programs that send commands to a store

A program sends a command, gets its reply and goes on with it. Programs run alone, or as threads over one store whose
commands are interleaved in any order. For threads there is one rule: each thread has a ghost value, an invariant relates
the store to the ghost values of all threads, and a program is safe if each of its commands keeps the invariant for some
new ghost value of its own thread, whatever the others are.
-/

namespace RedisProxy.Lib

open List

/-- A program that sends commands of the type `C`. -/
inductive Prog (C : Type) (R : C → Type) (α : Type)
  | ret (a : α)
  | call (c : C) (k : R c → Prog C R α)

namespace Prog

variable {C : Type} {R : C → Type} {α β S T G : Type}
variable {g : G}

/-- The second program goes on with the result of the first one. -/
def andThen : Prog C R α → (α → Prog C R β) → Prog C R β
  | ret a, f => f a
  | call c k, f => call c fun r => (k r).andThen f

instance : Monad (Prog C R) where
  pure := ret
  bind := andThen

/-- The program that sends one command. -/
def send (c : C) : Prog C R (R c) := call c ret

@[simp] theorem pure_eq (a : α) : (pure a : Prog C R α) = ret a := rfl

@[simp] theorem ret_bind (a : α) (f : α → Prog C R β) : (ret a >>= f) = f a := rfl

@[simp] theorem call_bind (c : C) (k : R c → Prog C R α) (f : α → Prog C R β) : (call c k >>= f) = call c fun r => k r >>= f :=
  rfl

@[simp] theorem send_bind (c : C) (f : R c → Prog C R β) : (send c >>= f) = call c f := rfl

/-- The program has no command left to send. -/
def isRet : Prog C R α → Bool
  | ret _ => true
  | call .. => false

variable (act : (c : C) → S → S × R c)

/-- The program runs alone. -/
def exec : Prog C R α → S → S × α
  | ret a, s => (s, a)
  | call c k, s => (k (act c s).2).exec (act c s).1

theorem exec_bind (p : Prog C R α) (f : α → Prog C R β) (s : S) :
    (p >>= f).exec act s = (f (p.exec act s).2).exec act (p.exec act s).1 := by
  induction p generalizing s with
  | ret a => rfl
  | call c k ih => exact ih _ _

/-- Each command of the program, from the ghost value `g` of its thread on, keeps the invariant with another ghost value,
and the result and the last ghost value meet `Q`. -/
def Safe (Inv : S → Multiset (T × G) → Prop) (t : T) (Q : α → G → Prop) : Prog C R α → G → Prop
  | ret a, g => Q a g
  | call c k, g => ∀ s gs, Inv s ((t, g) ::ₘ gs) →
      ∃ g', Inv (act c s).1 ((t, g') ::ₘ gs) ∧ Safe Inv t Q (k (act c s).2) g'

variable {act} {Inv : S → Multiset (T × G) → Prop} {t : T}

/-- The rule of composition. -/
theorem Safe.bind {p : Prog C R α} {f : α → Prog C R β} {Q : α → G → Prop} {Q' : β → G → Prop}
    (hp : p.Safe act Inv t Q g) (hf : ∀ a g, Q a g → (f a).Safe act Inv t Q' g) : (p >>= f).Safe act Inv t Q' g := by
  induction p generalizing g with
  | ret a => exact hf a g hp
  | call c k ih =>
    intro s gs hi
    obtain ⟨g', hi', hp'⟩ := hp s gs hi
    exact ⟨g', hi', ih _ hp'⟩

/-- A program that runs alone keeps the invariant. -/
theorem Safe.exec {p : Prog C R α} {Q : α → G → Prop} {s : S} {gs : Multiset (T × G)} (hp : p.Safe act Inv t Q g)
    (hi : Inv s ((t, g) ::ₘ gs)) : ∃ g', Q (p.exec act s).2 g' ∧ Inv (p.exec act s).1 ((t, g') ::ₘ gs) := by
  induction p generalizing g s with
  | ret a => exact ⟨g, hp, hi⟩
  | call c k ih =>
    obtain ⟨g', hi', hp'⟩ := hp s gs hi
    exact ih _ hp' hi'

end Prog

/-- Threads over one store: what each of them was started for, and the rest of its program. -/
structure Threads (S T : Type) (C : Type) (R : C → Type) (α : Type) where
  store : S
  threads : List (T × Prog C R α)

/-- A thread is started, or the next command of a thread is executed. -/
inductive Turn (T : Type)
  | start (t : T)
  | next (i : Nat)
deriving DecidableEq, Repr

namespace Threads

variable {C : Type} {R : C → Type} {α S T G : Type}
variable {gs : List (T × G)}

/-- No thread has a command left to send. -/
def Quiet (s : Threads S T C R α) : Prop := ∀ x ∈ s.threads, x.2.isRet = true

instance (s : Threads S T C R α) : Decidable s.Quiet := inferInstanceAs (Decidable (∀ x ∈ s.threads, _))

variable (act : (c : C) → S → S × R c) (body : T → Prog C R α)

def step (s : Threads S T C R α) : Turn T → Option (Threads S T C R α)
  | .start t => some { s with threads := s.threads ++ [(t, body t)] }
  | .next i =>
    match s.threads[i]? with
    | some (t, .call c k) => some ⟨(act c s.store).1, s.threads.set i (t, k (act c s.store).2)⟩
    | _ => some s

/-- Each thread has a ghost value for which it is safe, and ends with `idle`. -/
def Coupled (Inv : S → Multiset (T × G) → Prop) (idle : G) (xs : List (T × Prog C R α)) (gs : List (T × G)) : Prop :=
  List.Forall₂ (fun x y => x.1 = y.1 ∧ x.2.Safe act Inv x.1 (fun _ g => g = idle) y.2) xs gs

variable {act} {body} {Inv : S → Multiset (T × G) → Prop} {idle : G}

/-- The ghost values of one thread and of the others. -/
theorem set_cons {γ : Type} (gs : List γ) (i : Nat) (h : i < gs.length) :
    ∃ rest : Multiset γ, (gs : Multiset γ) = gs[i] ::ₘ rest ∧ ∀ y, (gs.set i y : Multiset γ) = y ::ₘ rest := by
  refine ⟨(gs.take i ++ gs.drop (i + 1) : List γ), ?_, ?_⟩
  · conv_lhs => rw [← take_append_drop i gs, drop_eq_getElem_cons h]
    exact Multiset.coe_eq_coe.mpr perm_middle
  · intro y
    rw [set_eq_take_append_cons_drop, if_pos h]
    exact Multiset.coe_eq_coe.mpr perm_middle

theorem Coupled.next {xs : List (T × Prog C R α)} {s : S} {i : Nat} {t : T} {c : C} {k : R c → Prog C R α}
    (hc : Coupled act Inv idle xs gs) (hi : Inv s gs) (hx : xs[i]? = some (t, .call c k)) :
    ∃ gs', Coupled act Inv idle (xs.set i (t, k (act c s).2)) gs' ∧ Inv (act c s).1 gs' := by
  obtain ⟨hlt, hget⟩ := List.getElem?_eq_some_iff.mp hx
  have hlt' : i < gs.length := hc.length_eq ▸ hlt
  obtain ⟨hlen, hall⟩ := forall₂_iff_get.mp hc
  obtain ⟨htag, hsafe⟩ := hall i hlt hlt'
  rw [get_eq_getElem, hget] at hsafe
  rw [get_eq_getElem, get_eq_getElem, hget] at htag
  obtain ⟨rest, hrest, hset⟩ := set_cons gs i hlt'
  have hg : gs[i] = (t, gs[i].2) := Prod.ext htag.symm rfl
  rw [hrest, hg] at hi
  obtain ⟨g', hi', hsafe'⟩ := hsafe s rest hi
  refine ⟨gs.set i (t, g'), ?_, ?_⟩
  · refine forall₂_iff_get.mpr ⟨by simp [hlen], ?_⟩
    intro j hj hj'
    by_cases h : i = j
    · subst h
      simpa using hsafe'
    · have := hall j (by simpa using hj) (by simpa using hj')
      simpa [getElem_set_ne h] using this
  · rw [hset]
    exact hi'

/-- The rule for threads: the invariant holds in every state of a run in which each thread that is started finds a ghost
value for which it is safe. -/
theorem coupled_run {Start : Threads S T C R α → Turn T → Prop}
    (hstart : ∀ s gs t, Coupled act Inv idle s.threads gs → Inv s.store gs → Start s (.start t) →
      ∃ g, Inv s.store ((t, g) ::ₘ (gs : Multiset (T × G))) ∧ (body t).Safe act Inv t (fun _ g => g = idle) g)
    {ls : List (Turn T)} {s s' : Threads S T C R α} (h0 : s.threads = []) (hi : Inv s.store 0)
    (hm : Meets (step act body) Start s ls) (hr : run (step act body) s ls = some s') :
    ∃ gs, Coupled act Inv idle s'.threads gs ∧ Inv s'.store gs := by
  refine run_inv (I := fun s => ∃ gs, Coupled act Inv idle s.threads gs ∧ Inv s.store gs) ?_ ls s s' ?_ hm hr
  · rintro s l s1 ⟨gs, hc, hi⟩ hC hstep
    cases l with
    | start t =>
      cases hstep
      obtain ⟨g, hi', hsafe⟩ := hstart s gs t hc hi hC
      refine ⟨gs ++ [(t, g)], rel_append hc (.cons ⟨rfl, hsafe⟩ .nil), ?_⟩
      have hperm : ((gs ++ [(t, g)] : List (T × G)) : Multiset (T × G)) = (t, g) ::ₘ (gs : Multiset (T × G)) :=
        Multiset.coe_eq_coe.mpr (perm_append_singleton _ _)
      rw [hperm]
      exact hi'
    | next i =>
      unfold step at hstep
      dsimp only at hstep
      split at hstep
      · rename_i t c k hx
        cases hstep
        exact hc.next hi hx
      · cases hstep
        exact ⟨gs, hc, hi⟩
  · exact ⟨[], h0 ▸ .nil, hi⟩

/-- A thread that has ended has the ghost value `idle`. -/
theorem Coupled.ended {xs : List (T × Prog C R α)} (hc : Coupled act Inv idle xs gs) {y : T × G}
    (hy : y ∈ gs) (hq : ∀ x ∈ xs, x.1 = y.1 → x.2.isRet = true) : y.2 = idle := by
  induction hc with
  | nil => cases hy
  | @cons x g xs gs hxg _ ih =>
    rcases mem_cons.mp hy with rfl | hy
    · have hret := hq x mem_cons_self hxg.1
      obtain ⟨t, p⟩ := x
      cases p with
      | ret a => exact hxg.2
      | call c k => cases hret
    · exact ih hy fun x hx => hq x (mem_cons_of_mem _ hx)

end Threads

end RedisProxy.Lib
