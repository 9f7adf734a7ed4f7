import RedisProxy.Proofs.TimerProofs

/-!
# Proofs: the lists along a run

`Loop` is at the first meta of the rest of the used list. A round takes the meta into the part that `Loop` has seen, or
removes it; what its callback adds comes in front of that part. Only the removal can go wrong: a meta of the pool that is
given back while no meta is free keeps its link into the used list.
-/

namespace RedisProxy

open Lib List Option

namespace Timers

variable {D : Type} {poolSize : Nat} {t t' : Timers D} {seen rest used free : List Nat} {p : Nat}
  {actions : List (TimerAction D)}

/-- The two lists run up to a null pointer, linked in both directions, and have no meta in common; each meta of the pool is
in one of them, and `AddTimer` does not take one that is in the used list. -/
def WellFormed (poolSize : Nat) (t : Timers D) : Prop :=
  ∃ used free, Linked t.next t.prev none t.pUsingMeta used ∧ Linked t.next t.prev none t.pFreeMeta free ∧
    (∀ q ∈ used, q ∉ free) ∧ (∀ q < poolSize, q ∈ used ∨ q ∈ free) ∧ t.taken ∉ used

theorem Lists.wellFormed (h : t.Lists poolSize [] used free) : t.WellFormed poolSize :=
  ⟨used, free, h.usedList, h.freeList, h.apart, fun q hq => by simpa using h.pool q hq, h.taken_notMem⟩

/-- The actions leave a meta in the free list. -/
def Spare (t : Timers D) (actions : List (TimerAction D)) : Prop :=
  let n := actions.countP TimerAction.isAdd
  n < (walk t.next (n + 1) t.pFreeMeta).length

theorem Lists.spare_iff (h : t.Lists poolSize [] used free) :
    t.Spare actions ↔ actions.countP TimerAction.isAdd < free.length := by
  rw [Spare, h.freeList.walk_eq, length_take]
  omega

/-- A callback that neither finishes its own timer nor belongs to one that does not repeat leaves it repeating. -/
theorem effects_bReuse {q : Nat} {m : TimerMeta D} (hm : m.bReuse = true) (hfinish : .finish q ∉ actions) :
    (actions.foldl (TimerAction.effect q) m).bReuse = true := by
  induction actions generalizing m with
  | nil => exact hm
  | cons action actions ih =>
    rw [mem_cons, not_or] at hfinish
    refine ih ?_ hfinish.2
    cases action <;> grind [TimerAction.effect]

end Timers

namespace TimerRun

variable {D : Type} {poolSize : Nat} {t t' : Timers D} {s s' : TimerRun D} {l : TimerLoop} {seen rest used free : List Nat}
  {p : Nat} {actions : List (TimerAction D)}

/-- The meta at which `Loop` is goes back to the pool only while another one is free, or if it is the last one in use. -/
def RecycleOK (s : TimerRun D) : TimerLabel D → Prop
  | .round actions => ∀ l ∈ s.loop, ∀ p ∈ current l, (s.body p).bPoolMeta = true → s.next p ≠ none →
      if (s.body p).bInUse then
        (s.body p).ulNextMS ≤ l.ulNow → (s.body p).bReuse = false ∨ .finish p ∈ actions → s.Spare actions
      else s.Spare []
  | _ => True

/-- The callback of the meta at which `Loop` is has done some of its actions, which lead to `t'`. -/
def Calling (s : TimerRun D) (t' : Timers D) : Prop :=
  ∃ l ∈ s.loop, ∃ p ∈ current l, (s.body p).bInUse = true ∧ (s.body p).ulNextMS ≤ l.ulNow ∧
    ∃ actions, (fire s.toTimers l p).acts actions = some t'

/-- `Loop` has seen the first part of the used list. -/
structure Walks (poolSize : Nat) (s : TimerRun D) (seen rest free : List Nat) : Prop where
  lists : s.toTimers.Lists poolSize [] (seen ++ rest) free
  loop : ∀ l ∈ s.loop, l.pMeta = rest.head?

/-- The kinds of a round. -/
theorem round_cases (hr : round t l p actions = some s') :
    (t.body p).bInUse = false ∧ s' = drop t l p ∨
      (t.body p).bInUse = true ∧ l.ulNow < (t.body p).ulNextMS ∧ s' = skip t l p ∨
      (t.body p).bInUse = true ∧ (t.body p).ulNextMS ≤ l.ulNow ∧
        ∃ t', (fire t l p).acts actions = some t' ∧ s' = fired t' l p := by
  unfold round at hr
  dsimp only at hr
  by_cases hinUse : (t.metas p).bInUse = true
  · rw [if_neg (by rw [hinUse]; decide)] at hr
    split_ifs at hr with hdue
    · obtain ⟨t', ha, rfl⟩ := map_eq_some_iff.mp hr
      exact .inr (.inr ⟨hinUse, hdue, t', ha, rfl⟩)
    · exact .inr (.inl ⟨hinUse, Nat.not_le.mp hdue, (some.inj hr).symm⟩)
  · rw [Bool.not_eq_true] at hinUse
    rw [hinUse] at hr
    exact .inl ⟨hinUse, (some.inj hr).symm⟩

theorem Walks.drop (h : t.Lists poolSize [] (seen ++ p :: rest) free)
    (hroom : p < poolSize → t.pFreeMeta ≠ none ∨ t.next p = none) :
    ∃ free', (drop t l p).Walks poolSize seen rest free' := by
  obtain ⟨free', hdel⟩ := h.delTimer hroom
  exact ⟨free', hdel, by rintro _ ⟨⟩; exact h.usedList.next_eq⟩

theorem Walks.skip (h : t.Lists poolSize [] (seen ++ p :: rest) free) :
    (skip t l p).Walks poolSize (seen ++ [p]) rest free :=
  ⟨by rw [append_assoc]; exact h, by rintro _ ⟨⟩; exact h.usedList.next_eq⟩

/-- After the callback. -/
theorem Walks.fired (h : t.Lists poolSize [] (seen ++ p :: rest) free)
    (hroom : p < poolSize → (t.body p).bReuse = false → t.pFreeMeta ≠ none ∨ t.next p = none) :
    ∃ free', (fired t l p).Walks poolSize (if (t.body p).bReuse then seen ++ [p] else seen) rest free' := by
  unfold TimerRun.fired
  by_cases hreuse : (t.metas p).bReuse = true
  · rw [if_pos hreuse, if_pos (show (t.body p).bReuse = true from hreuse)]
    refine ⟨free, ?_, by rintro _ ⟨⟩; exact h.usedList.next_eq⟩
    rw [append_assoc]
    exact h.setMeta p (f := fun m => { m with ulNextMS := uint64 (l.ulNow + (t.metas p).ulMS) })
      (fun _ => ⟨rfl, rfl, rfl⟩) (.inr fun _ => id)
  · rw [if_neg hreuse, if_neg (show ¬ (t.body p).bReuse = true from hreuse)]
    obtain ⟨free', hdel⟩ := h.delTimer fun hp => hroom hp (Bool.eq_false_iff.mpr hreuse)
    exact ⟨free', hdel, by rintro _ ⟨⟩; exact h.usedList.next_eq⟩

/-- The callback of the meta `p` has run. -/
theorem Walks.called (h : s.Walks poolSize seen (p :: rest) free) (ha : (fire s.toTimers l p).acts actions = some t') :
    (∃ new, new.length = actions.countP TimerAction.isAdd ∧
      t'.Lists poolSize [] ((new ++ seen) ++ p :: rest) (free.drop new.length)) ∧
      ∀ q ∈ seen ++ p :: rest, t'.body q = actions.foldl (TimerAction.effect q) (s.body q) := by
  have hfire : (fire s.toTimers l p).Lists poolSize [] (seen ++ p :: rest) free :=
    h.lists.frame rfl rfl rfl rfl rfl rfl (fun _ => rfl) fun _ => .inr
  obtain ⟨⟨new, hlen, hlists⟩, hbody⟩ := hfire.acts ha
  exact ⟨⟨new, hlen, by rw [append_assoc]; exact hlists⟩, hbody⟩

/-- The meta at which `Loop` is. -/
theorem Walks.current (h : s.Walks poolSize seen rest free) (hl : s.loop = some l) (hp : TimerRun.current l = some p) :
    ∃ rest', rest = p :: rest' := by
  unfold TimerRun.current at hp
  split_ifs at hp
  rw [h.loop l hl] at hp
  exact head?_eq_some_iff.mp hp

/-- The callback leaves a free meta. -/
theorem Walks.spare (h : s.Walks poolSize seen rest free) (hs : s.Spare actions)
    (h' : t'.Lists poolSize [] used (free.drop (actions.countP TimerAction.isAdd))) : t'.pFreeMeta ≠ none := by
  rw [h'.freeList.head_eq, head?_drop]
  exact (getElem?_eq_getElem (h.lists.spare_iff.mp hs)).trans_ne nofun

/-- A round keeps the lists. -/
theorem Walks.round (h : s.Walks poolSize seen (p :: rest) free) (hl : s.loop = some l) (hp : TimerRun.current l = some p)
    (hok : s.RecycleOK (.round actions)) (hr : TimerRun.round s.toTimers l p actions = some s') :
    ∃ seen' free', s'.Walks poolSize seen' rest free' := by
  have hok := hok l hl p hp
  have hpool : p < poolSize → (s.body p).bPoolMeta = true := fun hlt => (h.lists.isPool p).trans (decide_eq_true hlt)
  have hnext : ∀ {t : Timers D} {new : List Nat} {free' : List Nat}, t.Lists poolSize [] (new ++ p :: rest) free' →
      t.next p = s.next p := fun h' => h'.usedList.next_eq.trans h.lists.usedList.next_eq.symm
  rcases round_cases hr with ⟨hinUse, rfl⟩ | ⟨-, -, rfl⟩ | ⟨hinUse, hdue, t', ha, rfl⟩
  · obtain ⟨free', hdrop⟩ := Walks.drop h.lists fun hlt => by
      by_cases hnull : s.next p = none
      · exact .inr hnull
      · have hspare := hok (hpool hlt) hnull
        rw [hinUse] at hspare
        exact .inl (h.spare hspare h.lists)
    exact ⟨seen, free', hdrop⟩
  · exact ⟨_, free, Walks.skip h.lists⟩
  · obtain ⟨⟨new, hlen, hlists⟩, hbody⟩ := h.called ha
    obtain ⟨free', hfired⟩ := Walks.fired hlists fun hlt hreuse => by
      rw [hnext hlists]
      by_cases hnull : s.next p = none
      · exact .inr hnull
      · have hspare := hok (hpool hlt) hnull
        rw [if_pos hinUse] at hspare
        refine .inl (h.spare (hspare hdue ?_) (hlen ▸ hlists))
        by_contra hnot
        rw [not_or, Bool.not_eq_false] at hnot
        rw [hbody p (by simp), Timers.effects_bReuse hnot.1 hnot.2] at hreuse
        cases hreuse
    exact ⟨_, free', hfired⟩

/-- One step keeps the lists. -/
theorem Walks.step (h : s.Walks poolSize seen rest free) {label : TimerLabel D} (hok : s.RecycleOK label)
    (hs : TimerRun.step s label = some s') : ∃ seen' rest' free', s'.Walks poolSize seen' rest' free' := by
  cases label with
  | act action =>
    cases hl : s.loop with
    | none =>
      simp only [TimerRun.step, hl, map_eq_some_iff] at hs
      obtain ⟨t', ha, rfl⟩ := hs
      obtain ⟨⟨new, -, hlists⟩, -⟩ := h.lists.act ha
      exact ⟨_, _, _, by rw [← append_assoc] at hlists; exact hlists, nofun⟩
    | some l => simp [TimerRun.step, hl] at hs
  | loop ulNow =>
    cases hl : s.loop with
    | none =>
      simp only [TimerRun.step, hl, some.injEq] at hs
      subst hs
      refine ⟨[], seen ++ rest, free, h.lists, ?_⟩
      rintro _ ⟨⟩
      exact h.lists.usedList.head_eq
    | some l => simp [TimerRun.step, hl] at hs
  | round actions =>
    cases hl : s.loop with
    | none => simp [TimerRun.step, hl] at hs
    | some l =>
      cases hp : TimerRun.current l with
      | none =>
        simp only [TimerRun.step, hl, hp, some.injEq] at hs
        subst hs
        exact ⟨seen, rest, free, h.lists, nofun⟩
      | some p =>
        simp only [TimerRun.step, hl, hp] at hs
        obtain ⟨rest', rfl⟩ := h.current hl hp
        obtain ⟨seen', free', h'⟩ := h.round hl hp hok hs
        exact ⟨seen', rest', free', h'⟩

/-- At the start all metas of the pool are free, in order. -/
theorem init_linked {k n : Nat} (hn : k + n = poolSize) :
    Linked (Timers.init D poolSize).next (Timers.init D poolSize).prev (if k = 0 then none else some (k - 1))
      (if k < poolSize then some k else none) (List.range' k n) := by
  induction n generalizing k with
  | zero => exact if_neg (by omega)
  | succ n ih =>
    have hk : k < poolSize := by omega
    refine ⟨if_pos hk, ?_, ih (k := k + 1) (by omega)⟩
    by_cases hzero : k = 0
    · simp [Timers.prev, Timers.init, hzero]
    · simp [Timers.prev, Timers.init, hzero, hk, Nat.pos_of_ne_zero hzero]

theorem init_walks (hpool : 0 < poolSize) : (init D poolSize).Walks poolSize [] [] (List.range' 0 poolSize) where
  lists :=
    { usedList := rfl
      freeList := by
        have hlinked := init_linked (D := D) (zero_add poolSize)
        rw [if_pos rfl, if_pos hpool] at hlinked
        exact hlinked
      apart := by simp
      outside := by simp
      pool := by simp
      freePool := by simp
      isPool := fun _ => rfl
      live := fun q hq => by simpa [init, Timers.init] using hq
      inUse := nofun }
  loop := nofun

/-- In every state of a run that gives back metas only while another one is free, or if it is the last one in use, both
lists are well-formed; so they are during each callback. -/
theorem lists_wellFormed {ls : List (TimerLabel D)} (hok : Meets step RecycleOK (init D timerPoolSize) ls)
    (hr : run step (init D timerPoolSize) ls = some s) :
    s.WellFormed timerPoolSize ∧ ∀ t', s.Calling t' → t'.WellFormed timerPoolSize := by
  have hinit : ∃ seen rest free, (init D timerPoolSize).Walks timerPoolSize seen rest free :=
    ⟨_, _, _, init_walks (by decide)⟩
  have hwalks := run_inv (I := fun s => ∃ seen rest free, Walks timerPoolSize s seen rest free)
    (fun s l s' ⟨_, _, _, h⟩ hok hs => h.step hok hs) ls _ _ hinit hok hr
  obtain ⟨seen, rest, free, h⟩ := hwalks
  refine ⟨h.lists.wellFormed, ?_⟩
  rintro t' ⟨l, hl, p, hp, -, -, actions, ha⟩
  obtain ⟨rest', rfl⟩ := h.current hl hp
  obtain ⟨⟨new, -, hlists⟩, -⟩ := h.called ha
  exact hlists.wellFormed

/-- A timer that does not repeat is added and fires; its meta is the last one in use. -/
theorem lists_wellFormed_once :
    (Meets step RecycleOK (init Unit timerPoolSize) [.act (.addTimer () 0 5 false), .loop 7, .round []]) ∧
      ∃ s, run step (init Unit timerPoolSize) [.act (.addTimer () 0 5 false), .loop 7, .round []] = some s ∧
        s.WellFormed timerPoolSize := by
  have hok : Meets step RecycleOK (init Unit timerPoolSize) [.act (.addTimer () 0 5 false), .loop 7, .round []] := by
    refine ⟨trivial, fun s hs => ⟨trivial, fun s' hs' => ⟨?_, fun _ _ => trivial⟩⟩⟩
    obtain rfl := some.inj hs
    obtain rfl := some.inj hs'
    rintro _ ⟨⟩ _ ⟨⟩ - hnext
    exact absurd rfl hnext
  exact ⟨hok, _, rfl, (lists_wellFormed hok rfl).1⟩

/-- `AddTimer` until the pool is empty. -/
theorem adds_lists {n : Nat} (hn : n ≤ poolSize) (hpool : 0 < poolSize) :
    ∃ s, run step (init Unit poolSize) (List.replicate n (.act (.addTimer () 0 0 true))) = some s ∧ s.loop = none ∧
      s.Lists poolSize [] (List.range n).reverse (List.range' n (poolSize - n)) := by
  induction n with
  | zero => exact ⟨_, rfl, rfl, (init_walks hpool).lists⟩
  | succ n ih =>
    obtain ⟨s, hr, hl, hlists⟩ := ih (by omega)
    obtain ⟨k, hk⟩ : ∃ k, poolSize - n = k + 1 := ⟨_, (Nat.succ_pred_eq_of_pos (by omega)).symm⟩
    rw [hk, range'_succ] at hlists
    have htaken : s.taken = n := by rw [Timers.taken, hlists.freeList.1]; rfl
    have hadd := hlists.addTimer () 0 0 true
    rw [htaken] at hadd
    refine ⟨{ (s.addTimer () 0 0 true).2 with loop := none }, ?_, rfl, ?_⟩
    · rw [replicate_succ', run_append, hr]
      simp [step, hl, Timers.act]
    · rw [range_succ, reverse_append, show poolSize - (n + 1) = k by omega]
      exact hadd

/-- A free list that runs into the used one. -/
theorem not_wellFormed {q r : Nat} (hused : t.pUsingMeta = some q) (hfree : t.pFreeMeta = some r)
    (hnext : t.next r = some q) : ¬ t.WellFormed poolSize := by
  rintro ⟨used, free, hu, hf, hapart, -, -⟩
  have hq : q ∈ used := mem_of_mem_head? (hu.head_eq ▸ hused)
  obtain ⟨free', rfl⟩ := head?_eq_some_iff.mp (hf.head_eq.symm.trans hfree)
  have hfree' : q ∈ free' := mem_of_mem_head? (hf.2.2.head_eq ▸ hnext)
  exact hapart q hq (mem_cons_of_mem _ hfree')

/-- With no free meta, `DelTimer` keeps the link of a meta of the pool into the used list. -/
theorem delTimer_keeps (hpool : (t.body p).bPoolMeta = true) (hfree : t.pFreeMeta = none) (hused : t.pUsingMeta = some p)
    (hp : t.prev p ≠ some p) :
    (t.delTimer p).pUsingMeta = t.next p ∧ (t.delTimer p).pFreeMeta = some p ∧ (t.delTimer p).next p = t.next p := by
  have hnext := Timers.unlink_next hp p
  rw [if_neg hp] at hnext
  have hpool' : ((t.unlink p).metas p).bPoolMeta = true := by
    have hbody := congrArg TimerMeta.bPoolMeta (t.unlink_body p p)
    rw [if_pos rfl] at hbody
    exact hbody.trans hpool
  have hfree' := (t.unlink_rest p).1.trans hfree
  refine ⟨?_, ?_⟩
  · rw [Timers.delTimer, ((t.unlink p).recycle_rest p).1, Timers.unlink_pUsingMeta, if_pos hused]
  · rw [← hnext]
    simp [Timers.delTimer, Timers.recycle, hpool', hfree', Timers.setMetaIf, Timers.next, Timers.setMeta_metas]

/-- The pool is empty when a timer is finished and `Loop` gives its meta back. The meta is still linked to the next one in
use, which thereby is the second one of the free list. -/
theorem finish_corrupts (hpool : 1 < poolSize) :
    ∃ s, run step (init Unit poolSize) (List.replicate poolSize (.act (.addTimer () 0 0 true)) ++
      [.act (.finish (poolSize - 1)), .loop 0, .round []]) = some s ∧ ¬ s.WellFormed poolSize := by
  obtain ⟨k, rfl⟩ : ∃ k, poolSize = k + 2 := ⟨poolSize - 2, by omega⟩
  obtain ⟨s, hr, hl, hlists⟩ := adds_lists le_rfl (Nat.zero_lt_of_lt hpool)
  have hused : (range (k + 2)).reverse = [] ++ (k + 1) :: k :: (range k).reverse := by
    simp [range_succ]
  rw [hused, Nat.sub_self] at hlists
  have hact : s.toTimers.act (.finish (k + 1)) = some (s.finish (k + 1)) :=
    if_pos (hlists.live (k + 1) (.inl (by omega))).1
  obtain ⟨⟨new, hlen, hlists'⟩, hbody⟩ := hlists.act hact
  obtain rfl := eq_nil_of_length_eq_zero hlen
  have hinUse : ((s.finish (k + 1)).metas (k + 1)).bInUse = false := by
    have hbody := congrArg TimerMeta.bInUse (hbody (k + 1) (by simp))
    rw [TimerAction.effect, if_pos rfl] at hbody
    exact hbody
  have hnext := hlists'.usedList.next_eq
  obtain ⟨h₁, h₂, h₃⟩ := delTimer_keeps ((hlists'.isPool (k + 1)).trans (decide_eq_true (by omega)))
    hlists'.freeList hlists'.usedList.1 (by rw [hlists'.usedList.prev_eq]; simp)
  refine ⟨drop (s.finish (k + 1)) ⟨0, uint64 (0 + eventTT), 0, some (k + 1)⟩ (k + 1), ?_,
    not_wellFormed (h₁.trans hnext) h₂ (h₃.trans hnext)⟩
  have hhead : (s.finish (k + 1)).pUsingMeta = some (k + 1) := hlists'.usedList.1
  rw [run_append, hr]
  simp [step, hl, hact, current, round, hhead, hinUse]

/-- The timers of the pool are all in use, and the one that was added last is finished. -/
theorem lists_corrupted :
    ∃ s, run step (init Unit timerPoolSize) (List.replicate timerPoolSize (.act (.addTimer () 0 0 true)) ++
      [.act (.finish (timerPoolSize - 1)), .loop 0, .round []]) = some s ∧ ¬ s.WellFormed timerPoolSize :=
  finish_corrupts (by decide)

end TimerRun

end RedisProxy
